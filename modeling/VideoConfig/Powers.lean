/-!
# Powers

Powers of natural numbers are those of the core library, whatever else is imported.
-/

namespace VideoConfig

attribute [scoped instance (high)] instPowNat

end VideoConfig
