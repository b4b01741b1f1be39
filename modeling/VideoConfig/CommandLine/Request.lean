/-!
# Requests

What the user can ask for on the command line. Assignments and filters `PATH=VALUE`
of a request come behind those of the settings, and files that it names take the
place of the usual ones.
-/

namespace VideoConfig
namespace CommandLine

inductive OutputFormat where
  | text
  | json
deriving DecidableEq, Repr

structure SetRequest where
  assignments : List String
  config : Option String
  attaches : Bool
  format : OutputFormat
deriving DecidableEq, Repr

structure SchemaRequest where
  capabilities : Bool
  start : Option String
  format : OutputFormat
deriving DecidableEq, Repr

structure MatchRequest where
  manifest : Option String
  filters : List String
  config : Option String
  first : Bool
  format : OutputFormat
deriving DecidableEq, Repr

inductive Request where
  | set (request : SetRequest)
  | schema (request : SchemaRequest)
  | implementations (request : MatchRequest)
deriving DecidableEq, Repr

end CommandLine
end VideoConfig
