/-!
# Computations without a result

A computation may refuse its input for a cause that it can report, or it may
abandon the whole run with nothing to report. The two are kept apart, because a
caller may handle a refusal and has to pass on the other.
-/

namespace VideoConfig

inductive Failure (cause : Type) where
  | refused (cause : cause)
  | abandoned
deriving DecidableEq, Repr

namespace Failure

def map {a b : Type} (f : a -> b) : Failure a -> Failure b
  | refused cause => refused (f cause)
  | abandoned => abandoned

@[simp] theorem map_refused {a b : Type} (f : a -> b) (cause : a) :
    (refused cause).map f = refused (f cause) := rfl

@[simp] theorem map_abandoned {a b : Type} (f : a -> b) :
    (abandoned : Failure a).map f = abandoned := rfl

end Failure

abbrev Attempt (cause result : Type) := Except (Failure cause) result

end VideoConfig
