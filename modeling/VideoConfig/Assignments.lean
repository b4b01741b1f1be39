import VideoConfig.Access

/-!
# Assignments

A list of assignments sets properties one after the other; the first that fails ends
it. Afterwards every path that was set is read once, in the order in which the paths
appeared first.
-/

namespace VideoConfig

structure PathFailure where
  path : String
  failure : Failure AccessError
deriving DecidableEq, Repr

structure Reading where
  path : String
  values : List Value
deriving DecidableEq

namespace Record

def assign (attaches : Bool) (record : Record) (path value : String) : Change :=
  if attaches then record.apply path value else record.set path value

def assignAll (attaches : Bool) (record : Record) :
    List (String × String) -> Except PathFailure Record
  | [] => .ok record
  | (path, value) :: rest =>
      let change := record.assign attaches path value
      match change.result with
      | .ok () => assignAll attaches change.record rest
      | .error failure => .error { path, failure }

def readAll (record : Record) : List String -> Except PathFailure (List Reading)
  | [] => .ok []
  | path :: rest =>
      match record.get path with
      | .ok values => (readAll record rest).map fun readings => { path, values } :: readings
      | .error failure => .error { path, failure }

end Record

def assignedPaths (assignments : List (String × String)) : List String :=
  (assignments.map Prod.fst).eraseDups

end VideoConfig
