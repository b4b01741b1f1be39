import VideoConfig.Matching

/-!
# Selecting implementations

Implementations are asked for one at a time, by their index from zero on, until
there is none. Only those that are needed are asked for, and the requests are
recorded. A result has the indexes for which was asked beside it, in order, and
there is none where the run is abandoned.
-/

namespace VideoConfig

/-- A source of descriptors. It answers every index with the same descriptor or with
none, and `limit` with none. -/
structure Enumerator where
  answer : Nat -> Option Descriptor
  limit : Nat
  ends : answer limit = none

structure Requested (result : Type) where
  result : result
  requests : List Nat
deriving DecidableEq, Repr

namespace Requested

def after {result : Type} (index : Nat) (requested : Requested result) : Requested result :=
  { requested with requests := index :: requested.requests }

end Requested

namespace Enumerator

def ofList (descriptors : List Descriptor) : Enumerator where
  answer index := descriptors[index]?
  limit := descriptors.length
  ends := List.getElem?_eq_none (Nat.le_refl _)

def selectFrom? (source : Enumerator) (filters : List Filter) :
    (remaining index : Nat) -> Option (Requested (Option Nat))
  | remaining, index =>
      match source.answer index with
      | none => some { result := none, requests := [index] }
      | some descriptor =>
          match Matching.matches? descriptor filters, remaining with
          | none, _ => none
          | some true, _ => some { result := some index, requests := [index] }
          | some false, 0 => some { result := none, requests := [index] }
          | some false, remaining + 1 =>
              (selectFrom? source filters remaining (index + 1)).map fun found =>
                found.after index

def select? (source : Enumerator) (filters : List Filter) :
    Option (Requested (Option Nat)) :=
  selectFrom? source filters source.limit 0

def matchingFrom? (source : Enumerator) (filters : List Filter) :
    (remaining index : Nat) -> Option (Requested (List Nat))
  | remaining, index =>
      match source.answer index with
      | none => some { result := [], requests := [index] }
      | some descriptor =>
          match Matching.matches? descriptor filters, remaining with
          | none, _ => none
          | some accepted, 0 =>
              some { result := if accepted then [index] else [], requests := [index] }
          | some accepted, remaining + 1 =>
              (matchingFrom? source filters remaining (index + 1)).map fun found =>
                { result := if accepted then index :: found.result else found.result
                  requests := index :: found.requests }

def matching? (source : Enumerator) (filters : List Filter) : Option (Requested (List Nat)) :=
  matchingFrom? source filters source.limit 0

end Enumerator
end VideoConfig
