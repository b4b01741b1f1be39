import VideoConfig.Access.Storage
import VideoConfig.Descriptor
import VideoConfig.Filter

/-!
# Matching

A descriptor matches a list of filters if it meets every one of them. A filter on a
field of the base record, or on a buffer selected by an index, is checked on its own.
All filters on one extension without an index are checked together: a single buffer of
that extension has to meet them all. A path that leads to a record with the fields
`Min`, `Max` and `Step` is met by every range that lies inside of the stored one. A
path that leads to nothing is looked up among the live values.
-/

namespace VideoConfig
namespace Matching

/-!
## Checks

A check asks of a buffer that the elements of a location start with certain values,
or that a range lies inside of the stored one and its steps are no finer.
-/

structure NumberRange where
  least : Nat
  greatest : Nat
  step : Nat
deriving DecidableEq, Repr

namespace NumberRange

def within (inner outer : NumberRange) : Bool :=
  outer.least ≤ inner.least && inner.greatest ≤ outer.greatest && outer.step ≤ inner.step

end NumberRange

structure RangeMembers where
  least : Location
  greatest : Location
  step : Location
deriving DecidableEq, Repr

inductive Check where
  | equals (location : Location) (expected : List Value)
  | contains (members : RangeMembers) (requested : NumberRange)
deriving DecidableEq

/-!
## The check of a filter

What is expected is brought into the form in which the location stores it. A range
is asked for by a text `Min,Max,Step`, and its members are single unsigned 32-bit
integers in one buffer. A filter makes no check if its path leads to nothing in the
schema, or if the field cannot hold what is expected.
-/

def valuesOfText? (location : Location) (text : String) : Option (List Value) :=
  match location.payload text with
  | .ok (.text bytes) => some [Value.ofTextBytes bytes]
  | .ok (.elements values) => some values
  | .error _ => none

/-- Whether a value is compared with what a location holds as it stands, and not by
its text. -/
def comparesAsIs (location : Location) : Value -> Bool
  | .text _ => location.text || decide (location.kind = .char)
  | value => !location.text && decide (location.kind = .scalar value.scalar)

/-- The values that are expected at a location, in the form in which they are stored;
none if the location cannot hold what is expected. -/
def expectedValues? (location : Location) : Expectation -> Option (List Value)
  | .typed value =>
      if comparesAsIs location value then
        some [value]
      else
        valuesOfText? location value.display
  | .text text => valuesOfText? location text

def asWord? : Value -> Option Nat
  | .int ⟨false, .w32⟩ word => some word.toNat
  | _ => none

def rangeOfText? (text : String) : Option NumberRange :=
  match coerceList text .u32 .value with
  | .ok values =>
      match values.mapM asWord? with
      | some [least, greatest, step] => some { least, greatest, step }
      | _ => none
  | .error _ => none

def requestedRange? : Expectation -> Option NumberRange
  | .text text => rangeOfText? text
  | .typed (.text text) => rangeOfText? text
  | .typed _ => none

def member? (schema : Schema) (path name : String) : Attempt Unit Location :=
  match resolve schema (path ++ "." ++ name) with
  | .error .abandoned => .error .abandoned
  | .error (.refused _) => .error (.refused ())
  | .ok location =>
      if location.kind = .u32 ∧ location.count = 1 then
        .ok location
      else
        .error (.refused ())

def rangeMembers? (schema : Schema) (path : String) : Attempt Unit RangeMembers := do
  let least ← member? schema path "Min"
  let greatest ← member? schema path "Max"
  let step ← member? schema path "Step"
  if greatest.target = least.target ∧ step.target = least.target then
    return { least, greatest, step }
  else
    throw (.refused ())

inductive NoCheck where
  | unresolved
  | unrepresentable
deriving DecidableEq, Repr

def checkOf (schema : Schema) (filter : Filter) : Attempt NoCheck Check :=
  match resolve schema filter.path with
  | .error .abandoned => .error .abandoned
  | .ok location =>
      match expectedValues? location filter.expected with
      | some expected => .ok (.equals location expected)
      | none => .error (.refused .unrepresentable)
  | .error (.refused _) =>
      match rangeMembers? schema filter.path with
      | .error .abandoned => .error .abandoned
      | .error (.refused _) => .error (.refused .unresolved)
      | .ok members =>
          match requestedRange? filter.expected with
          | some requested => .ok (.contains members requested)
          | none => .error (.refused .unrepresentable)

/-!
## Buffers that meet a check

The location of a check decides in which buffers it may be met. If that is an
extension and no index selects one of its buffers, the check is made together with
others.
-/

namespace Check

def anchor : Check -> Location
  | equals location _ => location
  | contains members _ => members.least

def storedWord? (buffer : Bytes) (location : Location) : Option Nat :=
  match location.read buffer with
  | [value] => asWord? value
  | _ => none

def storedRange? (buffer : Bytes) (members : RangeMembers) : Option NumberRange := do
  let least ← storedWord? buffer members.least
  let greatest ← storedWord? buffer members.greatest
  let step ← storedWord? buffer members.step
  return { least, greatest, step }

def meets (check : Check) (buffer : Bytes) : Bool :=
  match check with
  | equals location expected => expected.isPrefixOf (location.read buffer)
  | contains members requested =>
      match storedRange? buffer members with
      | some stored => requested.within stored
      | none => false

def holdsAt (check : Check) (record : Record) (slot : Slot) : Bool :=
  match record.buffer? slot with
  | some buffer => check.meets buffer
  | none => false

def sharedTag? (check : Check) : Option Tag :=
  match check.anchor.target with
  | .extension tag _ _ none => some tag
  | _ => none

end Check

/-!
## Live values
-/

def liveMatches (actual : Value) : Expectation -> Bool
  | .typed value =>
      decide (actual = value) ||
        (match actual.toInt?, value.toInt? with
          | some a, some b => decide (a = b)
          | _, _ => false)
  | .text text =>
      match actual with
      | .text contents => contents == text
      | _ =>
          match coerceValue text (.scalar actual.scalar) .value with
          | .ok value => decide (value = actual)
          | .error _ => false

/-!
## Verdicts

A filter is judged on its own or left to be checked together with others.
Throughout, `none` stands for a run that is abandoned.
-/

inductive Judgement where
  | rejected
  | accepted
  | shared (tag : Tag) (check : Check)
deriving DecidableEq

def judge? (descriptor : Descriptor) (filter : Filter) : Option Judgement :=
  let record := descriptor.record
  let decided (accepted : Bool) : Judgement := if accepted then .accepted else .rejected
  match checkOf record.schema filter with
  | .error .abandoned => none
  | .error (.refused .unrepresentable) => some .rejected
  | .error (.refused .unresolved) =>
      some (decided ((descriptor.liveValues filter.path).any fun value =>
        liveMatches value filter.expected))
  | .ok check =>
      match check.sharedTag? with
      | some tag => some (.shared tag check)
      | none =>
          some (decided ((record.candidates check.anchor).any fun slot =>
            check.holdsAt record slot))

abbrev SharedChecks := List (Tag × Check)

/-- The checks that filters leave to be made together: none if the run is abandoned,
and `some none` if a filter rejects the descriptor. Filters behind one that rejects
are not looked at. -/
def scan? (descriptor : Descriptor) : List Filter -> Option (Option SharedChecks)
  | [] => some (some [])
  | filter :: rest =>
      match judge? descriptor filter with
      | none => none
      | some .rejected => some none
      | some .accepted => scan? descriptor rest
      | some (.shared tag check) =>
          (scan? descriptor rest).map fun checks =>
            checks.map fun checks => (tag, check) :: checks

def holdTogether (record : Record) (checks : SharedChecks) : Bool :=
  checks.all fun (tag, _) =>
    (record.instances tag).any fun slot =>
      checks.all fun (other, check) =>
        decide (other ≠ tag) || check.holdsAt record slot

def matches? (descriptor : Descriptor) (filters : List Filter) : Option Bool :=
  (scan? descriptor filters).map fun checks =>
    match checks with
    | none => false
    | some checks => holdTogether descriptor.record checks

end Matching
end VideoConfig
