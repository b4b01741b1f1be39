import VideoConfig.Access.Storage
import VideoConfig.Record

/-!
# Property access

A property is set in four steps: its path is resolved, the buffer in which it lives
is found, the text is read as a value of the field, and the value is stored. A step
that fails leaves the record as it was. `apply` attaches a missing buffer and tries
once more. A `Change` has the record after an attempt beside its result.
-/

namespace VideoConfig

structure Change where
  record : Record
  result : Attempt AccessError Unit

namespace Record

/-- The buffer in which a location lies. Without a selector it is the first one of
the extension. -/
def negotiate (record : Record) (path : String) (location : Location) :
    Except AccessError Slot :=
  match location.target with
  | .base => .ok .base
  | .extension tag _ size selector =>
      match record.findInstance? tag (selector.getD 0) with
      | some slot => .ok slot
      | none => .error (.moreBuffersNeeded path tag size)

def stored (record : Record) (path value : String) : Attempt AccessError Record := do
  let location ← resolve record.schema path
  if location.isHeader then
    throw (.refused (.notFound path (.headerField location.field.name) none))
  let slot ← (record.negotiate path location).mapError .refused
  let payload ← (location.payload value).mapError fun cause =>
    .refused (.unsupported path value cause)
  match record.buffer? slot with
  | none => throw (.refused (.notFound path .detached none))
  | some buffer =>
      match location.write? buffer payload with
      | some buffer => return record.setBuffer slot buffer
      | none => throw .abandoned

def set (record : Record) (path value : String) : Change :=
  match record.stored path value with
  | .ok changed => { record := changed, result := .ok () }
  | .error failure => { record, result := .error failure }

/-- Stores a text in a property. Where its extension has too few buffers, a zeroed
one is attached and the text is stored once more. -/
def apply (record : Record) (path value : String) : Change :=
  let first := record.set path value
  match first.result with
  | .error (.refused (.moreBuffersNeeded _ tag _)) =>
      match first.record.attachZeroed tag with
      | .ok extended => extended.set path value
      | .error error => { record := first.record, result := .error (.refused (.attach error)) }
  | _ => first

def get (record : Record) (path : String) : Attempt AccessError (List Value) := do
  let location ← resolve record.schema path
  let slot ← (record.negotiate path location).mapError .refused
  match record.buffer? slot with
  | none => throw (.refused (.notFound path .detached none))
  | some buffer => return location.read buffer

end Record
end VideoConfig
