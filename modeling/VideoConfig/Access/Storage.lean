import VideoConfig.Location

/-!
# Reading and writing located elements

The elements of a location are read from and written to a buffer in place. Elements
that do not lie inside of the buffer are passed over. A payload is what a text gives
for a location: values for its elements, from the first one on, or all bytes of one
text.
-/

namespace VideoConfig

inductive Payload where
  | elements (values : List Value)
  | text (bytes : Bytes)
deriving DecidableEq

namespace Location

def elementOffset (location : Location) (i : Nat) : Nat :=
  location.offset + i * location.stride

/-- The buffer with a value in one element. There is none, and the run is abandoned,
if the value takes another number of bytes than the element. -/
def writeElement? (location : Location) (buffer : Bytes) (i : Nat) (value : Value) :
    Option Bytes :=
  let offset := location.elementOffset i
  match value.encode? with
  | none => some buffer
  | some bytes =>
      if offset + location.elementSize ≤ buffer.length then
        if bytes.length = location.elementSize then
          some (buffer.overwrite offset bytes)
        else
          none
      else
        some buffer

def writeElements? (location : Location) (buffer : Bytes) (i : Nat) :
    List Value -> Option Bytes
  | [] => some buffer
  | value :: rest => do
      let buffer ← location.writeElement? buffer i value
      location.writeElements? buffer (i + 1) rest

/-- The buffer with a payload at a location. Of values there are written as many as
there are elements, and further elements keep what they hold. -/
def write? (location : Location) (buffer : Bytes) : Payload -> Option Bytes
  | .text bytes => some (buffer.overwrite location.offset bytes)
  | .elements values => location.writeElements? buffer 0 (values.take location.count)

def readElement? (location : Location) (buffer : Bytes) (i : Nat) : Option Value := do
  Value.decode? location.kind
    (← buffer.slice? (location.elementOffset i) location.elementSize)

def read (location : Location) (buffer : Bytes) : List Value :=
  if location.text then
    ((buffer.slice? location.offset location.capacity).map Value.ofTextBytes).toList
  else
    (List.range location.count).filterMap (location.readElement? buffer)

def payload (location : Location) (text : String) : Except CoercionError Payload :=
  let field := location.field
  if location.text then
    (coerceText text location.capacity).map .text
  else if location.count = 1 then
    (coerceValue text field.kind field.category).map fun value => .elements [value]
  else
    (coerceList text field.kind field.category).map .elements

end Location
end VideoConfig
