import VideoConfig.Location

/-!
# Records

A record holds the bytes of a base record and the buffers attached to it, in the
order in which they were attached. Every buffer has a tag of the schema and the size
of its extension, and starts with its tag and its size.
-/

namespace VideoConfig

/-!
## Attaching and detaching

A new buffer comes behind the others, and the one that is detached is the last of
its tag.
-/

structure Attachment where
  tag : Tag
  bytes : Bytes
deriving DecidableEq, Repr

inductive Slot where
  | base
  | attached (position : Nat)
deriving DecidableEq, Repr

structure Record where
  schema : Schema
  base : Bytes
  attachments : List Attachment
deriving DecidableEq, Repr

namespace Record

def new (schema : Schema) : Record :=
  { schema, base := Bytes.zeros schema.base.size, attachments := [] }

def header (tag : Tag) (size : Nat) : Bytes :=
  tag.bytes ++ Bytes.ofNat 4 size

/-- Attaches a buffer of the size of its extension. The header is written over what
the buffer starts with. -/
def attach (record : Record) (tag : Tag) (bytes : Bytes) : Except AttachError Record :=
  match record.schema.extensionTagged? tag with
  | none => .error (.unknownTag tag)
  | some type =>
      if bytes.length = type.size then
        let bytes := bytes.overwrite 0 (header tag bytes.length)
        .ok { record with attachments := record.attachments ++ [{ tag, bytes }] }
      else
        .error (.sizeMismatch tag type.size bytes.length)

def attachZeroed (record : Record) (tag : Tag) : Except AttachError Record :=
  match record.schema.extensionTagged? tag with
  | none => .error (.unknownTag tag)
  | some type => record.attach tag (Bytes.zeros type.size)

def removeLast? (tag : Tag) : List Attachment -> Option (Attachment × List Attachment)
  | [] => none
  | first :: rest =>
      match removeLast? tag rest with
      | some (removed, others) => some (removed, first :: others)
      | none => if first.tag = tag then some (first, rest) else none

def detach? (record : Record) (tag : Tag) : Option (Attachment × Record) :=
  (removeLast? tag record.attachments).map fun (removed, others) =>
    (removed, { record with attachments := others })

/-!
## Finding a buffer

The buffers of a tag are numbered in the order in which they were attached.
-/

def positionsFrom (tag : Tag) : (start : Nat) -> List Attachment -> List Nat
  | _, [] => []
  | start, first :: rest =>
      if first.tag = tag then
        start :: positionsFrom tag (start + 1) rest
      else
        positionsFrom tag (start + 1) rest

def instances (record : Record) (tag : Tag) : List Slot :=
  (positionsFrom tag 0 record.attachments).map .attached

def instanceCount (record : Record) (tag : Tag) : Nat :=
  (record.attachments.filter fun attachment => attachment.tag = tag).length

def findInstance? (record : Record) (tag : Tag) (index : Nat) : Option Slot :=
  (record.instances tag)[index]?

def buffer? (record : Record) : Slot -> Option Bytes
  | .base => some record.base
  | .attached position => record.attachments[position]?.map Attachment.bytes

def setBuffer (record : Record) (slot : Slot) (bytes : Bytes) : Record :=
  match slot with
  | .base => { record with base := bytes }
  | .attached position =>
      { record with
        attachments := record.attachments.modify position fun attachment =>
          { attachment with bytes } }

/-- The buffers in which a location may lie. A selector leaves at most one. -/
def candidates (record : Record) (location : Location) : List Slot :=
  match location.target with
  | .base => [.base]
  | .extension tag _ _ (some k) => (record.findInstance? tag k).toList
  | .extension tag _ _ none => record.instances tag

end Record
end VideoConfig
