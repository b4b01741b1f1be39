import VideoConfig.Record

/-!
# Views of a buffer

A view reads the fields of one buffer by their names, without a path. A view of a
nested record is a view of the bytes of that record alone. Of an array of records
the view is that of the first.
-/

namespace VideoConfig

structure View where
  schema : Schema
  type : RecordType
  bytes : Bytes

namespace View

/-- The value of a field: of an array its first element, and of an array of bytes its
text. -/
def get? (view : View) (name : String) : Option Value := do
  let field ← view.type.field? name
  match field.kind with
  | .record _ => none
  | .scalar scalar =>
      if field.isText then
        return Value.ofTextBytes (← view.bytes.slice? field.offset field.bytes)
      else
        Value.decodeScalar? scalar (← view.bytes.slice? field.offset field.size)

def nested? (view : View) (name : String) : Option View := do
  let field ← view.type.field? name
  match field.kind with
  | .scalar _ => none
  | .record inner =>
      let type ← view.schema.record? inner
      let bytes ← view.bytes.slice? field.offset type.size
      return { schema := view.schema, type, bytes }

def descend? (view : View) (names : List String) : Option View :=
  names.foldlM nested? view

end View

namespace Record

def baseView (record : Record) : View :=
  { schema := record.schema, type := record.schema.base, bytes := record.base }

def extensionView? (record : Record) (tag : Tag) : Option View := do
  let type ← record.schema.extensionTagged? tag
  let attachment ← record.attachments.find? fun attachment => attachment.tag = tag
  return { schema := record.schema, type, bytes := attachment.bytes }

end Record
end VideoConfig
