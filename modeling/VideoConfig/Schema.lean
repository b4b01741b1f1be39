import VideoConfig.Layout

/-!
# Schemas

A schema is a base record type together with the record types nested in it, the
extensions that can be attached to it, and short names for some of its fields. It
is built from declarations, which have to agree with each other; `Schema.build`
names the first disagreement otherwise.
-/

namespace VideoConfig

structure Schema where
  base : RecordType
  records : List RecordType
  aliases : List (String × String)
deriving DecidableEq, Repr

structure Leaf where
  /-- The path that addresses the leaf, with `[]` behind every array. -/
  path : String
  kind : Kind
  category : Category
  offset : Nat
  shape : List Nat
deriving DecidableEq, Repr

namespace Schema

def repeatedTag? : (seen : List Tag) -> List RecordType -> Option RecordType
  | _, [] => none
  | seen, type :: rest =>
      match type.tag? with
      | some tag =>
          if seen.contains tag then some type else repeatedTag? (tag :: seen) rest
      | none => repeatedTag? seen rest

def build (declarations : List Declaration) (aliases : List (String × String)) :
    Except LayoutError Schema := do
  let records ← Layout.layOutAll [] declarations
  match records.find? fun type => type.role = .base with
  | none => throw .missingBase
  | some base =>
      match repeatedTag? [] records with
      | some type => throw (.duplicateRecord type.name)
      | none => return { base, records, aliases }

def record? (schema : Schema) (name : String) : Option RecordType :=
  schema.records.find? fun type => type.name == name

def extensions (schema : Schema) : List RecordType :=
  schema.records.filter fun type => type.tag?.isSome

def extensionNamed? (schema : Schema) (name : String) : Option RecordType :=
  schema.extensions.find? fun type => type.name == name

def extensionTagged? (schema : Schema) (tag : Tag) : Option RecordType :=
  schema.extensions.find? fun type => type.tag? == some tag

/-- The path that a short name stands for. Of several entries the last one counts. -/
def alias? (schema : Schema) (name : String) : Option String :=
  (schema.aliases.reverse.find? fun entry => entry.1 == name).map Prod.snd

/-!
## Leaves

Leaves of nested records stand in the place of the record, and records are followed
down to a depth.
-/

def joinPath (outer name : String) : String :=
  if outer.isEmpty then name else outer ++ "." ++ name

def leavesOf (schema : Schema) : (depth : Nat) -> (outer : String) -> (offset : Nat) ->
    RecordType -> List Leaf
  | 0, _, _, _ => []
  | depth + 1, outer, offset, type =>
      type.fields.flatMap fun field =>
        let name := joinPath outer field.name
        let path := if field.isArray then name ++ "[]" else name
        match field.kind with
        | .record nested =>
            match schema.record? nested with
            | some inner => leavesOf schema depth path (offset + field.offset) inner
            | none => []
        | kind =>
            [{ path, kind, category := field.category
               offset := offset + field.offset, shape := field.shape }]

/-- Every leaf that can be addressed: those of the base record first, then those of
each extension behind its name. A record only holds records declared before it, so
their number bounds the depth. -/
def leaves (schema : Schema) : List Leaf :=
  let depth := schema.records.length
  leavesOf schema depth "" 0 schema.base ++
    schema.extensions.flatMap fun type => leavesOf schema depth type.name 0 type

end Schema
end VideoConfig
