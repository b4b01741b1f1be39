import VideoConfig.Access.Error
import VideoConfig.Schema

/-!
# Locations of properties

A path is resolved against a schema to a location: the buffer in which the field
lives, and the elements that the path addresses in it, as an offset, a stride and a
count. At most one array on the way may be addressed as a whole.
-/

namespace VideoConfig

/-!
## Targets

A location addresses `count` elements in the buffer of its target: the first at
`offset`, and each `stride` bytes behind the one before. An array of bytes that is
addressed as one text counts as one element. The target in an extension has the size
that its buffer has to have, and the index by which the path selects one of several
buffers.
-/

inductive Target where
  | base
  | extension (tag : Tag) (name : String) (size : Nat) (selector : Option Nat)
deriving DecidableEq, Repr

structure Location where
  field : Field
  target : Target
  offset : Nat
  stride : Nat
  count : Nat
  text : Bool
deriving DecidableEq, Repr

namespace Location

def kind (location : Location) : Kind :=
  location.field.kind

def elementSize (location : Location) : Nat :=
  location.field.size

def capacity (location : Location) : Nat :=
  if location.text then location.field.bytes else location.field.size

def isHeader (location : Location) : Bool :=
  match location.target with
  | .base => false
  | .extension _ _ _ _ => location.offset < Layout.headerSize

end Location

namespace Location

/-!
## Selecting elements

A segment selects a field that is no array, one element of an array, or the whole of
it: an array of bytes as one text, and any other element by element. A refusal names
the segment at which an obstacle stands.
-/

structure Refusal where
  obstacle : Obstacle
  span : Option Span
deriving DecidableEq, Repr

def refuse {α : Type} (obstacle : Obstacle) (segment : Segment) : Except Refusal α :=
  .error { obstacle, span := some segment.span }

inductive Selection where
  | single
  | text
  | each
  | element (indexes : List Nat)
deriving DecidableEq, Repr

def select (field : Field) (segment : Segment) : Except Refusal Selection :=
  match field.isArray, segment.index with
  | false, none => .ok .single
  | false, some _ => refuse (.notArray segment.name) segment
  | true, some (.element indexes) => .ok (.element indexes)
  | true, _ => .ok (if field.isText then .text else .each)

/-- The position of an element in an array stored row by row, from the position
`before` that the indexes read so far have reached. -/
def rowMajor (segment : Segment) (before : Nat) :
    (indexes shape : List Nat) -> Except Refusal Nat
  | i :: indexes, length :: shape =>
      if i < length then
        rowMajor segment (before * length + i) indexes shape
      else
        refuse (.outOfBounds i segment.name length) segment
  | _, _ => .ok before

def linearIndex (field : Field) (indexes : List Nat) (segment : Segment) :
    Except Refusal Nat :=
  if indexes.length = field.shape.length then
    rowMajor segment 0 indexes field.shape
  else
    refuse (.dimensionMismatch segment.name field.shape.length indexes.length) segment

/-!
## Walking along a path

A walk carries the offset of the records that it has reached, and the array that it
has addressed as a whole, with the distance and the number of its elements. There is
at most one such array.
-/

structure Projection where
  stride : Nat
  count : Nat
deriving DecidableEq, Repr

structure Place where
  offset : Nat
  projection : Option Projection
deriving DecidableEq, Repr

/-- The place of the elements that a segment selects in a field whose elements take
`element` bytes, given the place of the record. -/
def enter (place : Place) (field : Field) (element : Nat) (segment : Segment)
    (selection : Selection) : Except Refusal Place :=
  let offset := place.offset + field.offset
  match selection with
  | .single => .ok { place with offset }
  | .text => .ok { place with offset }
  | .element indexes => do
      let position ← linearIndex field indexes segment
      return { place with offset := offset + element * position }
  | .each =>
      match place.projection with
      | some _ => refuse .secondProjection segment
      | none =>
          .ok { offset, projection := some { stride := element, count := field.count } }

def leaf (target : Target) (place : Place) (field : Field) (segment : Segment)
    (selection : Selection) : Except Refusal Location :=
  let text := decide (selection = .text)
  match place.projection, text with
  | some _, true => refuse .projectedText segment
  | some projection, false =>
      .ok {
        field, target, text, offset := place.offset
        stride := projection.stride, count := projection.count }
  | none, _ =>
      .ok { field, target, text, offset := place.offset, stride := field.size, count := 1 }

def follow (schema : Schema) (target : Target) :
    RecordType -> Place -> Path -> Except Refusal Location
  | _, _, [] => .error { obstacle := .noFieldNamed, span := none }
  | type, place, segment :: rest =>
      match type.field? segment.name with
      | none => refuse (.unknownField segment.name type.name) segment
      | some field =>
          match field.kind with
          | .record name =>
              match schema.record? name with
              | none => refuse (.unknownRecord name) segment
              | some inner =>
                  if rest = [] then
                    refuse (.recordNotField segment.name) segment
                  else do
                    let selection ← select field segment
                    let place ← enter place field inner.size segment selection
                    follow schema target inner place rest
          | .scalar _ =>
              if rest ≠ [] then
                refuse (.noMembers segment.name) segment
              else do
                let selection ← select field segment
                let place ← enter place field field.size segment selection
                leaf target place field segment selection

/-!
## Starts

A path starts in the base record or behind the name of an extension, where an index
selects one of its buffers. The name of the base record may stand in front, and
short names are expanded first.
-/

def selector (segment : Segment) : Except Refusal (Option Nat) :=
  match segment.index with
  | none => .ok none
  | some (.element [k]) =>
      if k < instanceLimit then .ok (some k) else refuse .instanceTooLarge segment
  | some _ => refuse .selectorShape segment

def extension? (schema : Schema) (name : String) : Option (RecordType × Tag) := do
  let type ← schema.extensionNamed? name
  let tag ← type.tag?
  return (type, tag)

def reindexLast (index : Option Index) : Path -> Path
  | [] => []
  | [segment] => [{ segment with index }]
  | segment :: rest => segment :: reindexLast index rest

/-- The path that a short name stands for, in the place of the short name. The index
on the short name moves to the last segment, indexes in the path itself are dropped,
and every segment stands for the range of the short name. -/
def expandAlias (full : String) (short : Segment) (rest : Path) : Attempt Refusal Path :=
  match Path.read full with
  | .error .abandoned => .error .abandoned
  | .error (.refused error) =>
      .error (.refused {
        obstacle := .malformedAlias short.name error, span := some short.span })
  | .ok path =>
      .ok (reindexLast short.index
        (path.map fun segment => { segment with index := none, span := short.span }) ++ rest)

def dropQualifier (schema : Schema) (path : Path) : Path :=
  match path with
  | first :: rest =>
      if first.name = schema.base.name ∧ first.index = none ∧ rest ≠ [] then rest else path
  | [] => []

structure Start where
  target : Target
  type : RecordType
  path : Path
deriving DecidableEq, Repr

def Start.base (schema : Schema) (path : Path) : Start :=
  { target := .base, type := schema.base, path }

def Start.extension (type : RecordType) (tag : Tag) (first : Segment) (rest : Path) :
    Except Refusal Start := do
  let selector ← selector first
  if rest = [] then
    refuse .endsAtRecord first
  else
    return { target := .extension tag type.name type.size selector, type, path := rest }

/-- The start of a path that is read. A field of the base record goes before a short
name, and a short name before an extension. -/
def start (schema : Schema) (path : Path) : Attempt Refusal Start :=
  match dropQualifier schema path with
  | [] => .error (.refused { obstacle := .noFieldNamed, span := none })
  | first :: rest =>
      if (schema.base.field? first.name).isSome then
        .ok (.base schema (first :: rest))
      else
        match schema.alias? first.name with
        | some full => (expandAlias full first rest).map (.base schema)
        | none =>
            match extension? schema first.name with
            | some (type, tag) => (Start.extension type tag first rest).mapError .refused
            | none => .ok (.base schema (first :: rest))

def ofPath (schema : Schema) (path : Path) : Attempt Refusal Location := do
  let start ← start schema path
  (follow schema start.target start.type { offset := 0, projection := none } start.path).mapError
    .refused

end Location

def resolve (schema : Schema) (path : String) : Attempt AccessError Location :=
  match Path.read path with
  | .error .abandoned => .error .abandoned
  | .error (.refused error) =>
      .error (.refused (.notFound path (.malformed error.defect) (some error.span)))
  | .ok segments =>
      (Location.ofPath schema segments).mapError fun failure =>
        failure.map fun refusal => .notFound path refusal.obstacle refusal.span

end VideoConfig
