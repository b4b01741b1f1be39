import VideoConfig.Scalar
import VideoConfig.Tag

/-!
# Layout of record types

A record type is declared as a list of entries and laid out with natural
alignment: every entry starts at the next multiple of its own alignment, and the
size of the type is rounded up to the largest alignment in it. The branches of an
overlay start at one offset. An embedded record has the size and the alignment of
its type, which has to be laid out before.
-/

namespace VideoConfig

/-!
## Declarations

An entry is a field that can be addressed, room that cannot, or an overlay of
branches that share their bytes. A record type is the base of a schema, occurs
inside of others alone, or is an extension: a buffer of its own, which starts with a
header and is known by its tag.
-/

inductive Entry where
  /-- A field that can be addressed. Its shape lists its dimensions, and is empty
  if it is no array. -/
  | field (name : String) (kind : Kind) (shape : List Nat) (category : Category)
  | pad (kind : Kind) (shape : List Nat)
  | overlay (branches : List (List Entry))

inductive Role where
  | base
  | nested
  | extension (tag : Tag)
deriving DecidableEq, Repr

structure Declaration where
  name : String
  role : Role
  entries : List Entry

def elementCount (shape : List Nat) : Nat :=
  shape.foldr (· * ·) 1

/-!
## Record types that are laid out

A field stands `offset` bytes behind the start of its record, and each of its
elements takes `size` bytes. Its `owner` is the record type that declares it.
-/

structure Field where
  name : String
  kind : Kind
  category : Category
  offset : Nat
  size : Nat
  shape : List Nat
  owner : String
deriving DecidableEq, Repr

namespace Field

def isArray (field : Field) : Bool :=
  !field.shape.isEmpty

def count (field : Field) : Nat :=
  elementCount field.shape

def isText (field : Field) : Bool :=
  field.kind = .char && field.isArray

def bytes (field : Field) : Nat :=
  field.size * field.count

end Field

structure RecordType where
  name : String
  role : Role
  /-- The bytes of a record, the header of an extension included. -/
  size : Nat
  align : Nat
  fields : List Field
deriving DecidableEq, Repr

namespace RecordType

def field? (type : RecordType) (name : String) : Option Field :=
  type.fields.find? fun field => field.name == name

def tag? (type : RecordType) : Option Tag :=
  match type.role with
  | .extension tag => some tag
  | _ => none

end RecordType

inductive LayoutError where
  | unknownRecord (record nested : String)
  | duplicateField (record field : String)
  | duplicateRecord (record : String)
  | missingBase
deriving DecidableEq, Repr

namespace LayoutError

def message : LayoutError -> String
  | unknownRecord record nested => s!"record `{record}` references `{nested}` before it is declared"
  | duplicateField record field => s!"record `{record}` declares field `{field}` twice"
  | duplicateRecord record => s!"record `{record}` is declared twice"
  | missingBase => "record table has no base record"

end LayoutError

namespace Layout

/-!
## Placing entries

Entries are placed one behind the other, each at the next offset that suits it. What
embedded records take is known from the record types that are laid out before;
without entries the alignment is one.
-/

/-- The least multiple of an alignment that is not below an offset. -/
def alignUp (offset align : Nat) : Nat :=
  (offset + align - 1) / align * align

structure Measure where
  size : Nat
  align : Nat
deriving DecidableEq, Repr

def measure (known : List RecordType) (owner : String) : Kind -> Except LayoutError Measure
  | .scalar scalar => .ok { size := scalar.size, align := scalar.size }
  | .record name =>
      match known.find? fun type => type.name == name with
      | some type => .ok { size := type.size, align := type.align }
      | none => .error (.unknownRecord owner name)

mutual

def entryAlign (known : List RecordType) (owner : String) :
    Entry -> Except LayoutError Nat
  | .field _ kind _ _ => do return (← measure known owner kind).align
  | .pad kind _ => do return (← measure known owner kind).align
  | .overlay branches => branchesAlign known owner branches

def entriesAlign (known : List RecordType) (owner : String) :
    List Entry -> Except LayoutError Nat
  | [] => .ok 1
  | entry :: rest => do
      let first ← entryAlign known owner entry
      let others ← entriesAlign known owner rest
      return max first others

def branchesAlign (known : List RecordType) (owner : String) :
    List (List Entry) -> Except LayoutError Nat
  | [] => .ok 1
  | branch :: rest => do
      let first ← entriesAlign known owner branch
      let others ← branchesAlign known owner rest
      return max first others

end

structure Placed where
  fields : List Field
  stop : Nat
deriving DecidableEq, Repr

mutual

def placeEntry (known : List RecordType) (owner : String) (start : Nat) :
    Entry -> Except LayoutError Placed
  | .field name kind shape category => do
      let element ← measure known owner kind
      let offset := alignUp start element.align
      return {
        fields := [{ name, kind, category, offset, size := element.size, shape, owner }]
        stop := offset + element.size * elementCount shape }
  | .pad kind shape => do
      let element ← measure known owner kind
      return {
        fields := []
        stop := alignUp start element.align + element.size * elementCount shape }
  | .overlay branches => do
      let align ← branchesAlign known owner branches
      let origin := alignUp start align
      let placed ← placeBranches known owner origin branches
      return {
        fields := placed.fields
        stop := origin + alignUp (placed.stop - origin) align }

def placeEntries (known : List RecordType) (owner : String) (start : Nat) :
    List Entry -> Except LayoutError Placed
  | [] => .ok { fields := [], stop := start }
  | entry :: rest => do
      let first ← placeEntry known owner start entry
      let others ← placeEntries known owner first.stop rest
      return { fields := first.fields ++ others.fields, stop := others.stop }

/-- Places every branch at the same offset. The longest decides where they end. -/
def placeBranches (known : List RecordType) (owner : String) (origin : Nat) :
    List (List Entry) -> Except LayoutError Placed
  | [] => .ok { fields := [], stop := origin }
  | branch :: rest => do
      let first ← placeEntries known owner origin branch
      let others ← placeBranches known owner origin rest
      return { fields := first.fields ++ others.fields, stop := max first.stop others.stop }

end

/-!
## Laying out declarations

Extensions have their header in front of the entries that are declared. Declarations
are laid out in order, each given the record types before it.
-/

def header : List Entry :=
  [.field "BufferId" .u32 [] .value, .field "BufferSz" .u32 [] .value]

def headerSize : Nat := 8

def firstRepeated? : (seen : List String) -> List String -> Option String
  | _, [] => none
  | seen, name :: rest =>
      if seen.contains name then some name else firstRepeated? (name :: seen) rest

def fullEntries (declaration : Declaration) : List Entry :=
  match declaration.role with
  | .extension _ => header ++ declaration.entries
  | _ => declaration.entries

def layOut (known : List RecordType) (declaration : Declaration) :
    Except LayoutError RecordType := do
  let name := declaration.name
  if known.any fun type => type.name == name then
    throw (.duplicateRecord name)
  let entries := fullEntries declaration
  let align ← entriesAlign known name entries
  let placed ← placeEntries known name 0 entries
  match firstRepeated? [] (placed.fields.map Field.name) with
  | some field => throw (.duplicateField name field)
  | none =>
      return {
        name, role := declaration.role
        size := alignUp placed.stop align
        align
        fields := placed.fields }

def layOutAll (known : List RecordType) :
    List Declaration -> Except LayoutError (List RecordType)
  | [] => .ok known
  | declaration :: rest => do
      let type ← layOut known declaration
      layOutAll (known ++ [type]) rest

end Layout
end VideoConfig
