import VideoConfig.Toml.Number

/-!
# TOML documents

A document is a list of statements: assignments of values to keys, and headers that
open a table or a new element of an array of tables. A table is built once: a header
or a dotted key may only go into tables that another one left open.
-/

namespace VideoConfig
namespace Toml

/-!
## Tables under construction

A table has a header of its own, lies on the way to one with a header, or on the way
to the last part of a dotted key. A value is not changed any more, and in an array
of tables every header adds an element.
-/

inductive Origin where
  | header
  | passed
  | dotted
deriving DecidableEq, Repr

inductive Node where
  | leaf (value : Value)
  | table (origin : Origin) (entries : List (String × Node))
  | tables (elements : List (List (String × Node)))

abbrev Entries := List (String × Node)

mutual

def Node.value : Node -> Value
  | .leaf value => value
  | .table _ entries => .table (entryValues entries)
  | .tables elements => .array (elementValues elements)

def entryValues : List (String × Node) -> Table
  | [] => []
  | (key, node) :: rest => (key, node.value) :: entryValues rest

def elementValues : List (List (String × Node)) -> List Value
  | [] => []
  | entries :: rest => .table (entryValues entries) :: elementValues rest

end

namespace Entries

def get? (entries : Entries) (key : String) : Option Node :=
  (entries.find? fun entry => entry.1 == key).map Prod.snd

def put (entries : Entries) (key : String) (node : Node) : Entries :=
  match entries with
  | [] => [(key, node)]
  | entry :: rest =>
      if entry.1 = key then (key, node) :: rest else entry :: put rest key node

def erase (entries : Entries) (key : String) : Entries :=
  entries.filter fun entry => entry.1 != key

/-- Changes the table at the end of a path, and hands on what the change yields. The
tables that are missing on the way come to be as `made`. A dotted key may not go
through a table with a header. -/
def change {result : Type} (made : Origin)
    (act : Origin -> Entries -> Option (result × Entries)) :
    (origin : Origin) -> (path : List String) -> Entries -> Option (result × Entries)
  | origin, [], entries => act origin entries
  | _, key :: rest, entries =>
      match entries.get? key with
      | none => do
          let (result, inner) ← change made act made rest []
          return (result, entries.put key (.table made inner))
      | some (.leaf _) => none
      | some (.table origin inner) =>
          if made = .dotted ∧ origin = .header then
            none
          else do
            let (result, inner) ← change made act origin rest inner
            return (result, entries.put key (.table origin inner))
      | some (.tables elements) =>
          match elements.getLast? with
          | none => none
          | some last => do
              let (result, inner) ← change made act .header rest last
              return (result, entries.put key (.tables (elements.dropLast ++ [inner])))

/-- Adds the value of a key, of which the parts before the last one name tables. A
dotted key goes only into tables that dotted keys have made. -/
def assign? (entries : Entries) (key : List String) (value : Value) : Option Entries := do
  let last ← key.getLast?
  let path := key.dropLast
  let add (origin : Origin) (inner : Entries) : Option (Unit × Entries) :=
    if decide (origin = .dotted) = path.isEmpty ∨ (inner.get? last).isSome then
      none
    else
      some ((), inner.put last (.leaf value))
  let ((), changed) ← change .dotted add .header path entries
  return changed

/-- Takes the table of a header out of the others, so that it can be filled. It may be
there already, if it lies on the way to another table. -/
def open? (entries : Entries) (key : List String) : Option (Entries × Entries) := do
  let last ← key.getLast?
  let take (_ : Origin) (inner : Entries) : Option (Entries × Entries) :=
    match inner.get? last with
    | none => some ([], inner)
    | some (.table .passed taken) => some (taken, inner.erase last)
    | some _ => none
  change .passed take .header key.dropLast entries

def close? (entries : Entries) (key : List String) (table : Entries) : Option Entries := do
  let last ← key.getLast?
  let put (_ : Origin) (inner : Entries) : Option (Unit × Entries) :=
    some ((), inner.put last (.table .header table))
  let ((), changed) ← change .passed put .header key.dropLast entries
  return changed

def append? (entries : Entries) (key : List String) (table : Entries) : Option Entries := do
  let last ← key.getLast?
  let add (_ : Origin) (inner : Entries) : Option (Unit × Entries) :=
    match inner.get? last with
    | none => some ((), inner.put last (.tables [table]))
    | some (.tables elements) => some ((), inner.put last (.tables (elements ++ [table])))
    | some _ => none
  let ((), changed) ← change .passed add .header key.dropLast entries
  return changed

end Entries

/-!
## Values

A value lies inside of `depth` others. A comma may follow the last item of an array,
but not the last entry of a table on one line.
-/

namespace Reader

mutual

def value (depth : Nat) : (bound : Nat) -> Reader Value
  | 0 => failure
  | bound + 1 => do
      let text ← rest
      match text.head? with
      | none => failure
      | Option.some c =>
          if c = '"' ∨ c = '\'' then
            Value.string <$> string
          else if c = '[' then
            let _ ← next
            if depthLimit ≤ depth + 1 then
              failure
            return .array (← items (depth + 1) bound)
          else if c = '{' then
            let _ ← next
            if depthLimit ≤ depth + 1 then
              failure
            spaces
            if ← tryWord ['}'] then
              return .table []
            return .table (entryValues (← pairs (depth + 1) [] bound))
          else if c = 't' then
            word "true".toList
            return .boolean true
          else if c = 'f' then
            word "false".toList
            return .boolean false
          else
            numberOrDate

def items (depth : Nat) : (bound : Nat) -> Reader (List Value)
  | 0 => failure
  | bound + 1 => do
      blanks
      if ← tryWord [']'] then
        return []
      let item ← value depth bound
      blanks
      if ← tryWord [','] then
        return item :: (← items depth bound)
      expect ']'
      return [item]

def pairs (depth : Nat) (entries : Entries) : (bound : Nat) -> Reader Entries
  | 0 => failure
  | bound + 1 => do
      let key ← dottedKey
      expect '='
      spaces
      let item ← value depth bound
      spaces
      match entries.assign? key item with
      | none => failure
      | Option.some entries =>
          if ← tryWord [','] then
            pairs depth entries bound
          else
            expect '}'
            return entries

end

end Reader

/-!
## Statements

A draft has the tables that are finished, and the one that is being filled with its
header, which is empty for the topmost table; `isElement` tells that this is an
element of an array of tables.
-/

structure Draft where
  root : Entries
  key : List String
  isElement : Bool
  current : Entries

namespace Draft

def empty : Draft :=
  { root := [], key := [], isElement := false, current := [] }

def finish? (draft : Draft) : Option Entries :=
  if draft.key.isEmpty then
    some draft.current
  else if draft.isElement then
    draft.root.append? draft.key draft.current
  else
    draft.root.close? draft.key draft.current

def startTable? (draft : Draft) (key : List String) : Option Draft := do
  let root ← draft.finish?
  let (current, root) ← root.open? key
  return { root, key, isElement := false, current }

def startElement? (draft : Draft) (key : List String) : Option Draft := do
  let root ← draft.finish?
  return { root, key, isElement := true, current := [] }

def assign? (draft : Draft) (key : List String) (value : Value) : Option Draft := do
  return { draft with current := ← draft.current.assign? key value }

end Draft

namespace Reader

def statement (draft : Draft) : Reader Draft := do
  if ← tryWord ['[', '['] then
    let key ← dottedKey
    word [']', ']']
    endOfLine
    draft.startElement? key
  else if ← tryWord ['['] then
    let key ← dottedKey
    expect ']'
    endOfLine
    draft.startTable? key
  else
    let key ← dottedKey
    expect '='
    spaces
    let item ← value 0 ((← rest).length + 1)
    endOfLine
    draft.assign? key item

def statements : (bound : Nat) -> Draft -> Reader Draft
  | 0, _ => failure
  | bound + 1, draft => do
      blanks
      if (← rest).isEmpty then
        return draft
      statements bound (← statement draft)

end Reader

def read? (text : String) : Option Table := do
  let chars := text.toList
  let chars := if chars.head? = some '\uFEFF' then chars.tail else chars
  let (draft, _) ← (Reader.statements (chars.length + 1) Draft.empty).run chars
  let entries ← draft.finish?
  return entryValues entries

end Toml
end VideoConfig
