import VideoConfig.Floating.Shortest

/-!
# TOML values

The values of the configuration language TOML, and the text that a value gives for a
property: numbers in decimal, truth values as `1` and `0`, and arrays as lists with
commas. Dates and tables give no text. Entries of a table stand in the order in
which they were written. Where a table is expected a date shows itself as one, with
its text under `Value.datetimeKey`.
-/

namespace VideoConfig
namespace Toml

inductive Value where
  | string (text : String)
  | integer (n : Int)
  | float (word : BitVec 64)
  | boolean (b : Bool)
  | datetime (text : String)
  | array (items : List Value)
  | table (entries : List (String × Value))

abbrev Table := List (String × Value)

namespace Value

def typeName : Value -> String
  | string _ => "string"
  | integer _ => "integer"
  | float _ => "float"
  | boolean _ => "boolean"
  | datetime _ => "datetime"
  | array _ => "array"
  | table _ => "table"

mutual

def text? : Value -> Option String
  | string text => some text
  | integer n => some (Text.signedDecimal n)
  | float word => some (Floating.display .binary64 word)
  | boolean b => some (if b then "1" else "0")
  | datetime _ => none
  | array items => (texts? items).map (String.intercalate ",")
  | table _ => none

def texts? : List Value -> Option (List String)
  | [] => some []
  | item :: rest => do
      let first ← text? item
      let others ← texts? rest
      return first :: others

end

def asString? : Value -> Option String
  | string text => some text
  | _ => none

def asArray? : Value -> Option (List Value)
  | array items => some items
  | _ => none

def asBoolean? : Value -> Option Bool
  | boolean b => some b
  | _ => none

def datetimeKey : String :=
  "$__toml_private_datetime"

def asTable? : Value -> Option Table
  | table entries => some entries
  | datetime text => some [(datetimeKey, string text)]
  | _ => none

/-- The entries of a table with known keys. It may also be written as an array of the
values for the keys in order. -/
def asFields? (keys : List String) : Value -> Option Table
  | array items => some (keys.zip items)
  | value => value.asTable?

end Value

namespace Table

def get? (table : Table) (key : String) : Option Value :=
  (table.find? fun entry => entry.1 == key).map Prod.snd

/-- The table with a value for a key. A key that is there keeps its place. -/
def insert (table : Table) (key : String) (value : Value) : Table :=
  match table with
  | [] => [(key, value)]
  | entry :: rest =>
      if entry.1 = key then (key, value) :: rest else entry :: insert rest key value

end Table
end Toml
end VideoConfig
