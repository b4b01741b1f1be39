import VideoConfig.Toml.Date
import VideoConfig.Toml.Value

/-!
# Dates that are written as tables

A date can also be written as a table in which `Value.datetimeKey` is the first key
and has the text of the date. The other keys of such a table say nothing. Where any
value may stand, a table of this form is a date, and it is an error if its text is
none. A free table is one in which any keys and any values may stand.
-/

namespace VideoConfig
namespace Toml

mutual

def Value.withDates? : Value -> Option Value
  | .array items => (valuesWithDates? items).map .array
  | .table [] => some (.table [])
  | .table ((key, value) :: rest) =>
      if key = Value.datetimeKey then do
        return .datetime (← dateForm? (← value.asString?))
      else do
        let first ← value.withDates?
        let others ← entriesWithDates? rest
        return .table ((key, first) :: others)
  | value => some value

def valuesWithDates? : List Value -> Option (List Value)
  | [] => some []
  | value :: rest => do
      let first ← value.withDates?
      let others ← valuesWithDates? rest
      return first :: others

def entriesWithDates? : List (String × Value) -> Option (List (String × Value))
  | [] => some []
  | (key, value) :: rest => do
      let first ← value.withDates?
      let others ← entriesWithDates? rest
      return (key, first) :: others

end

def Value.asFreeTable? (value : Value) : Option Table := do
  entriesWithDates? (← value.asTable?)

end Toml
end VideoConfig
