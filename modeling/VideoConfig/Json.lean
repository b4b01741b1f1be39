import VideoConfig.Floating.Literal
import VideoConfig.Value

/-!
# JSON

The values of the data format JSON, and their text over several lines: every item of
an array and every entry of an object stands on a line of its own, two blanks further
in than what holds it.
-/

namespace VideoConfig

inductive Json where
  | null
  | boolean (b : Bool)
  | number (literal : String)
  | string (text : String)
  | array (items : List Json)
  | object (entries : List (String × Json))

namespace Json

def natural (n : Nat) : Json :=
  number (Text.decimal n)

def escape (c : Char) : List Char :=
  if c = '"' then ['\\', '"']
  else if c = '\\' then ['\\', '\\']
  else if c = '\n' then ['\\', 'n']
  else if c = '\r' then ['\\', 'r']
  else if c = '\t' then ['\\', 't']
  else if c.toNat = 0x08 then ['\\', 'b']
  else if c.toNat = 0x0C then ['\\', 'f']
  else if c.toNat < 0x20 then '\\' :: 'u' :: (Text.hexadecimal 4 c.toNat).toList
  else [c]

def quote (text : String) : String :=
  "\"" ++ String.ofList (text.toList.flatMap escape) ++ "\""

def newline (indent : Nat) : String :=
  "\n" ++ String.ofList (List.replicate indent ' ')

def enclose (opening closing : String) (indent : Nat) (lines : List String) : String :=
  if lines.isEmpty then
    opening ++ closing
  else
    opening ++ newline (indent + 2) ++ String.intercalate ("," ++ newline (indent + 2)) lines ++
      newline indent ++ closing

mutual

def render (indent : Nat) : Json -> String
  | null => "null"
  | boolean b => if b then "true" else "false"
  | number literal => literal
  | string text => quote text
  | array items => enclose "[" "]" indent (renderItems (indent + 2) items)
  | object entries => enclose "\x7b" "\x7d" indent (renderEntries (indent + 2) entries)

def renderItems (indent : Nat) : List Json -> List String
  | [] => []
  | item :: rest => render indent item :: renderItems indent rest

def renderEntries (indent : Nat) : List (String × Json) -> List String
  | [] => []
  | (key, value) :: rest =>
      (quote key ++ ": " ++ render indent value) :: renderEntries indent rest

end

def text (value : Json) : String :=
  render 0 value

end Json

namespace Value

def json : Value -> Json
  | int kind word => .number (Text.signedDecimal (kind.toInt word))
  | float format word =>
      match Floating.literal? format word with
      | some literal => .number literal
      | none => .null
  | char byte => .string (char byte).display
  | text contents => .string contents

end Value
end VideoConfig
