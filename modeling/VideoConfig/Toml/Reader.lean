import VideoConfig.Text.Digits

/-!
# Reading pieces of TOML

A reader takes a piece from the front of a text and leaves the rest. Here are the
readers of spaces, comments, line ends, strings and keys. Loops are bounded by the
length of the text that is left.
-/

namespace VideoConfig
namespace Toml

abbrev Reader := StateT (List Char) Option

namespace Reader

def rest : Reader (List Char) :=
  get

def next : Reader Char := do
  match ← rest with
  | [] => failure
  | c :: left => set left; return c

def expect (c : Char) : Reader Unit := do
  if (← next) ≠ c then
    failure

def many (inClass : Char -> Bool) : Reader (List Char) := do
  let text ← rest
  set (text.dropWhile inClass)
  return text.takeWhile inClass

def some (inClass : Char -> Bool) : Reader (List Char) := do
  let taken ← many inClass
  if taken.isEmpty then
    failure
  return taken

def exactly (count : Nat) (inClass : Char -> Bool) : Reader (List Char) := do
  let text ← rest
  let taken := text.take count
  if taken.length = count ∧ taken.all inClass then
    set (text.drop count)
    return taken
  else
    failure

def tryWord (word : List Char) : Reader Bool := do
  let text ← rest
  if word.isPrefixOf text then
    set (text.drop word.length)
    return true
  else
    return false

def word (word : List Char) : Reader Unit := do
  if !(← tryWord word) then
    failure

def isSpace (c : Char) : Bool :=
  c == ' ' || c == '\t'

def isVisible (c : Char) : Bool :=
  c == '\t' || (' ' ≤ c && c != '\x7f')

def spaces : Reader Unit := do
  let _ ← many isSpace

def tryNewline : Reader Bool := do
  if ← tryWord ['\n'] then
    return true
  else
    tryWord ['\r', '\n']

def comment : Reader Unit := do
  if ← tryWord ['#'] then
    let _ ← many isVisible

def endOfLine : Reader Unit := do
  spaces
  comment
  if !(← tryNewline) then
    if !(← rest).isEmpty then
      failure

def behindBlanks? : (inComment : Bool) -> List Char -> Option (List Char)
  | _, [] => Option.some []
  | _, '\r' :: '\n' :: left => behindBlanks? false left
  | inComment, c :: left =>
      if c = '\n' then
        behindBlanks? false left
      else if inComment then
        if isVisible c then behindBlanks? true left else none
      else if isSpace c then
        behindBlanks? false left
      else if c = '#' then
        behindBlanks? true left
      else
        Option.some (c :: left)

def blanks : Reader Unit := do
  match behindBlanks? false (← rest) with
  | Option.some left => set left
  | none => failure

/-!
## Strings

A line end that follows the opening quotes of a string of several lines at once does
not belong to it.
-/

def ofCode (code : Nat) : Reader Char :=
  if h : code.isValidChar then
    return Char.ofNatAux code h
  else
    failure

def codePoint (digits : Nat) : Reader Char := do
  let taken ← exactly digits fun c => (Text.hexDigit? c).isSome
  ofCode ((Text.ofHexDigits? taken).getD 0)

def escaped : Reader Char := do
  match ← next with
  | 'b' => return '\x08'
  | 't' => return '\t'
  | 'n' => return '\n'
  | 'f' => return '\x0c'
  | 'r' => return '\r'
  | '"' => return '"'
  | '\\' => return '\\'
  | 'u' => codePoint 4
  | 'U' => codePoint 8
  | _ => failure

def basicRest : (bound : Nat) -> Reader (List Char)
  | 0 => failure
  | bound + 1 => do
      match ← next with
      | '"' => return []
      | '\\' =>
          let c ← escaped
          return c :: (← basicRest bound)
      | c =>
          if isVisible c then
            return c :: (← basicRest bound)
          else
            failure

def literalRest : Reader (List Char) := do
  let taken ← many fun c => isVisible c && c != '\''
  expect '\''
  return taken

/-- Takes the quotes in front of a string of several lines: those that belong to the
string, and whether it ends. At most two quotes may stand before the closing three. -/
def quotes (mark : Char) : Reader (List Char × Bool) := do
  let text ← rest
  let count := (text.takeWhile (· == mark)).length
  if count < 3 then
    set (text.drop count)
    return (List.replicate count mark, false)
  else
    let inside := min (count - 3) 2
    set (text.drop (inside + 3))
    return (List.replicate inside mark, true)

def behindLines : List Char -> List Char
  | '\r' :: '\n' :: left => behindLines left
  | c :: left => if isSpace c || c == '\n' then behindLines left else c :: left
  | [] => []

def tryContinuation : Reader Bool := do
  let text ← rest
  spaces
  if ← tryNewline then
    modify behindLines
    return true
  else
    set text
    return false

/-- Takes the rest of a string of several lines. A backslash is only special in one
in double quotes: at the end of a line it joins the line with the next one. -/
def multilineRest (mark : Char) (escapes : Bool) : (bound : Nat) -> Reader (List Char)
  | 0 => failure
  | bound + 1 => do
      let (inside, closed) ← quotes mark
      if closed then
        return inside
      else if ← tryNewline then
        return inside ++ '\n' :: (← multilineRest mark escapes bound)
      else
        let c ← next
        if c = '\\' ∧ escapes then
          if ← tryContinuation then
            return inside ++ (← multilineRest mark escapes bound)
          else
            let c ← escaped
            return inside ++ c :: (← multilineRest mark escapes bound)
        else if isVisible c then
          return inside ++ c :: (← multilineRest mark escapes bound)
        else
          failure

def multiline (mark : Char) (escapes : Bool) : Reader String := do
  let _ ← tryNewline
  return String.ofList (← multilineRest mark escapes ((← rest).length + 1))

def lineString : Reader String := do
  match ← next with
  | '"' => return String.ofList (← basicRest ((← rest).length + 1))
  | '\'' => return String.ofList (← literalRest)
  | _ => failure

def string : Reader String := do
  if ← tryWord ['"', '"', '"'] then
    multiline '"' true
  else if ← tryWord ['\'', '\'', '\''] then
    multiline '\'' false
  else
    lineString

/-!
## Keys

Tables are nested less deep than `depthLimit`.
-/

def depthLimit : Nat := 80

def isKeyChar (c : Char) : Bool :=
  c.isAlphanum || c == '_' || c == '-'

def simpleKey : Reader String := do
  spaces
  let text ← rest
  let key ←
    if text.head? = Option.some '"' ∨ text.head? = Option.some '\'' then
      lineString
    else
      String.ofList <$> some isKeyChar
  spaces
  return key

def moreKeys : (bound : Nat) -> Reader (List String)
  | 0 => failure
  | bound + 1 => do
      if ← tryWord ['.'] then
        let key ← simpleKey
        return key :: (← moreKeys bound)
      else
        return []

def dottedKey : Reader (List String) := do
  let first ← simpleKey
  let others ← moreKeys depthLimit
  if depthLimit ≤ others.length + 1 then
    failure
  return first :: others

end Reader
end Toml
end VideoConfig
