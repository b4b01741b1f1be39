import VideoConfig.Failure
import VideoConfig.Path
import VideoConfig.Powers
import VideoConfig.Text.Digits

/-!
# Reading property paths

The text is cut at its points, and every part has to be a name with its indexes.
The first part that is not decides the error, which names a range of bytes inside of
that part. No error can be told for a part that opens with a character outside ASCII,
because the message would show its first byte alone: the run is abandoned there.

A character in a message is shown as it stands if it is printable ASCII. Quotes and the
backslash are shown behind a backslash, and every other character by its code point.
-/

namespace VideoConfig

def Text.escape (code : Nat) : String :=
  if code = 0x09 then "\\t"
  else if code = 0x0A then "\\n"
  else if code = 0x0D then "\\r"
  else if code = 0x22 then "\\\""
  else if code = 0x27 then "\\'"
  else if code = 0x5C then "\\\\"
  else if 0x20 ≤ code ∧ code ≤ 0x7E then String.singleton (Char.ofNat code)
  else "\\u\x7b" ++ hexadecimal 1 code ++ "\x7d"

namespace Path

/-!
## Defects

An error has a defect and the range of bytes in which it stands, counted in the
UTF-8 form of the text.
-/

inductive Defect where
  | emptyPath
  | emptySegment
  /-- A character that may not stand here, given by its code point; of a character
  outside ASCII it is the first byte. -/
  | unexpected (code : Nat)
  | unclosedBracket
  | indexOutOfRange
  | invalidIndex (text : String)
  | mixedIndexes
deriving DecidableEq, Repr

namespace Defect

def message : Defect -> String
  | emptyPath => "empty property path"
  | emptySegment => "empty path segment"
  | unexpected code => "unexpected character `" ++ Text.escape code ++ "`"
  | unclosedBracket => "unclosed `[`"
  | indexOutOfRange => "index out of range"
  | invalidIndex text => s!"invalid index `{text}`"
  | mixedIndexes => "`[]` cannot be combined with other indexes"

end Defect

structure ReadError where
  defect : Defect
  span : Span
deriving DecidableEq, Repr

namespace ReadError

def message (error : ReadError) : String :=
  s!"{error.defect.message} at offset {Text.decimal error.span.offset}"

end ReadError

def isNameStart (c : Char) : Bool :=
  c.isAlpha || c == '_'

def isNameChar (c : Char) : Bool :=
  c.isAlphanum || c == '_'

def indexLimit : Nat := 2 ^ (64 : Nat)

def firstByte (c : Char) : Nat :=
  ((String.utf8EncodeChar c).head?.map UInt8.toNat).getD 0

def refuse {α : Type} (defect : Defect) (offset length : Nat) : Attempt ReadError α :=
  .error (.refused { defect, span := { offset, length } })

/-!
## Brackets

Behind a name the characters are taken one by one, outside of brackets or between
them. The index between a pair is below `indexLimit`, or there is none if nothing
stands in it.
-/

def readIndex (offset : Nat) (inner : List Char) : Attempt ReadError (Option Nat) :=
  if inner = [] then
    .ok none
  else if inner.all Char.isDigit then
    let n := Text.ofDecimalDigits inner
    if n < indexLimit then
      .ok (some n)
    else
      refuse .indexOutOfRange (offset + 1) inner.length
  else
    refuse (.invalidIndex (String.ofList inner)) (offset + 1) (Text.byteLength inner)

inductive BracketState where
  | outside
  /-- Inside of brackets that start at an offset, with the characters read since, the
  last one first. -/
  | inside (start : Nat) (read : List Char)
deriving DecidableEq, Repr

def readBrackets (position : Nat) :
    BracketState -> List Char -> Attempt ReadError (List (Option Nat))
  | .outside, [] => .ok []
  | .inside start _, [] => refuse .unclosedBracket start (position - start)
  | .outside, c :: rest =>
      if c = '[' then
        readBrackets (position + 1) (.inside position []) rest
      else
        refuse (.unexpected (firstByte c)) position 1
  | .inside start read, c :: rest =>
      if c = ']' then do
        let index ← readIndex start read.reverse
        let others ← readBrackets (position + 1) .outside rest
        return index :: others
      else
        readBrackets (position + c.utf8Size) (.inside start (c :: read)) rest

/-- The index that a list of brackets makes, if empty ones stand alone. -/
def combine? : List (Option Nat) -> Option (Option Index)
  | [] => some none
  | [none] => some (some .all)
  | brackets => (brackets.mapM id).map fun indexes => some (.element indexes)

/-!
## Parts

A part starts at an offset in the text, behind the parts before it and their points.
-/

def readSegment (offset : Nat) (text : List Char) : Attempt ReadError Segment :=
  match text with
  | [] => refuse .emptySegment offset 1
  | c :: _ =>
      if !isNameStart c then
        if Text.isAscii c then
          refuse (.unexpected c.toNat) offset 1
        else
          .error .abandoned
      else do
        let name := text.takeWhile isNameChar
        let suffix := text.dropWhile isNameChar
        let position := offset + name.length
        let brackets ← readBrackets position .outside suffix
        match combine? brackets with
        | some index =>
            return {
              name := String.ofList name, index
              span := { offset, length := Text.byteLength text } }
        | none => refuse .mixedIndexes position (Text.byteLength suffix)

def readSegments (offset : Nat) : List (List Char) -> Attempt ReadError Path
  | [] => .ok []
  | part :: rest => do
      let segment ← readSegment offset part
      let others ← readSegments (offset + Text.byteLength part + 1) rest
      return segment :: others

def ofChars (text : List Char) : Attempt ReadError Path :=
  if text = [] then
    refuse .emptyPath 0 1
  else
    readSegments 0 (Text.pieces '.' text)

def read (text : String) : Attempt ReadError Path :=
  ofChars text.toList

end Path
end VideoConfig
