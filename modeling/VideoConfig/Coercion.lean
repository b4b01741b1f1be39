import VideoConfig.Floating.Hexadecimal
import VideoConfig.Tag
import VideoConfig.Text.Blank
import VideoConfig.Value

/-!
# Values from text

The text for a field is read as a value of the field's kind. Integers are
decimal and have to lie in the range of their kind. Floating-point numbers are
decimal or hexadecimal and have to be finite in their format; the check is made on
the exact number, before it is rounded. A field for a code of four characters takes
the code itself as well as its number.
-/

namespace VideoConfig

inductive CoercionError where
  | empty
  | invalid (token : String) (kind : Kind)
  | outOfRange (token : String) (kind : Kind)
  | negative (token : String) (kind : Kind)
  | textTooLong (length capacity : Nat)
  | notSingleCharacter (token : String)
deriving DecidableEq, Repr

namespace CoercionError

def message : CoercionError -> String
  | empty => "empty value"
  | invalid token kind => s!"`{token}` is not a valid {kind.name}"
  | outOfRange token kind => s!"`{token}` is out of range for {kind.name}"
  | negative token kind => s!"`{token}` is negative but {kind.name} is unsigned"
  | textTooLong length capacity =>
      s!"text of {Text.decimal length} bytes does not fit a {Text.decimal capacity}-byte buffer"
  | notSingleCharacter token => s!"`{token}` is not a single character"

end CoercionError

/-!
## Codes and integers

An integer is an optional sign and decimal digits, however many.
-/

namespace Coercion

open Floating

/-- The code that a text is taken for. A code may end in blanks, so the text is
tried with the blanks at its end before it is tried without them. -/
def code? (text : List Char) : Option (BitVec 32) :=
  (fourCCOfChars? (Text.trimStart text)).or (fourCCOfChars? (Text.trim text))

def integer (token : List Char) (kind : IntKind) : Except CoercionError Value :=
  let shown := String.ofList token
  let (negative, digits) := Text.splitSign token
  if digits = [] ∨ ¬ digits.all Char.isDigit then
    .error (.invalid shown (.scalar (.int kind)))
  else if negative ∧ ¬ kind.signed then
    .error (.negative shown (.scalar (.int kind)))
  else
    let magnitude : Int := Text.ofDecimalDigits digits
    let n := if negative then -magnitude else magnitude
    if kind.holds n then
      .ok (Value.ofInt kind n)
    else
      .error (.outOfRange shown (.scalar (.int kind)))

/-!
## Floating-point numbers

A number is read in `binary64` first. A decimal literal may carry a second sign of
its own, and `above` tells that the number was above the largest finite one before
it was rounded.
-/

structure Reading where
  negative : Bool
  magnitude : Magnitude
  above : Bool
deriving DecidableEq, Repr

def largestDigits : List Char :=
  Text.decimalDigits ((2 ^ (53 : Nat) - 1) * 2 ^ (971 : Nat))

/-- Whether the number of a decimal text is above the one of a row of digits. The
texts are compared digit by digit as they stand: by the position of the point, and
where that is the same from the first digit that is not zero. A sign in front counts
as a digit. -/
def exceeds (text limit : List Char) : Bool :=
  let (mantissa, exponent?) :=
    match Text.cutAt? Literal.isExponentMark text with
    | some (mantissa, written) => (mantissa, Literal.exponent? written)
    | none => (text, some 0)
  match exponent? with
  | none => false
  | some exponent =>
      let (whole, fraction) := (Text.cutAt? (· == '.') mantissa).getD (mantissa, [])
      let digits := whole ++ fraction
      let significant := digits.dropWhile (· == '0')
      let point : Int :=
        whole.length + exponent - (digits.length - significant.length : Nat)
      let significant := (significant.reverse.dropWhile (· == '0')).reverse
      if significant = [] then
        false
      else
        match compare point (limit.length : Int) with
        | .gt => true
        | .lt => false
        | .eq => limit < significant

def isLiteralCharacter (c : Char) : Bool :=
  c.isDigit || c == '.' || c == 'e' || c == 'E' || c == '+' || c == '-'

def Reading.ofHexLiteral (literal : HexLiteral) : Reading :=
  { negative := false, magnitude := literal.magnitude, above := literal.exceedsLargest }

def Reading.ofDecimal? (body : List Char) : Option Reading :=
  if body.all isLiteralCharacter ∧ body.any Char.isDigit then
    (readDecimal? .binary64 body).map fun (negative, magnitude) =>
      { negative, magnitude
        above := !negative && magnitude = Magnitude.largest .binary64
          && exceeds body largestDigits }
  else
    none

def reading? : List Char -> Option Reading
  | '0' :: 'x' :: digits => (HexLiteral.read? digits).map Reading.ofHexLiteral
  | '0' :: 'X' :: digits => (HexLiteral.read? digits).map Reading.ofHexLiteral
  | body => Reading.ofDecimal? body

/-- Reads a number of a format. It is rounded to `binary64` first, and from there to
the format. -/
def number (token : List Char) (format : Format) : Except CoercionError Value :=
  let shown := String.ofList token
  let (negative, body) := Text.splitSign token
  match reading? body with
  | none => .error (.invalid shown (.scalar (.float format)))
  | some reading =>
      let negative := negative != reading.negative
      match reading.magnitude with
      | .finite significand exponent =>
          if reading.above then
            .error (.outOfRange shown (.scalar (.float format)))
          else
            match format with
            | .binary64 =>
                .ok (.float .binary64 (pattern .binary64 negative (.finite significand exponent)))
            | .binary32 =>
                if Magnitude.above (significand, exponent) (2 ^ (24 : Nat) - 1, 104) then
                  .error (.outOfRange shown (.scalar (.float format)))
                else
                  .ok (.float .binary32
                    (pattern .binary32 negative (nearestScaled .binary32 significand exponent)))
      | _ => .error (.outOfRange shown (.scalar (.float format)))

/-!
## Values and lists

Blanks around a value do not count. In a list there are commas between the values,
and the first that cannot be read refuses the whole list.
-/

def plain (token : List Char) (kind : Kind) : Except CoercionError Value :=
  match token, kind with
  | [], _ => .error .empty
  | _, .scalar (.int kind) => integer token kind
  | _, .scalar (.float format) => number token format
  | [c], .scalar .char =>
      if Text.isAscii c then
        .ok (.char (.ofNat c.toNat))
      else
        .error (.notSingleCharacter (String.ofList token))
  | _, .scalar .char => .error (.notSingleCharacter (String.ofList token))
  | _, .record _ => .error (.invalid (String.ofList token) kind)

def valueOfChars (text : List Char) (kind : Kind) (category : Category) :
    Except CoercionError Value :=
  match category with
  | .value => plain (Text.trim text) kind
  | .fourCC =>
      match code? text with
      | some code => .ok (Value.u32 code)
      | none => plain (Text.trim text) kind

end Coercion

def coerceValue (text : String) (kind : Kind) (category : Category) :
    Except CoercionError Value :=
  Coercion.valueOfChars text.toList kind category

def coerceList (text : String) (kind : Kind) (category : Category) :
    Except CoercionError (List Value) :=
  (Text.pieces ',' text.toList).mapM fun piece => Coercion.valueOfChars piece kind category

/-- The bytes of a text for an array of `capacity` bytes, filled up with zeros. At
least one zero has to fit behind the text. -/
def coerceText (text : String) (capacity : Nat) : Except CoercionError Bytes :=
  let bytes := Text.encodeUtf8 text
  if capacity ≤ bytes.length then
    .error (.textTooLong bytes.length capacity)
  else
    .ok (bytes ++ Bytes.zeros (capacity - bytes.length))

end VideoConfig
