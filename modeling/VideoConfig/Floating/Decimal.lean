import VideoConfig.Floating.Format
import VideoConfig.Text.Digits
import VideoConfig.Text.Pieces

/-!
# Decimal literals

A literal is a row of digits with at most one point in it and an optional decimal
exponent. It is read to the nearest magnitude of a format. Its digits count from the
first that is not zero, and `scale` is the power of ten for which the last of them
stands.
-/

namespace VideoConfig
namespace Floating

structure Literal where
  whole : List Char
  fraction : List Char
  exponent : Int
deriving DecidableEq, Repr

namespace Literal

def exponent? (text : List Char) : Option Int :=
  let (negative, digits) := Text.splitSign text
  if digits ≠ [] ∧ digits.all Char.isDigit then
    let n : Int := Text.ofDecimalDigits digits
    some (if negative then -n else n)
  else
    none

def isExponentMark (c : Char) : Bool :=
  c == 'e' || c == 'E'

def read? (text : List Char) : Option Literal :=
  let (mantissa, written) :=
    match Text.cutAt? isExponentMark text with
    | some (mantissa, written) => (mantissa, exponent? written)
    | none => (text, some 0)
  let (whole, fraction) := (Text.cutAt? (· == '.') mantissa).getD (mantissa, [])
  match written with
  | some exponent =>
      if whole ++ fraction ≠ [] ∧ (whole ++ fraction).all Char.isDigit then
        some { whole, fraction, exponent }
      else
        none
  | none => none

def significant (literal : Literal) : List Char :=
  (literal.whole ++ literal.fraction).dropWhile (· == '0')

def scale (literal : Literal) : Int :=
  literal.exponent - literal.fraction.length

/-- A bound on decimal exponents: `10 ^ 399` is above every finite magnitude, and
`10 ^ (-400)` rounds to zero. -/
def exponentLimit : Int := 400

/-- The magnitude nearest to the value of a literal. Values far outside the range
of every format are told from the position of the first digit alone. -/
def nearest (format : Format) (literal : Literal) : Magnitude :=
  let digits := literal.significant
  let scale := literal.scale
  let position := digits.length + scale
  if digits = [] then
    Magnitude.zero format
  else if exponentLimit < position then
    Magnitude.infinite
  else if position < -exponentLimit then
    Magnitude.zero format
  else
    Floating.nearest format
      (Text.ofDecimalDigits digits * 10 ^ scale.toNat) (10 ^ (-scale).toNat)

end Literal

def word? (text : List Char) : Option Magnitude :=
  match String.ofList (text.map Char.toLower) with
  | "inf" => some .infinite
  | "infinity" => some .infinite
  | "nan" => some .nan
  | _ => none

def readDecimal? (format : Format) (text : List Char) : Option (Bool × Magnitude) :=
  let (negative, body) := Text.splitSign text
  match Literal.read? body with
  | some literal => some (negative, literal.nearest format)
  | none => (word? body).map fun magnitude => (negative, magnitude)

end Floating
end VideoConfig
