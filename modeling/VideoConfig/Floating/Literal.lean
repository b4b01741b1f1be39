import VideoConfig.Floating.Shortest

/-!
# Literals of stored numbers

A literal shows the shortest digits of a number and always tells that it is no
integer. Numbers of a middling size have a point with a digit on either side of it;
others are written with an exponent.
-/

namespace VideoConfig
namespace Floating

/-- The positions of the first digit at which a number is written without exponent. A
number from one to below ten has position one. -/
structure PositionRange where
  lowest : Int
  highest : Int
deriving DecidableEq, Repr

def Format.positions : Format -> PositionRange
  | .binary32 => { lowest := -5, highest := 13 }
  | .binary64 => { lowest := -4, highest := 16 }

namespace DecimalNumber

def position (decimal : DecimalNumber) : Int :=
  (Text.decimalDigits decimal.digits).length + decimal.exponent

def signedExponent (exponent : Int) : String :=
  (if exponent < 0 then "-" else "+") ++ Text.decimal exponent.natAbs

def scientific (decimal : DecimalNumber) : String :=
  let significand :=
    match Text.decimalDigits decimal.digits with
    | first :: second :: rest => first :: '.' :: second :: rest
    | digits => digits
  String.ofList significand ++ "e" ++ signedExponent (decimal.position - 1)

def literal (range : PositionRange) (decimal : DecimalNumber) : String :=
  if range.lowest ≤ decimal.position ∧ decimal.position ≤ range.highest then
    if 0 ≤ decimal.exponent then decimal.positional ++ ".0" else decimal.positional
  else
    decimal.scientific

end DecimalNumber

/-- The literal of a stored number: the shortest digits, of two equally near those with
the even last digit. Only numbers have one. -/
def literal? (format : Format) (word : BitVec format.width) : Option String :=
  let (negative, magnitude) := ofPattern format word
  let signed (text : String) := if negative then "-" ++ text else text
  match magnitude with
  | .nan => none
  | .infinite => none
  | .finite significand exponent =>
      if significand = 0 then
        some (signed "0.0")
      else
        some (signed ((shortest format .toEven significand exponent).literal format.positions))

end Floating
end VideoConfig
