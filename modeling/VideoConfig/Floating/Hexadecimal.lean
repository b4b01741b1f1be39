import VideoConfig.Floating.Decimal

/-!
# Hexadecimal literals

A hexadecimal literal is a row of hexadecimal digits with at most one point in it
and an optional binary exponent behind `p`. The first digits that count are kept
exactly as a natural number below `2 ^ 124`; of the others it is only kept whether
one of them was not zero. So a literal is `bits * 2 ^ shift`, and a little more if
digits were left out; exponents beyond `shiftLimit` are cut off, far outside of
every format.
-/

namespace VideoConfig
namespace Floating

structure HexDigits where
  bits : Nat
  /-- The power of two that the last digit kept stands for. -/
  scale : Int
  truncated : Bool
deriving DecidableEq, Repr

namespace HexDigits

def none : HexDigits := { bits := 0, scale := 0, truncated := false }

def push (afterPoint : Bool) (read : HexDigits) (digit : Nat) : HexDigits :=
  if read.bits < 2 ^ (120 : Nat) then
    { read with
      bits := 16 * read.bits + digit
      scale := if afterPoint then read.scale - 4 else read.scale }
  else
    { read with
      scale := if afterPoint then read.scale else read.scale + 4
      truncated := read.truncated || digit != 0 }

def pushAll? (afterPoint : Bool) (read : HexDigits) (digits : List Char) : Option HexDigits :=
  digits.foldlM (fun read c => (Text.hexDigit? c).map (read.push afterPoint)) read

end HexDigits

structure HexLiteral where
  bits : Nat
  shift : Int
  truncated : Bool
deriving DecidableEq, Repr

namespace HexLiteral

def shiftLimit : Int := 4000

def isExponentMark (c : Char) : Bool :=
  c == 'p' || c == 'P'

def digits? (mantissa : List Char) : Option HexDigits :=
  let (whole, fraction) := (Text.cutAt? (· == '.') mantissa).getD (mantissa, [])
  if whole = [] ∧ fraction = [] then
    none
  else do
    let read ← HexDigits.none.pushAll? false whole
    read.pushAll? true fraction

def read? (text : List Char) : Option HexLiteral := do
  let (mantissa, written) :=
    match Text.cutAt? isExponentMark text with
    | some (mantissa, written) => (mantissa, Literal.exponent? written)
    | none => (text, some 0)
  let read ← digits? mantissa
  let exponent ← written
  return {
    bits := read.bits
    shift := max (-shiftLimit) (min shiftLimit (exponent + read.scale))
    truncated := read.truncated }

/-- The literal in `binary64`. The scale is applied in two halves, so that each
factor is in range wherever the result is. -/
def magnitude (literal : HexLiteral) : Magnitude :=
  let half := literal.shift.tdiv 2
  let start := nearest .binary64 literal.bits 1
  multiply .binary64
    (multiply .binary64 start (powerOfTwo .binary64 half))
    (powerOfTwo .binary64 (literal.shift - half))

/-- Whether the exact value is above the largest finite magnitude of `binary64`,
`(2 ^ 53 - 1) * 2 ^ 971`: first by the position of the highest bit, and where that
is the same by the first 53 bits and whether anything follows them. -/
def exceedsLargest (literal : HexLiteral) : Bool :=
  if literal.bits = 0 then
    false
  else
    let top := Nat.log2 literal.bits
    let position := top + literal.shift
    if 1023 < position then
      true
    else if position < 1023 then
      false
    else if 52 ≤ top then
      let unit := 2 ^ (top - 52)
      literal.bits / unit = 2 ^ (53 : Nat) - 1 && (literal.bits % unit != 0 || literal.truncated)
    else
      literal.bits * 2 ^ (52 - top) = 2 ^ (53 : Nat) - 1 && literal.truncated

end HexLiteral

end Floating
end VideoConfig
