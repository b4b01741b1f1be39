import VideoConfig.Powers

/-!
# Binary floating-point formats

The two interchange formats `binary32` and `binary64`. A number of a format is a
sign and a magnitude, and a finite magnitude is `significand * 2 ^ exponent`. All
arithmetic is on exact natural numbers: `nearest` rounds a quotient once, a half
going to the even neighbour, and everything else is built on it. A significand has
`precision` bits, the leading one included, and the last of the `exponentCount`
stored exponents is that of infinity and of what is no number.
-/

namespace VideoConfig
namespace Floating

inductive Format where
  | binary32
  | binary64
deriving DecidableEq, Repr

namespace Format

def width : Format -> Nat
  | binary32 => 32
  | binary64 => 64

def size : Format -> Nat
  | binary32 => 4
  | binary64 => 8

def precision : Format -> Nat
  | binary32 => 24
  | binary64 => 53

def minExponent : Format -> Int
  | binary32 => -149
  | binary64 => -1074

def maxExponent : Format -> Int
  | binary32 => 104
  | binary64 => 971

def exponentCount (format : Format) : Nat :=
  2 ^ (format.width - format.precision)

end Format

inductive Magnitude where
  | finite (significand : Nat) (exponent : Int)
  | infinite
  | nan
deriving DecidableEq, Repr

namespace Magnitude

def zero (format : Format) : Magnitude :=
  finite 0 format.minExponent

def largest (format : Format) : Magnitude :=
  finite (2 ^ format.precision - 1) format.maxExponent

def isFinite : Magnitude -> Bool
  | finite _ _ => true
  | _ => false

def above (first second : Nat × Int) : Bool :=
  let low := min first.2 second.2
  second.1 * 2 ^ (second.2 - low).toNat < first.1 * 2 ^ (first.2 - low).toNat

end Magnitude

def roundQuotient (num den : Nat) : Nat :=
  let quotient := num / den
  let rest := 2 * (num % den)
  if rest < den then quotient
  else if den < rest then quotient + 1
  else if quotient % 2 = 0 then quotient
  else quotient + 1

def scaleQuotient (num den : Nat) (exponent : Int) : Nat × Nat :=
  (num * 2 ^ exponent.toNat, den * 2 ^ (-exponent).toNat)

/-- The least exponent of a format at which a quotient has a significand of the
format, the exponents above the format's own included. -/
def exponentOf (format : Format) (num den : Nat) : Int :=
  let guess := max ((Nat.log2 num : Int) - Nat.log2 den - format.precision) format.minExponent
  let scaled := scaleQuotient num den (-guess)
  if scaled.1 / scaled.2 < 2 ^ format.precision then guess else guess + 1

/-- The magnitude of a format that is nearest to a quotient. What would round
above the largest finite magnitude is infinite. -/
def nearest (format : Format) (num den : Nat) : Magnitude :=
  if num = 0 then
    Magnitude.zero format
  else
    let exponent := exponentOf format num den
    let scaled := scaleQuotient num den (-exponent)
    let significand := roundQuotient scaled.1 scaled.2
    let carried := significand = 2 ^ format.precision
    let significand := if carried then 2 ^ (format.precision - 1) else significand
    let exponent := if carried then exponent + 1 else exponent
    if format.maxExponent < exponent then
      Magnitude.infinite
    else
      Magnitude.finite significand exponent

def nearestScaled (format : Format) (significand : Nat) (exponent : Int) : Magnitude :=
  let scaled := scaleQuotient significand 1 exponent
  nearest format scaled.1 scaled.2

def multiply (format : Format) : Magnitude -> Magnitude -> Magnitude
  | .finite m d, .finite n e => nearestScaled format (m * n) (d + e)
  | .nan, _ => .nan
  | _, .nan => .nan
  | .finite m _, .infinite => if m = 0 then .nan else .infinite
  | .infinite, .finite n _ => if n = 0 then .nan else .infinite
  | .infinite, .infinite => .infinite

/-- The power of two with this exponent. Where its inverse overflows it is zero. -/
def powerOfTwo (format : Format) (exponent : Int) : Magnitude :=
  if format.maxExponent + format.precision ≤ -exponent then
    Magnitude.zero format
  else
    nearestScaled format 1 exponent

def pattern (format : Format) (negative : Bool) (magnitude : Magnitude) : BitVec format.width :=
  let unit := 2 ^ (format.precision - 1)
  let code :=
    match magnitude with
    | .finite significand exponent => (exponent - format.minExponent).toNat * unit + significand
    | .infinite => (format.exponentCount - 1) * unit
    | .nan => (format.exponentCount - 1) * unit + unit / 2
  BitVec.ofNat format.width (if negative then 2 ^ (format.width - 1) + code else code)

def ofPattern (format : Format) (word : BitVec format.width) : Bool × Magnitude :=
  let unit := 2 ^ (format.precision - 1)
  let code := word.toNat % 2 ^ (format.width - 1)
  let fraction := code % unit
  let stored := code / unit
  let magnitude :=
    if stored = format.exponentCount - 1 then
      if fraction = 0 then Magnitude.infinite else Magnitude.nan
    else if stored = 0 then
      Magnitude.finite fraction format.minExponent
    else
      Magnitude.finite (unit + fraction) (format.minExponent + stored - 1)
  (2 ^ (format.width - 1) ≤ word.toNat, magnitude)

end Floating
end VideoConfig
