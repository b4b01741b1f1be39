import VideoConfig.Floating.Format
import VideoConfig.Text.Digits

/-!
# Shortest digits

The decimal digits by which a stored magnitude is shown: the fewest that lie
closer to it than to its neighbours, and of those the nearest. The grids of
decimal numbers with one, two, three ... digits are tried in turn, and on each
only the two points around the magnitude can qualify.
-/

namespace VideoConfig
namespace Floating

inductive TieRule where
  | away
  | toEven
deriving DecidableEq, Repr

/-!
## Rounding intervals

A decimal number is `digits * 10 ^ exponent`. It is compared with `count * 2 ^ unit`
in whole numbers, and `closed` tells whether the two ends belong to the interval.
-/

structure DecimalNumber where
  digits : Nat
  exponent : Int
deriving DecidableEq, Repr

/-- The magnitudes that are read back as a given one. All four numbers are in
units of `2 ^ unit`. -/
structure RoundingInterval where
  low : Nat
  value : Nat
  high : Nat
  unit : Int
  closed : Bool
deriving DecidableEq, Repr

/-- The interval around `significand * 2 ^ exponent`. The neighbour below a power
of two is only half as far away. -/
def roundingInterval (format : Format) (significand : Nat) (exponent : Int) :
    RoundingInterval :=
  let narrow := significand = 2 ^ (format.precision - 1) ∧ format.minExponent < exponent
  { low := if narrow then 4 * significand - 1 else 4 * significand - 2
    value := 4 * significand
    high := 4 * significand + 2
    unit := exponent - 2
    closed := significand % 2 = 0 }

def compareDecimal (decimal : DecimalNumber) (count : Nat) (unit : Int) : Ordering :=
  compare
    (decimal.digits * 10 ^ decimal.exponent.toNat * 2 ^ (-unit).toNat)
    (count * 2 ^ unit.toNat * 10 ^ (-decimal.exponent).toNat)

namespace RoundingInterval

def contains (interval : RoundingInterval) (decimal : DecimalNumber) : Bool :=
  let below := compareDecimal decimal interval.low interval.unit
  let above := compareDecimal decimal interval.high interval.unit
  if interval.closed then
    below.isGE && above.isLE
  else
    below.isGT && above.isLT

/-!
## Grids

A grid has the multiples of `10 ^ exponent`. Of the two points around the middle of
the interval the one that lies in the interval is picked, and if both do the nearer
one.
-/

def floor (interval : RoundingInterval) (exponent : Int) : DecimalNumber :=
  let num := interval.value * 2 ^ interval.unit.toNat * 10 ^ (-exponent).toNat
  let den := 2 ^ (-interval.unit).toNat * 10 ^ exponent.toNat
  { digits := num / den, exponent }

/-- Whether the middle of the interval is nearer to the next point of the grid
than to this one: less, equal, or greater for below, at, and above the half. -/
def half (interval : RoundingInterval) (point : DecimalNumber) : Ordering :=
  (compareDecimal { point with digits := 2 * point.digits + 1 }
    (2 * interval.value) interval.unit).swap

def pick? (tie : TieRule) (interval : RoundingInterval) (exponent : Int) :
    Option DecimalNumber :=
  let down := interval.floor exponent
  let up := { down with digits := down.digits + 1 }
  match interval.contains down, interval.contains up with
  | true, false => some down
  | false, true => some up
  | false, false => none
  | true, true =>
      match interval.half down, tie with
      | .lt, _ => some down
      | .gt, _ => some up
      | .eq, .away => some up
      | .eq, .toEven => some (if down.digits % 2 = 0 then down else up)

/-- The count of digits before the point of `num / den`; negative for the zeros
that follow the point of a smaller quotient. -/
def leadingPosition (num den : Nat) : Int :=
  if den ≤ num then
    (Text.decimalDigits (num / den)).length
  else
    let zeros := (Text.decimalDigits (den / num)).length
    if den ≤ num * 10 ^ (zeros - 1) then 2 - zeros else 1 - zeros

def position (interval : RoundingInterval) : Int :=
  leadingPosition (interval.value * 2 ^ interval.unit.toNat) (2 ^ (-interval.unit).toNat)

/-- The first grid with a hit, from `count` digits on. -/
def search (tie : TieRule) (interval : RoundingInterval) (position : Int) :
    (remaining : Nat) -> (count : Nat) -> DecimalNumber
  | 0, count => interval.floor (position - count)
  | remaining + 1, count =>
      match interval.pick? tie (position - count) with
      | some decimal => decimal
      | none => search tie interval position remaining (count + 1)

end RoundingInterval

def Format.maxDigits : Format -> Nat
  | .binary32 => 9
  | .binary64 => 17

def DecimalNumber.strip (decimal : DecimalNumber) : (limit : Nat) -> DecimalNumber
  | 0 => decimal
  | limit + 1 =>
      if decimal.digits % 10 = 0 then
        strip { digits := decimal.digits / 10, exponent := decimal.exponent + 1 } limit
      else
        decimal

def shortest (format : Format) (tie : TieRule) (significand : Nat) (exponent : Int) :
    DecimalNumber :=
  let interval := roundingInterval format significand exponent
  (interval.search tie interval.position format.maxDigits 1).strip format.maxDigits

def DecimalNumber.positional (decimal : DecimalNumber) : String :=
  let digits := Text.decimalDigits decimal.digits
  if 0 ≤ decimal.exponent then
    String.ofList (digits ++ List.replicate decimal.exponent.toNat '0')
  else
    let places := (-decimal.exponent).toNat
    if places < digits.length then
      let point := digits.length - places
      String.ofList (digits.take point ++ '.' :: digits.drop point)
    else
      "0." ++ String.ofList (List.replicate (places - digits.length) '0' ++ digits)

/-- The text of a stored number: the shortest digits, of two equally near the
larger, and never an exponent. -/
def display (format : Format) (word : BitVec format.width) : String :=
  let (negative, magnitude) := ofPattern format word
  let signed (text : String) := if negative then "-" ++ text else text
  match magnitude with
  | .nan => "NaN"
  | .infinite => signed "inf"
  | .finite significand exponent =>
      if significand = 0 then
        signed "0"
      else
        signed (shortest format .away significand exponent).positional

end Floating
end VideoConfig
