import VideoConfig.Floating.Decimal
import VideoConfig.Toml.Date
import VideoConfig.Toml.Value

/-!
# Numbers of TOML

What starts with a digit or a sign is a date, a time, a floating-point number or an
integer. The longest of them counts. Between two digits there may stand a `_`,
which is dropped. Integers have to fit 64 bits with sign.
-/

namespace VideoConfig
namespace Toml
namespace Reader

def moreDigits (isDigit : Char -> Bool) : (bound : Nat) -> Reader (List Char)
  | 0 => failure
  | bound + 1 => do
      match ← rest with
      | '_' :: c :: left =>
          if isDigit c then
            set left
            return c :: (← moreDigits isDigit bound)
          else
            failure
      | c :: left =>
          if isDigit c then
            set left
            return c :: (← moreDigits isDigit bound)
          else
            return []
      | [] => return []

def digitRow (isDigit : Char -> Bool) : Reader (List Char) := do
  let first ← next
  if !isDigit first then
    failure
  return first :: (← moreDigits isDigit ((← rest).length + 1))

/-- Takes a row of decimal digits that starts with a zero only if it is zero. -/
def plainDigits : Reader (List Char) := do
  match ← rest with
  | '0' :: left => set left; return ['0']
  | _ => digitRow Char.isDigit

def inRange (n : Int) : Bool :=
  -(2 ^ (63 : Nat) : Nat) ≤ n && n < (2 ^ (63 : Nat) : Nat)

def based (base : Nat) : Reader Value := do
  let digits ← digitRow fun c => ((Text.hexDigit? c).getD base) < base
  let n : Int := digits.foldl (fun n c => base * n + (Text.hexDigit? c).getD 0) (0 : Nat)
  if inRange n then
    return .integer n
  else
    failure

def sign : Reader (List Char) := do
  match ← rest with
  | '+' :: left => set left; return ['+']
  | '-' :: left => set left; return ['-']
  | _ => return []

def fraction : Reader (List Char) := do
  if ← tryWord ['.'] then
    return '.' :: (← digitRow Char.isDigit)
  else
    return []

def exponent : Reader (List Char) := do
  match ← rest with
  | c :: left =>
      if c = 'e' ∨ c = 'E' then
        set left
        let written ← sign
        return 'e' :: (written ++ (← digitRow Char.isDigit))
      else
        return []
  | [] => return []

def special (negative : Bool) (magnitude : Floating.Magnitude) : Value :=
  .float (Floating.pattern .binary64 negative magnitude)

/-- Takes a decimal number. A number with a fraction or an exponent is a floating-point
number, and may only be too large if it is negative. -/
def decimalNumber : Reader Value := do
  let written ← sign
  let negative := written = ['-']
  if ← tryWord "inf".toList then
    return special negative .infinite
  if ← tryWord "nan".toList then
    return special negative .nan
  let digits ← plainDigits
  let fraction ← fraction
  let exponent ← exponent
  if fraction.isEmpty && exponent.isEmpty then
    let magnitude : Int := numberOf digits
    let n := if negative then -magnitude else magnitude
    if inRange n then
      return .integer n
    else
      failure
  else
    match Floating.Literal.read? (digits ++ fraction ++ exponent) with
    | none => failure
    | Option.some literal =>
        let magnitude := literal.nearest .binary64
        if magnitude = .infinite ∧ ¬ negative then
          failure
        else
          return special negative magnitude

def numberOrDate : Reader Value := do
  let text ← rest
  if startsDate text then
    return .datetime (← dateAndTime)
  else if startsTime text then
    return .datetime (← time)
  else if ← tryWord ['0', 'x'] then
    based 16
  else if ← tryWord ['0', 'o'] then
    based 8
  else if ← tryWord ['0', 'b'] then
    based 2
  else
    decimalNumber

end Reader
end Toml
end VideoConfig
