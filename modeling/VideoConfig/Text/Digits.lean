/-!
# Numbers written with digits

Decimal numbers are written and read with the digits `0` to `9` alone, without sign
and without grouping. Leading zeros are read and never written. Negative integers
have a minus sign in front, and numbers in base sixteen are filled up with zeros on
the left.
-/

namespace VideoConfig
namespace Text

def decimalDigits (n : Nat) : List Char :=
  Nat.toDigits 10 n

def ofDecimalDigits (digits : List Char) : Nat :=
  Nat.ofDigitChars 10 digits 0

theorem ofDecimalDigits_decimalDigits (n : Nat) :
    ofDecimalDigits (decimalDigits n) = n :=
  Nat.ofDigitChars_toDigits (by decide) (by decide)

def decimal (n : Nat) : String :=
  String.ofList (decimalDigits n)

def signedDecimal : Int -> String
  | Int.ofNat n => decimal n
  | Int.negSucc n => "-" ++ decimal (n + 1)

def hexDigit? (c : Char) : Option Nat :=
  if c.isDigit then
    some (c.toNat - '0'.toNat)
  else if 'a' ≤ c ∧ c ≤ 'f' then
    some (c.toNat - 'a'.toNat + 10)
  else if 'A' ≤ c ∧ c ≤ 'F' then
    some (c.toNat - 'A'.toNat + 10)
  else
    none

def ofHexDigits? (digits : List Char) : Option Nat :=
  digits.foldlM (fun n c => (hexDigit? c).map (16 * n + ·)) 0

def hexadecimal (width n : Nat) : String :=
  let digits := Nat.toDigits 16 n
  String.ofList (List.replicate (width - digits.length) '0' ++ digits)

/-- The two parts of a signed text: whether it is negative, and what follows
the sign. A text without a sign is not negative. -/
def splitSign : List Char -> Bool × List Char
  | '-' :: rest => (true, rest)
  | '+' :: rest => (false, rest)
  | text => (false, text)

end Text
end VideoConfig
