import VideoConfig.Toml.Reader

/-!
# Dates and times of TOML

A date, a time of the day, or a date with a time and its distance from universal
time. Reading one gives its usual form, in which a `T` stands before the time, `Z`
is a capital letter, and a fraction has no zeros at its end. A text has such a form
only if nothing more stands in it.
-/

namespace VideoConfig
namespace Toml
namespace Reader

def numberOf (digits : List Char) : Nat :=
  Text.ofDecimalDigits digits

def twoDigits (least greatest : Nat) : Reader Nat := do
  let n := numberOf (← exactly 2 Char.isDigit)
  if n < least ∨ greatest < n then
    failure
  return n

def padded (width n : Nat) : String :=
  let digits := Text.decimalDigits n
  String.ofList (List.replicate (width - digits.length) '0' ++ digits)

def daysOf (year month : Nat) : Nat :=
  let leap := year % 4 = 0 ∧ (year % 100 ≠ 0 ∨ year % 400 = 0)
  if month = 2 then
    if leap then 29 else 28
  else if month = 4 ∨ month = 6 ∨ month = 9 ∨ month = 11 then
    30
  else
    31

def date : Reader String := do
  let year := numberOf (← exactly 4 Char.isDigit)
  expect '-'
  let month ← twoDigits 1 12
  expect '-'
  let day ← twoDigits 1 (daysOf year month)
  return padded 4 year ++ "-" ++ padded 2 month ++ "-" ++ padded 2 day

/-- The text of the fraction of a second: nine digits at most, and no zeros at its end. -/
def fractionText (digits : List Char) : String :=
  let counted := ((digits.take 9).reverse.dropWhile (· == '0')).reverse
  if counted.isEmpty then "" else String.ofList ('.' :: counted)

def time : Reader String := do
  let hour ← twoDigits 0 23
  expect ':'
  let minute ← twoDigits 0 59
  expect ':'
  let second ← twoDigits 0 60
  let fraction ←
    if ← tryWord ['.'] then
      fractionText <$> some Char.isDigit
    else
      pure ""
  return padded 2 hour ++ ":" ++ padded 2 minute ++ ":" ++ padded 2 second ++ fraction

def offset : Reader String := do
  match (← rest).head? with
  | Option.some 'Z' => let _ ← next; return "Z"
  | Option.some 'z' => let _ ← next; return "Z"
  | Option.some sign =>
      if sign = '+' ∨ sign = '-' then
        let _ ← next
        let hour ← twoDigits 0 23
        expect ':'
        let minute ← twoDigits 0 59
        let sign := if sign = '-' ∧ hour + minute ≠ 0 then "-" else "+"
        return sign ++ padded 2 hour ++ ":" ++ padded 2 minute
      else
        return ""
  | none => return ""

def startsTime : List Char -> Bool
  | a :: b :: ':' :: _ => a.isDigit && b.isDigit
  | _ => false

def startsDate : List Char -> Bool
  | a :: b :: c :: d :: '-' :: _ => a.isDigit && b.isDigit && c.isDigit && d.isDigit
  | _ => false

def dateAndTime : Reader String := do
  let day ← date
  match ← rest with
  | c :: left =>
      if (c = 'T' ∨ c = 't' ∨ c = ' ') ∧ startsTime left then
        set left
        let clock ← time
        return day ++ "T" ++ clock ++ (← offset)
      else
        return day
  | [] => return day

end Reader

def dateForm? (text : String) : Option String := do
  let chars := text.toList
  let reader := if Reader.startsTime chars then Reader.time else Reader.dateAndTime
  let (form, left) ← reader.run chars
  if left.isEmpty then some form else none

end Toml
end VideoConfig
