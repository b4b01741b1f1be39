import Mathlib.Algebra.Order.Field.Power
import Mathlib.Algebra.Order.Ring.Rat
import Mathlib.Data.Nat.Log
import Mathlib.Tactic.Positivity
import Mathlib.Tactic.Ring
import VideoConfig.Powers
import VideoConfig.Text.Digits

/-!
# Written numbers

Numbers are written in base ten or in base sixteen: a row of digits with at most one point
among them, and behind a mark an exponent, which counts powers of ten or of two. This module
has the forms in which a number may be written and the exact number that each of them
denotes. Nothing here rounds or refuses. A base has the unit whose powers an exponent
counts, the marks of which one stands before an exponent, and the heads that tell the base.
-/

namespace VideoConfig

inductive Base where
  | ten
  | sixteen
deriving DecidableEq

namespace Base

def radix : Base -> Nat
  | ten => 10
  | sixteen => 16

def unit : Base -> Nat
  | ten => 10
  | sixteen => 2

def digit? : Base -> Char -> Option Nat
  | ten, c => if c.isDigit then some (c.toNat - '0'.toNat) else none
  | sixteen, c => Text.hexDigit? c

def marks : Base -> List Char
  | ten => ['e', 'E']
  | sixteen => ['p', 'P']

def heads : Base -> List (List Char)
  | ten => [[]]
  | sixteen => [['0', 'x'], ['0', 'X']]

def digit (base : Base) (c : Char) : Nat :=
  (base.digit? c).getD 0

def number (base : Base) : List Char -> Nat
  | [] => 0
  | c :: rest => base.digit c * base.radix ^ rest.length + base.number rest

def IsRow (base : Base) (row : List Char) : Prop :=
  forall c, c ∈ row -> (base.digit? c).isSome

instance (base : Base) (row : List Char) : Decidable (base.IsRow row) :=
  List.decidableBAll (fun c => (base.digit? c).isSome) row

end Base

inductive Signed (body : List Char) : Bool -> List Char -> Prop where
  | bare : Signed body false body
  | plus : Signed body false ('+' :: body)
  | minus : Signed body true ('-' :: body)

def signedInt (negative : Bool) (magnitude : Nat) : Int :=
  if negative then -magnitude else magnitude

def IntegerText (negative : Bool) (magnitude : Nat) (text : List Char) : Prop :=
  exists digits, digits ≠ [] ∧ Base.ten.IsRow digits ∧ Base.ten.number digits = magnitude ∧
    Signed digits negative text

structure Numeral where
  base : Base
  whole : List Char
  fraction : List Char
  exponent : Int

namespace Numeral

/-- The digits of a numeral. The point may be left out if none stand behind it. -/
inductive DigitsText (numeral : Numeral) : List Char -> Prop where
  | plain : numeral.fraction = [] -> DigitsText numeral numeral.whole
  | pointed : DigitsText numeral (numeral.whole ++ '.' :: numeral.fraction)

/-- The exponent of a numeral. It may be left out if it is zero. -/
inductive ExponentText (numeral : Numeral) : List Char -> Prop where
  | absent : numeral.exponent = 0 -> ExponentText numeral []
  | marked {mark : Char} {negative : Bool} {magnitude : Nat} {text : List Char} :
      mark ∈ numeral.base.marks ->
      IntegerText negative magnitude text ->
      numeral.exponent = signedInt negative magnitude ->
      ExponentText numeral (mark :: text)

structure BodyText (numeral : Numeral) (body : List Char) : Prop where
  ne_nil : numeral.whole ++ numeral.fraction ≠ []
  isRow : numeral.base.IsRow (numeral.whole ++ numeral.fraction)
  parts : exists digits exponent, numeral.DigitsText digits ∧ numeral.ExponentText exponent ∧
    body = digits ++ exponent

def WrittenAs (numeral : Numeral) (text : List Char) : Prop :=
  exists head body, head ∈ numeral.base.heads ∧ numeral.BodyText body ∧ text = head ++ body

def SignedAs (numeral : Numeral) (negative : Bool) (token : List Char) : Prop :=
  exists text, numeral.WrittenAs text ∧ Signed text negative token

/-- The number that a numeral denotes where its digits, read without the point, make a certain
number. -/
def scaled (numeral : Numeral) (digits : Nat) : ℚ :=
  digits / (numeral.base.radix : ℚ) ^ numeral.fraction.length *
    (numeral.base.unit : ℚ) ^ numeral.exponent

def value (numeral : Numeral) : ℚ :=
  numeral.scaled (numeral.base.number (numeral.whole ++ numeral.fraction))

end Numeral

/-!
## Single digits
-/

theorem Text.hexDigit?_lt {c : Char} {d : Nat} (h : Text.hexDigit? c = some d) : d < 16 := by
  have hzero : '0'.toNat = 48 := rfl
  have hlower : 'a'.toNat = 97 := rfl
  have hupper : 'A'.toNat = 65 := rfl
  unfold Text.hexDigit? at h
  split at h
  · next hdigit =>
      have hrange : c.toNat ≤ 57 := (Char.isDigit_iff_toNat.mp hdigit).right
      cases h
      omega
  · split at h
    · next hletter =>
        have hhigh : c.toNat ≤ 102 := UInt32.le_iff_toNat_le.mp (Char.le_def.mp hletter.right)
        cases h
        omega
    · split at h
      · next hletter =>
          have hhigh : c.toNat ≤ 70 := UInt32.le_iff_toNat_le.mp (Char.le_def.mp hletter.right)
          cases h
          omega
      · cases h

namespace Base

theorem radix_pos (base : Base) : 0 < base.radix := by
  cases base <;> decide

theorem ten_digit {c : Char} (h : c.isDigit = true) : ten.digit c = c.toNat - '0'.toNat := by
  simp [digit, digit?, h]

theorem isDigit_of_isSome {c : Char} (h : (ten.digit? c).isSome) : c.isDigit = true := by
  by_contra hdigit
  simp [digit?, hdigit] at h

theorem ten_digit_lt {c : Char} (h : c.isDigit = true) : c.toNat - '0'.toNat < 10 := by
  have hrange : 48 ≤ c.toNat ∧ c.toNat ≤ 57 := Char.isDigit_iff_toNat.mp h
  have hzero : '0'.toNat = 48 := rfl
  omega

theorem digit_lt (base : Base) (c : Char) : base.digit c < base.radix := by
  unfold digit
  cases hdigit : base.digit? c with
  | none =>
      exact base.radix_pos
  | some d =>
      rw [Option.getD_some]
      cases base with
      | ten =>
          have hsome : (ten.digit? c).isSome := by rw [hdigit]; rfl
          have hc := isDigit_of_isSome hsome
          rw [digit?, if_pos hc] at hdigit
          cases hdigit
          exact ten_digit_lt hc
      | sixteen =>
          exact Text.hexDigit?_lt hdigit

/-!
## Rows of digits

Zeros in front do not count.
-/

theorem isRow_append {base : Base} {first second : List Char} :
    base.IsRow (first ++ second) <-> base.IsRow first ∧ base.IsRow second :=
  List.forall_mem_append

theorem isRow_cons {base : Base} {c : Char} {row : List Char} :
    base.IsRow (c :: row) <-> (base.digit? c).isSome ∧ base.IsRow row :=
  List.forall_mem_cons

theorem number_append (base : Base) (first second : List Char) :
    base.number (first ++ second) =
      base.number first * base.radix ^ second.length + base.number second := by
  induction first with
  | nil =>
      simp [number]
  | cons c rest ih =>
      rw [List.cons_append, number, number, ih, List.length_append, Nat.pow_add]
      ring

theorem number_snoc (base : Base) (row : List Char) (c : Char) :
    base.number (row ++ [c]) = base.radix * base.number row + base.digit c := by
  rw [number_append]
  simp only [number, List.length_singleton, List.length_nil, Nat.pow_one, Nat.pow_zero]
  ring

theorem number_lt (base : Base) (row : List Char) :
    base.number row < base.radix ^ row.length := by
  induction row with
  | nil =>
      simp [number]
  | cons c rest ih =>
      have hdigit : (base.digit c + 1) * base.radix ^ rest.length ≤
          base.radix * base.radix ^ rest.length :=
        Nat.mul_le_mul_right _ (base.digit_lt c)
      rw [number, List.length_cons, Nat.pow_succ']
      rw [Nat.add_mul, Nat.one_mul] at hdigit
      omega

theorem le_number_cons (base : Base) {c : Char} (row : List Char) (h : base.digit c ≠ 0) :
    base.radix ^ row.length ≤ base.number (c :: row) := by
  have hle : 1 * base.radix ^ row.length ≤ base.digit c * base.radix ^ row.length :=
    Nat.mul_le_mul_right _ (Nat.one_le_iff_ne_zero.mpr h)
  rw [number]
  omega

theorem digit_zero (base : Base) : base.digit '0' = 0 := by
  cases base <;> rfl

theorem ten_digit_ne_zero {c : Char} (h : (ten.digit? c).isSome) (hc : c ≠ '0') :
    ten.digit c ≠ 0 := by
  have hdigit := isDigit_of_isSome h
  have hlow : 48 ≤ c.toNat := (Char.isDigit_iff_toNat.mp hdigit).left
  have hzero : '0'.toNat = 48 := rfl
  have hne : c.toNat ≠ 48 := fun heq => hc (Char.toNat_inj.mp heq)
  rw [ten_digit hdigit]
  omega

theorem number_dropWhile_zero (base : Base) (row : List Char) :
    base.number (row.dropWhile (· == '0')) = base.number row := by
  induction row with
  | nil =>
      rfl
  | cons c rest ih =>
      by_cases hc : c = '0'
      · subst hc
        rw [List.dropWhile_cons_of_pos (by decide), ih, number, digit_zero, Nat.zero_mul,
          Nat.zero_add]
      · rw [List.dropWhile_cons_of_neg (by simpa using hc)]

theorem ofDigitChars_eq {row : List Char} (h : ten.IsRow row) (start : Nat) :
    Nat.ofDigitChars 10 row start = start * 10 ^ row.length + ten.number row := by
  induction row generalizing start with
  | nil =>
      simp [number]
  | cons c rest ih =>
      rcases isRow_cons.mp h with ⟨hc, hrest⟩
      rw [Nat.ofDigitChars_cons, ih hrest, number, ten_digit (isDigit_of_isSome hc),
        List.length_cons, Nat.pow_succ, radix]
      ring

theorem ofDecimalDigits_eq {row : List Char} (h : ten.IsRow row) :
    Text.ofDecimalDigits row = ten.number row := by
  rw [Text.ofDecimalDigits, ofDigitChars_eq h, Nat.zero_mul, Nat.zero_add]

end Base

end VideoConfig
