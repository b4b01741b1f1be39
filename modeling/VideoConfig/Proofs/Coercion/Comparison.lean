import Mathlib.Data.Char
import Mathlib.Tactic.FieldSimp
import Mathlib.Tactic.Linarith
import VideoConfig.Coercion
import VideoConfig.Proofs.Floating.Decimal

/-!
# Comparison of decimal texts

Rows of digits are compared from the left, as the words of a dictionary are. Behind a point that
is the order of the numbers, once no row ends in a zero. Since the position of the point is
compared before, a text is found to be above a row of digits exactly if its number is.
-/

namespace VideoConfig

/-!
## Rows behind a point

The share of a row is the number that it makes there. Rows with different first digits are
told apart by these, and zeros at the end do not count.
-/

namespace Base

def share (row : List Char) : ℚ :=
  ten.number row / 10 ^ row.length

theorem number_eq_share (row : List Char) :
    (ten.number row : ℚ) = share row * 10 ^ (row.length : Int) := by
  have hne : (10 : ℚ) ^ row.length ≠ 0 := by positivity
  rw [share, zpow_natCast, div_mul_cancel₀ _ hne]

theorem share_nil : share [] = 0 := by
  simp [share, number]

theorem share_cons (c : Char) (rest : List Char) :
    share (c :: rest) = (ten.digit c + share rest) / 10 := by
  unfold share
  rw [number, List.length_cons, pow_succ, radix]
  push_cast
  field_simp

theorem share_nonneg (row : List Char) : 0 ≤ share row := by
  unfold share
  positivity

theorem share_lt_one (row : List Char) : share row < 1 := by
  unfold share
  rw [div_lt_one (by positivity)]
  exact_mod_cast number_lt ten row

theorem share_lt_of_digit_lt {c d : Char} (h : ten.digit c < ten.digit d)
    (first second : List Char) : share (c :: first) < share (d :: second) := by
  have hdigit : (ten.digit c : ℚ) + 1 ≤ ten.digit d := by exact_mod_cast h
  have hfirst := share_lt_one first
  have hsecond := share_nonneg second
  rw [share_cons, share_cons]
  linarith

theorem share_pos {row : List Char} (hrow : ten.IsRow row) (hne : row ≠ [])
    (hend : row.getLast? ≠ some '0') : 0 < share row := by
  rcases List.eq_nil_or_concat' row with hnil | ⟨front, last, rfl⟩
  · exact absurd hnil hne
  · have hlast : last ≠ '0' := by
      rintro rfl
      exact hend (by simp)
    have hdigit := ten_digit_ne_zero (hrow last (by simp)) hlast
    have hnumber : 0 < ten.number (front ++ [last]) := by
      rw [number_snoc]
      omega
    unfold share
    positivity

theorem share_snoc_zero (row : List Char) : share (row ++ ['0']) = share row := by
  unfold share
  rw [number_snoc, digit_zero, List.length_append, List.length_singleton, pow_succ, radix]
  push_cast
  field_simp
  ring

theorem share_trimEnd (row : List Char) :
    share (row.reverse.dropWhile (· == '0')).reverse = share row := by
  induction row using List.reverseRecOn with
  | nil =>
      rfl
  | append_singleton front last ih =>
      rw [List.reverse_append, List.reverse_singleton, List.singleton_append]
      by_cases hlast : last = '0'
      · subst hlast
        rw [List.dropWhile_cons_of_pos (by decide), ih, share_snoc_zero]
      · rw [List.dropWhile_cons_of_neg (by simpa using hlast), List.reverse_cons,
          List.reverse_reverse]

theorem getLast?_trimEnd (row : List Char) :
    (row.reverse.dropWhile (· == '0')).reverse.getLast? ≠ some '0' := by
  have hhead := List.head?_dropWhile_not (· == '0') row.reverse
  rw [List.getLast?_reverse]
  intro hzero
  rw [hzero] at hhead
  cases hhead

theorem digit_lt_of_lt {c d : Char} (hc : (ten.digit? c).isSome) (hd : (ten.digit? d).isSome)
    (h : c < d) : ten.digit c < ten.digit d := by
  have hcDigit := isDigit_of_isSome hc
  have hcLow : 48 ≤ c.toNat := (Char.isDigit_iff_toNat.mp hcDigit).left
  have hzero : '0'.toNat = 48 := rfl
  have hlt : c.toNat < d.toNat := UInt32.lt_iff_toNat_lt.mp h
  rw [ten_digit hcDigit, ten_digit (isDigit_of_isSome hd)]
  omega

/-- Behind a point the order of the numbers is that of a dictionary. -/
theorem lt_iff_share_lt {first second : List Char} (hfirst : ten.IsRow first)
    (hsecond : ten.IsRow second) (hend : second.getLast? ≠ some '0') :
    first < second <-> share first < share second := by
  induction first generalizing second with
  | nil =>
      cases second with
      | nil =>
          exact iff_of_false (List.not_lt_nil _) (lt_irrefl _)
      | cons d others =>
          rw [share_nil]
          exact iff_of_true (List.nil_lt_cons _ _) (share_pos hsecond (List.cons_ne_nil _ _) hend)
  | cons c rest ih =>
      cases second with
      | nil =>
          rw [share_nil]
          exact iff_of_false (List.not_lt_nil _) (not_lt.mpr (share_nonneg _))
      | cons d others =>
          rcases isRow_cons.mp hfirst with ⟨hc, hrest⟩
          rcases isRow_cons.mp hsecond with ⟨hd, hothers⟩
          rw [List.cons_lt_cons_iff]
          rcases lt_trichotomy c d with hbelow | rfl | habove
          · exact iff_of_true (Or.inl hbelow)
              (share_lt_of_digit_lt (digit_lt_of_lt hc hd hbelow) rest others)
          · have hothersEnd : others.getLast? ≠ some '0' := fun hzero =>
              hend (List.mem_getLast?_cons hzero)
            have hrows := ih hrest hothers hothersEnd
            rw [share_cons, share_cons, div_lt_div_iff_of_pos_right (by norm_num),
              add_lt_add_iff_left, ← hrows]
            simp
          · have hshares := share_lt_of_digit_lt (digit_lt_of_lt hd hc habove) others rest
            refine iff_of_false ?_ hshares.not_gt
            rintro (hlt | ⟨heq, _⟩)
            · exact hlt.not_gt habove
            · exact habove.ne heq.symm

end Base

namespace Coercion

open Floating

/-!
## Texts above a row of digits

The texts of literals are compared by the position of the point, and then by their digits
without the zeros at either end.
-/

variable {literal : Literal} {text limit : List Char}

def strippedDigits (literal : Literal) : List Char :=
  (literal.significant.reverse.dropWhile (· == '0')).reverse

theorem value_eq_share (literal : Literal) :
    literal.numeral.value = Base.share (strippedDigits literal) * 10 ^ literal.position := by
  have hpower : (10 : ℚ) ^ literal.position =
      10 ^ (literal.significant.length : Int) * 10 ^ literal.scale :=
    zpow_add₀ (by norm_num) _ _
  rw [Literal.value_eq, Base.number_eq_share, strippedDigits, Base.share_trimEnd, hpower]
  ring

theorem exceeds_eq (text limit : List Char) :
    exceeds text limit =
      let cut := Numeral.exponentCut Literal.isExponentMark text
      match cut.2 with
      | none => false
      | some exponent =>
          let point := Numeral.pointCut cut.1
          let digits := point.1 ++ point.2
          let significant := digits.dropWhile (· == '0')
          let position : Int := point.1.length + exponent - (digits.length - significant.length : Nat)
          let stripped := (significant.reverse.dropWhile (· == '0')).reverse
          if stripped = [] then
            false
          else
            match compare position (limit.length : Int) with
            | .gt => true
            | .lt => false
            | .eq => limit < stripped :=
  rfl

theorem exceeds_of_bodyText (h : literal.numeral.BodyText text) :
    exceeds text limit =
      if strippedDigits literal = [] then
        false
      else
        match compare literal.position (limit.length : Int) with
        | .gt => true
        | .lt => false
        | .eq => limit < strippedDigits literal := by
  rcases (Numeral.bodyText_iff Literal.isExponentMark_iff).mp h with ⟨hpoint, hexponent, _, _⟩
  have hlength : literal.significant.length ≤ (literal.whole ++ literal.fraction).length :=
    (List.dropWhile_sublist _).length_le
  have hposition : (literal.whole.length : Int) + literal.exponent -
      ((literal.whole ++ literal.fraction).length - literal.significant.length : Nat) =
        literal.position := by
    rw [List.length_append] at hlength ⊢
    unfold Literal.position Literal.scale
    omega
  rw [exceeds_eq]
  dsimp only
  rw [hexponent, hpoint]
  dsimp only
  rw [← hposition]
  rfl

theorem exceeds_iff (h : literal.numeral.BodyText text) (hlimit : Base.ten.IsRow limit)
    (hne : limit ≠ []) (hhead : limit.head? ≠ some '0') :
    exceeds text limit = true <-> (Base.ten.number limit : ℚ) < literal.numeral.value := by
  have hvalue := value_eq_share literal
  rcases number_bounds hlimit hne hhead with ⟨hlow, hhigh⟩
  rw [exceeds_of_bodyText h]
  split
  · next hstripped =>
      rw [hstripped, Base.share_nil, zero_mul] at hvalue
      rw [hvalue]
      exact iff_of_false (by decide) (not_lt.mpr (Nat.cast_nonneg _))
  · next hstripped =>
      have hsignificant : literal.significant ≠ [] := by
        intro hnil
        rw [strippedDigits, hnil] at hstripped
        exact hstripped rfl
      rcases literal.value_bounds h.isRow hsignificant with ⟨hvalueLow, hvalueHigh⟩
      rcases lt_trichotomy literal.position (limit.length : Int) with hbelow | hat | habove
      · rw [compare_lt_iff_lt.mpr hbelow]
        refine iff_of_false Bool.false_ne_true (not_lt.mpr ?_)
        exact (hvalueHigh.le.trans (ten_zpow_le (by omega))).trans hlow
      · rw [compare_eq_iff_eq.mpr hat, decide_eq_true_eq, hvalue, Base.number_eq_share limit, hat,
          mul_lt_mul_iff_left₀ (ten_zpow_pos _)]
        refine Base.lt_iff_share_lt hlimit (fun c hc => ?_) (Base.getLast?_trimEnd _)
        exact Literal.isRow_significant h.isRow c
          (List.mem_reverse.mp ((List.dropWhile_sublist _).mem (List.mem_reverse.mp hc)))
      · rw [compare_gt_iff_gt.mpr habove]
        refine iff_of_true rfl (hhigh.trans_le ?_)
        exact (ten_zpow_le (by omega)).trans hvalueLow

end Coercion

end VideoConfig
