import Mathlib.Algebra.Order.Field.Power
import Mathlib.Algebra.Order.Ring.Rat
import Mathlib.Data.Rat.Cast.Order
import Mathlib.Tactic.FieldSimp
import Mathlib.Tactic.Linarith
import Mathlib.Tactic.Positivity
import Mathlib.Tactic.Ring
import VideoConfig.Floating.Format

/-!
# Rounding to the nearest magnitude

The magnitudes of a format are points on a line, and rounding takes a number to the nearest of
them. The module says for every point which numbers are rounded to it or below it: those that
lie below the middle between the point and the next one, and the middle itself if the
significand of the point is even. The numbers that round to zero and to infinity follow.
-/

namespace VideoConfig
namespace Floating

def Magnitude.AtMost (magnitude : Magnitude) (bound : ℚ) : Prop :=
  match magnitude with
  | .finite significand exponent => significand * (2 : ℚ) ^ exponent ≤ bound
  | _ => False

/-- The numbers that are not above the middle between two neighbours on the grid of the multiples
of `2 ^ exponent`. The middle itself belongs to the even neighbour. -/
def RoundsToAtMost (x : ℚ) (significand : Nat) (exponent : Int) : Prop :=
  x < (significand + 1 / 2) * 2 ^ exponent ∨
    x = (significand + 1 / 2) * 2 ^ exponent ∧ Even significand

/-- A significand and an exponent as a format stores them: the significand has all its bits,
unless the exponent is the least one. -/
structure Format.Stores (format : Format) (significand : Nat) (exponent : Int) : Prop where
  lt : significand < 2 ^ format.precision
  full : 2 ^ (format.precision - 1) ≤ significand ∨ exponent = format.minExponent
  min_le : format.minExponent ≤ exponent
  le_max : exponent ≤ format.maxExponent

/-- The exponents with which a format writes a number, the ones above its own included. -/
structure Format.Fits (format : Format) (x : ℚ) (exponent : Int) : Prop where
  lt : x < 2 ^ format.precision * 2 ^ exponent
  full : exponent = format.minExponent ∨ 2 ^ (format.precision - 1) * 2 ^ exponent ≤ x
  min_le : format.minExponent ≤ exponent

/-!
## Scaled quotients

Magnitudes are compared as the numbers that they are.
-/

theorem two_zpow_pos (exponent : Int) : (0 : ℚ) < 2 ^ exponent :=
  zpow_pos (by norm_num) exponent

theorem two_zpow_le {low high : Int} (h : low ≤ high) : (2 : ℚ) ^ low ≤ 2 ^ high :=
  zpow_le_zpow_right₀ (by norm_num) h

theorem two_zpow_succ (exponent : Int) : (2 : ℚ) ^ (exponent + 1) = 2 * 2 ^ exponent := by
  rw [zpow_add_one₀ (by norm_num), mul_comm]

theorem Magnitude.above_eq_false_iff {significand bound : Nat} {exponent boundExponent : Int} :
    Magnitude.above (significand, exponent) (bound, boundExponent) = false <->
      (Magnitude.finite significand exponent).AtMost (bound * 2 ^ boundExponent) := by
  have hscale (low high : Int) (n : Nat) (h : low ≤ high) :
      (n : ℚ) * 2 ^ high = (n * 2 ^ (high - low).toNat : Nat) * 2 ^ low := by
    have hexponent : high = ((high - low).toNat : Int) + low := by omega
    rw [hexponent, zpow_add₀ (by norm_num), zpow_natCast, ← hexponent]
    push_cast
    ring
  have hmin := two_zpow_pos (min exponent boundExponent)
  unfold Magnitude.above Magnitude.AtMost
  dsimp only
  rw [decide_eq_false_iff_not, not_lt, hscale _ _ significand (min_le_left exponent boundExponent),
    hscale _ _ bound (min_le_right exponent boundExponent), mul_le_mul_iff_left₀ hmin, Nat.cast_le]

theorem scaleQuotient_den_pos {den : Nat} (num : Nat) (hden : 0 < den) (exponent : Int) :
    0 < (scaleQuotient num den exponent).2 :=
  Nat.mul_pos hden (Nat.pow_pos (by decide))

theorem scaleQuotient_value (num den : Nat) (exponent : Int) :
    ((scaleQuotient num den exponent).1 : ℚ) / (scaleQuotient num den exponent).2 =
      num / den * 2 ^ exponent := by
  unfold scaleQuotient
  rcases exponent.eq_nat_or_neg with ⟨n, rfl | rfl⟩
  · rw [Int.toNat_natCast, Int.toNat_neg_natCast, zpow_natCast]
    push_cast
    ring
  · rw [neg_neg, Int.toNat_natCast, Int.toNat_neg_natCast, zpow_neg, zpow_natCast]
    push_cast
    field_simp

theorem roundQuotient_bounds (num den : Nat) :
    num / den ≤ roundQuotient num den ∧ roundQuotient num den ≤ num / den + 1 := by
  unfold roundQuotient
  dsimp only
  split_ifs <;> omega

theorem roundQuotient_le_iff {num den n : Nat} (hden : 0 < den) :
    roundQuotient num den ≤ n <->
      (num : ℚ) / den < n + 1 / 2 ∨ (num : ℚ) / den = n + 1 / 2 ∧ Even n := by
  have hpos : (0 : ℚ) < den := Nat.cast_pos.mpr hden
  have hlt : (num : ℚ) / den < n + 1 / 2 <-> 2 * num < 2 * (den * n) + den := by
    rw [div_lt_iff₀ hpos, ← Nat.cast_lt (α := ℚ)]
    push_cast
    constructor <;> intro h <;> linarith
  have heq : (num : ℚ) / den = n + 1 / 2 <-> 2 * num = 2 * (den * n) + den := by
    rw [div_eq_iff hpos.ne', ← Nat.cast_inj (R := ℚ)]
    push_cast
    constructor <;> intro h <;> linarith
  rw [hlt, heq, Nat.even_iff]
  have hrest := Nat.mod_lt num hden
  have hnum := Nat.div_add_mod num den
  have hbounds := roundQuotient_bounds num den
  rcases Nat.lt_trichotomy (num / den) n with hbelow | hat | habove
  · have hstep : den * (num / den + 1) ≤ den * n := Nat.mul_le_mul_left den hbelow
    rw [Nat.mul_add_one] at hstep
    exact iff_of_true (by omega) (Or.inl (by omega))
  · -- Only here the rest decides.
    rw [← hat]
    unfold roundQuotient
    dsimp only
    split_ifs <;> omega
  · have hstep : den * (n + 1) ≤ den * (num / den) := Nat.mul_le_mul_left den habove
    rw [Nat.mul_add_one] at hstep
    exact iff_of_false (by omega) (by omega)

theorem roundScaled_le_iff {num den n : Nat} (hden : 0 < den) (exponent : Int) :
    roundQuotient (scaleQuotient num den (-exponent)).1 (scaleQuotient num den (-exponent)).2 ≤ n <->
      RoundsToAtMost (num / den) n exponent := by
  have hpos := two_zpow_pos exponent
  have hvalue : ((scaleQuotient num den (-exponent)).1 : ℚ) / (scaleQuotient num den (-exponent)).2 =
      num / den / 2 ^ exponent := by
    rw [scaleQuotient_value, zpow_neg, div_eq_mul_inv (_ / _ : ℚ)]
  rw [roundQuotient_le_iff (scaleQuotient_den_pos num hden _), hvalue, div_lt_iff₀ hpos,
    div_eq_iff hpos.ne', RoundsToAtMost]

/-!
## The exponent of a number

A quotient lies within a factor of two of the power that the binary logarithms tell, and
whether it is below a power of two is told by its whole part.
-/

theorem two_pow_precision (format : Format) :
    (2 : ℚ) ^ format.precision = 2 * 2 ^ (format.precision - 1) := by
  cases format <;> norm_num [Format.precision]

theorem half_precision_mul (format : Format) (exponent : Int) :
    (2 : ℚ) ^ (format.precision - 1) * 2 ^ exponent = 2 ^ (exponent + format.precision - 1) := by
  rw [← zpow_natCast, ← zpow_add₀ (by norm_num)]
  congr 1
  cases format <;> simp only [Format.precision] <;> omega

theorem log2_bounds {n : Nat} (h : n ≠ 0) :
    (2 : ℚ) ^ (Nat.log2 n : Int) ≤ n ∧ (n : ℚ) < 2 ^ ((Nat.log2 n : Int) + 1) := by
  constructor
  · rw [zpow_natCast]
    exact_mod_cast Nat.log2_self_le h
  · have hlt : n < 2 ^ (Nat.log2 n + 1) := Nat.lt_log2_self
    rw [← Nat.cast_succ, zpow_natCast]
    exact_mod_cast hlt

theorem quotient_bounds {num den : Nat} (hnum : num ≠ 0) (hden : den ≠ 0) :
    (2 : ℚ) ^ ((Nat.log2 num : Int) - Nat.log2 den - 1) < num / den ∧
      (num : ℚ) / den < 2 ^ ((Nat.log2 num : Int) - Nat.log2 den + 1) := by
  rcases log2_bounds hnum with ⟨hnumLow, hnumHigh⟩
  rcases log2_bounds hden with ⟨hdenLow, hdenHigh⟩
  have hpos : (0 : ℚ) < den := Nat.cast_pos.mpr (Nat.pos_of_ne_zero hden)
  constructor
  · rw [lt_div_iff₀ hpos]
    calc (2 : ℚ) ^ ((Nat.log2 num : Int) - Nat.log2 den - 1) * den
        < 2 ^ ((Nat.log2 num : Int) - Nat.log2 den - 1) * 2 ^ ((Nat.log2 den : Int) + 1) :=
          mul_lt_mul_of_pos_left hdenHigh (two_zpow_pos _)
      _ = 2 ^ (Nat.log2 num : Int) := by
          rw [← zpow_add₀ (by norm_num)]
          congr 1
          ring
      _ ≤ num := hnumLow
  · rw [div_lt_iff₀ hpos]
    calc (num : ℚ) < 2 ^ ((Nat.log2 num : Int) + 1) := hnumHigh
      _ = 2 ^ ((Nat.log2 num : Int) - Nat.log2 den + 1) * 2 ^ (Nat.log2 den : Int) := by
          rw [← zpow_add₀ (by norm_num)]
          congr 1
          ring
      _ ≤ 2 ^ ((Nat.log2 num : Int) - Nat.log2 den + 1) * den :=
          mul_le_mul_of_nonneg_left hdenLow (two_zpow_pos _).le

theorem scaled_div_lt_iff {num den : Nat} (hden : 0 < den) (exponent : Int) (n : Nat) :
    (scaleQuotient num den (-exponent)).1 / (scaleQuotient num den (-exponent)).2 < n <->
      (num : ℚ) / den < n * 2 ^ exponent := by
  have hpos := scaleQuotient_den_pos num hden (-exponent)
  have hvalue := scaleQuotient_value num den (-exponent)
  rw [zpow_neg, ← div_eq_mul_inv] at hvalue
  rw [Nat.div_lt_iff_lt_mul hpos, ← div_lt_iff₀ (two_zpow_pos exponent), ← hvalue,
    div_lt_iff₀ (Nat.cast_pos.mpr hpos)]
  exact_mod_cast Iff.rfl

theorem exponentOf_fits (format : Format) {num den : Nat} (hnum : num ≠ 0) (hden : den ≠ 0) :
    format.Fits (num / den) (exponentOf format num den) := by
  have hpos := Nat.pos_of_ne_zero hden
  rcases quotient_bounds hnum hden with ⟨hlow, hhigh⟩
  unfold exponentOf
  dsimp only
  set position : Int := (Nat.log2 num : Int) - Nat.log2 den with hposition
  set guess : Int := max (position - format.precision) format.minExponent with hguess
  have hcast : (((2 : Nat) ^ format.precision : Nat) : ℚ) = 2 ^ format.precision := by
    push_cast
    rfl
  split
  · next hlt =>
      rw [scaled_div_lt_iff hpos, hcast] at hlt
      refine ⟨hlt, ?_, le_max_right _ _⟩
      rcases max_choice (position - format.precision) format.minExponent with hmax | hmax
      · refine Or.inr ?_
        rw [half_precision_mul, hguess, hmax, sub_add_cancel]
        exact hlow.le
      · exact Or.inl hmax
  · next hle =>
      rw [scaled_div_lt_iff hpos, hcast, not_lt, two_pow_precision] at hle
      refine ⟨lt_of_lt_of_le hhigh ?_, Or.inr ?_, (le_max_right _ _).trans (lt_add_one _).le⟩
      · have hguess_le : position - format.precision ≤ guess := le_max_left _ _
        rw [two_pow_precision, mul_assoc, half_precision_mul, ← two_zpow_succ]
        exact two_zpow_le (by omega)
      · rw [two_zpow_succ]
        linarith

/-!
## Rounding to a format

Above the least exponent a rounded significand has all its bits. So rounded numbers are
compared on the grid of the point that they are compared with, whatever their own grid is.
-/

def roundedSignificand (format : Format) (num den : Nat) : Nat :=
  let scaled := scaleQuotient num den (-exponentOf format num den)
  roundQuotient scaled.1 scaled.2

section

variable {format : Format} {num den : Nat}

theorem roundedSignificand_le_iff (hden : 0 < den) {n : Nat} :
    roundedSignificand format num den ≤ n <->
      RoundsToAtMost (num / den) n (exponentOf format num den) :=
  roundScaled_le_iff hden _

theorem roundedSignificand_le (hnum : num ≠ 0) (hden : 0 < den) :
    roundedSignificand format num den ≤ 2 ^ format.precision := by
  have hfits := exponentOf_fits format hnum hden.ne'
  have hpos := two_zpow_pos (exponentOf format num den)
  rw [roundedSignificand_le_iff hden]
  refine Or.inl (hfits.lt.trans_le ?_)
  push_cast
  exact mul_le_mul_of_nonneg_right (by linarith) hpos.le

theorem le_roundedSignificand (hnum : num ≠ 0) (hden : 0 < den)
    (hexponent : exponentOf format num den ≠ format.minExponent) :
    2 ^ (format.precision - 1) ≤ roundedSignificand format num den := by
  have hfits := exponentOf_fits format hnum hden.ne'
  have hpos := two_zpow_pos (exponentOf format num den)
  have hfull := hfits.full.resolve_left hexponent
  by_contra hlt
  have hle : roundedSignificand format num den ≤ 2 ^ (format.precision - 1) - 1 := by omega
  have hone : 1 ≤ 2 ^ (format.precision - 1) := Nat.one_le_two_pow
  rw [roundedSignificand_le_iff hden, RoundsToAtMost, Nat.cast_sub hone] at hle
  push_cast at hle
  have hbelow : ((2 : ℚ) ^ (format.precision - 1) - 1 + 1 / 2) * 2 ^ exponentOf format num den <
      2 ^ (format.precision - 1) * 2 ^ exponentOf format num den :=
    mul_lt_mul_of_pos_right (by linarith) hpos
  rcases hle with hle | ⟨hle, _⟩ <;> linarith

theorem nearest_of_carried (hnum : num ≠ 0)
    (hcarried : roundedSignificand format num den = 2 ^ format.precision) :
    nearest format num den =
      if format.maxExponent < exponentOf format num den + 1 then
        .infinite
      else
        .finite (2 ^ (format.precision - 1)) (exponentOf format num den + 1) := by
  unfold nearest
  unfold roundedSignificand at hcarried
  dsimp only at hcarried ⊢
  rw [if_neg hnum, if_pos hcarried, if_pos hcarried]

theorem nearest_of_not_carried (hnum : num ≠ 0)
    (hcarried : roundedSignificand format num den ≠ 2 ^ format.precision) :
    nearest format num den =
      if format.maxExponent < exponentOf format num den then
        .infinite
      else
        .finite (roundedSignificand format num den) (exponentOf format num den) := by
  unfold nearest
  unfold roundedSignificand at hcarried ⊢
  dsimp only at hcarried ⊢
  rw [if_neg hnum, if_neg hcarried, if_neg hcarried]

variable {significand : Nat} {exponent : Int}

theorem Format.Stores.lt_limit (h : format.Stores significand exponent) :
    (significand : ℚ) * 2 ^ exponent < 2 ^ format.precision * 2 ^ format.maxExponent := by
  have hlt : (significand : ℚ) < 2 ^ format.precision := by exact_mod_cast h.lt
  calc (significand : ℚ) * 2 ^ exponent
      < 2 ^ format.precision * 2 ^ exponent := mul_lt_mul_of_pos_right hlt (two_zpow_pos _)
    _ ≤ 2 ^ format.precision * 2 ^ format.maxExponent :=
        mul_le_mul_of_nonneg_left (two_zpow_le h.le_max) (by positivity)

theorem nearest_atMost_iff_rounded (hnum : num ≠ 0) (hden : 0 < den)
    (h : format.Stores significand exponent) :
    (nearest format num den).AtMost (significand * 2 ^ exponent) <->
      (roundedSignificand format num den : ℚ) * 2 ^ exponentOf format num den ≤
        significand * 2 ^ exponent := by
  have hlimit := h.lt_limit
  by_cases hcarried : roundedSignificand format num den = 2 ^ format.precision
  · have hvalue : (roundedSignificand format num den : ℚ) * 2 ^ exponentOf format num den =
        2 ^ (format.precision - 1) * 2 ^ (exponentOf format num den + 1) := by
      rw [hcarried, two_zpow_succ]
      push_cast
      rw [two_pow_precision]
      ring
    rw [nearest_of_carried hnum hcarried, hvalue]
    split
    · next habove =>
        refine iff_of_false id (not_le.mpr (hlimit.trans_le ?_))
        rw [two_pow_precision, mul_comm (2 : ℚ), mul_assoc, ← two_zpow_succ]
        exact mul_le_mul_of_nonneg_left (two_zpow_le habove) (by positivity)
    · unfold Magnitude.AtMost
      push_cast
      exact Iff.rfl
  · rw [nearest_of_not_carried hnum hcarried]
    split
    · next habove =>
        have hne : exponentOf format num den ≠ format.minExponent := by
          have hrange : format.minExponent ≤ format.maxExponent := by
            cases format <;> decide
          omega
        have hfull : (2 : ℚ) ^ (format.precision - 1) ≤ roundedSignificand format num den := by
          exact_mod_cast le_roundedSignificand hnum hden hne
        refine iff_of_false id (not_le.mpr (hlimit.trans_le ?_))
        rw [two_pow_precision, mul_comm (2 : ℚ), mul_assoc, ← two_zpow_succ]
        exact mul_le_mul hfull (two_zpow_le habove) (two_zpow_pos _).le (Nat.cast_nonneg _)
    · exact Iff.rfl

theorem rounded_le_iff (hnum : num ≠ 0) (hden : 0 < den)
    (h : format.Stores significand exponent) :
    (roundedSignificand format num den : ℚ) * 2 ^ exponentOf format num den ≤
        significand * 2 ^ exponent <->
      RoundsToAtMost (num / den) significand exponent := by
  have hfits := exponentOf_fits format hnum hden.ne'
  have hpos := two_zpow_pos exponent
  have hposOwn := two_zpow_pos (exponentOf format num den)
  have hprecision := two_pow_precision format
  rcases lt_trichotomy (exponentOf format num den) exponent with hbelow | hat | habove
  · -- The whole of the finer grid is below the point.
    have hfull := h.full.resolve_right (by have := hfits.min_le; omega)
    have hfull : (2 : ℚ) ^ (format.precision - 1) ≤ significand := by exact_mod_cast hfull
    have hgrid : (2 : ℚ) ^ format.precision * 2 ^ exponentOf format num den ≤
        significand * 2 ^ exponent := by
      rw [hprecision, mul_comm (2 : ℚ), mul_assoc, ← two_zpow_succ]
      exact mul_le_mul hfull (two_zpow_le hbelow) (two_zpow_pos _).le (Nat.cast_nonneg _)
    refine iff_of_true (le_trans ?_ hgrid) (Or.inl ?_)
    · refine mul_le_mul_of_nonneg_right ?_ hposOwn.le
      exact_mod_cast roundedSignificand_le hnum hden
    · refine (hfits.lt.trans_le hgrid).trans ?_
      exact mul_lt_mul_of_pos_right (by linarith) hpos
  · rw [← hat, mul_le_mul_iff_left₀ hposOwn, Nat.cast_le]
    exact roundedSignificand_le_iff hden
  · -- The whole of the coarser grid that is in use is above the next point.
    have hne : exponentOf format num den ≠ format.minExponent := by
      have := h.min_le
      omega
    have hfull : (2 : ℚ) ^ (format.precision - 1) ≤ roundedSignificand format num den := by
      exact_mod_cast le_roundedSignificand hnum hden hne
    have hnext : ((significand : ℚ) + 1) * 2 ^ exponent ≤
        2 ^ (format.precision - 1) * 2 ^ exponentOf format num den := by
      have hlt : (significand : ℚ) + 1 ≤ 2 ^ format.precision := by exact_mod_cast h.lt
      calc ((significand : ℚ) + 1) * 2 ^ exponent
          ≤ 2 ^ format.precision * 2 ^ exponent := mul_le_mul_of_nonneg_right hlt hpos.le
        _ = 2 ^ (format.precision - 1) * 2 ^ (exponent + 1) := by
            rw [two_zpow_succ, hprecision]
            ring
        _ ≤ 2 ^ (format.precision - 1) * 2 ^ exponentOf format num den :=
            mul_le_mul_of_nonneg_left (two_zpow_le habove) (by positivity)
    have hvalue := hfits.full.resolve_left hne
    have hrounded := mul_le_mul_of_nonneg_right hfull hposOwn.le
    refine iff_of_false (not_le.mpr (by linarith)) ?_
    rintro (hlt | ⟨heq, _⟩) <;> linarith

/-- The numbers that are rounded to a magnitude or below it. -/
theorem nearest_atMost_iff (hden : 0 < den) (h : format.Stores significand exponent) :
    (nearest format num den).AtMost (significand * 2 ^ exponent) <->
      RoundsToAtMost (num / den) significand exponent := by
  by_cases hnum : num = 0
  · have hpos := two_zpow_pos exponent
    have hsignificand : (0 : ℚ) ≤ significand := Nat.cast_nonneg significand
    refine iff_of_true ?_ (Or.inl ?_)
    · rw [hnum, nearest, if_pos rfl, Magnitude.zero, Magnitude.AtMost, Nat.cast_zero, zero_mul]
      positivity
    · rw [hnum, Nat.cast_zero, zero_div]
      positivity
  · rw [nearest_atMost_iff_rounded hnum hden h, rounded_le_iff hnum hden h]

/-!
## Stored results

Numbers that reach the power of two above the largest magnitude are rounded to infinity, and
those below half of the least magnitude to zero.
-/

theorem nearest_stores (hden : 0 < den)
    (h : nearest format num den = .finite significand exponent) :
    format.Stores significand exponent := by
  have hrange : format.minExponent ≤ format.maxExponent := by
    cases format <;> decide
  have hpower : 2 ^ (format.precision - 1) < 2 ^ format.precision := by
    cases format <;> decide
  by_cases hnum : num = 0
  · rw [nearest, if_pos hnum, Magnitude.zero] at h
    cases h
    exact ⟨Nat.pow_pos (by decide), Or.inr rfl, le_rfl, hrange⟩
  · have hmin := (exponentOf_fits format hnum hden.ne').min_le
    by_cases hcarried : roundedSignificand format num den = 2 ^ format.precision
    · rw [nearest_of_carried hnum hcarried] at h
      split at h
      · cases h
      · cases h
        exact ⟨hpower, Or.inl le_rfl, by omega, by omega⟩
    · rw [nearest_of_not_carried hnum hcarried] at h
      split at h
      · cases h
      · cases h
        have hle : roundedSignificand format num den ≤ 2 ^ format.precision :=
          roundedSignificand_le hnum hden
        refine ⟨by omega, ?_, hmin, by omega⟩
        by_cases hexponent : exponentOf format num den = format.minExponent
        · exact Or.inr hexponent
        · exact Or.inl (le_roundedSignificand hnum hden hexponent)

theorem nearest_eq_infinite (hden : 0 < den)
    (h : (2 : ℚ) ^ format.precision * 2 ^ format.maxExponent ≤ num / den) :
    nearest format num den = .infinite := by
  have hnum : num ≠ 0 := by
    rintro rfl
    rw [Nat.cast_zero, zero_div] at h
    exact absurd h (not_le.mpr (by positivity))
  have hlt := h.trans_lt (exponentOf_fits format hnum hden.ne').lt
  have hexponent : format.maxExponent < exponentOf format num den := by
    have hpower := lt_of_mul_lt_mul_left hlt (by positivity)
    exact (zpow_lt_zpow_iff_right₀ (by norm_num)).mp hpower
  by_cases hcarried : roundedSignificand format num den = 2 ^ format.precision
  · rw [nearest_of_carried hnum hcarried, if_pos (by omega)]
  · rw [nearest_of_not_carried hnum hcarried, if_pos hexponent]

theorem nearest_eq_zero (hden : 0 < den) (h : (num : ℚ) / den < 1 / 2 * 2 ^ format.minExponent) :
    nearest format num den = .zero format := by
  have hrange : format.minExponent ≤ format.maxExponent := by
    cases format <;> decide
  by_cases hnum : num = 0
  · rw [nearest, if_pos hnum]
  · have hfits := exponentOf_fits format hnum hden.ne'
    have hexponent : exponentOf format num den = format.minExponent := by
      refine hfits.full.resolve_right fun hfull => ?_
      have hone : (1 : ℚ) ≤ 2 ^ (format.precision - 1) := one_le_pow₀ (by norm_num)
      have hle := mul_le_mul hone (two_zpow_le hfits.min_le) (two_zpow_pos _).le (by positivity)
      have hpos := two_zpow_pos format.minExponent
      linarith
    have hzero : roundedSignificand format num den = 0 := by
      rw [← Nat.le_zero, roundedSignificand_le_iff hden, hexponent]
      refine Or.inl ?_
      rw [Nat.cast_zero, zero_add]
      exact h
    have hcarried : roundedSignificand format num den ≠ 2 ^ format.precision := by
      rw [hzero]
      exact (Nat.pow_pos (by decide)).ne
    rw [nearest_of_not_carried hnum hcarried, hexponent, if_neg (not_lt.mpr hrange), hzero,
      Magnitude.zero]

theorem Format.Stores.eq_largest (h : format.Stores significand exponent)
    (habove : ((2 ^ format.precision - 2 : Nat) : ℚ) * 2 ^ format.maxExponent <
      significand * 2 ^ exponent) :
    Magnitude.finite significand exponent = .largest format := by
  have hlt := h.lt
  have hexponent : exponent = format.maxExponent := by
    by_contra hne
    have hless : exponent + 1 ≤ format.maxExponent := by
      have := h.le_max
      omega
    have hbound : (significand : ℚ) * 2 ^ exponent ≤
        2 ^ (format.precision - 1) * 2 ^ format.maxExponent := by
      have hle : (significand : ℚ) ≤ 2 * 2 ^ (format.precision - 1) := by
        rw [← two_pow_precision]
        exact_mod_cast hlt.le
      calc (significand : ℚ) * 2 ^ exponent
          ≤ 2 * 2 ^ (format.precision - 1) * 2 ^ exponent :=
            mul_le_mul_of_nonneg_right hle (two_zpow_pos _).le
        _ = 2 ^ (format.precision - 1) * 2 ^ (exponent + 1) := by
            rw [two_zpow_succ]
            ring
        _ ≤ 2 ^ (format.precision - 1) * 2 ^ format.maxExponent :=
            mul_le_mul_of_nonneg_left (two_zpow_le hless) (by positivity)
    have hhalf : (2 : ℚ) ^ (format.precision - 1) ≤ ((2 ^ format.precision - 2 : Nat) : ℚ) := by
      have hnat : 2 ^ (format.precision - 1) ≤ 2 ^ format.precision - 2 := by
        cases format <;> decide
      exact_mod_cast hnat
    have := mul_le_mul_of_nonneg_right hhalf (two_zpow_pos format.maxExponent).le
    linarith
  subst hexponent
  have hsignificand : 2 ^ format.precision - 2 < significand := by
    exact_mod_cast lt_of_mul_lt_mul_right habove (two_zpow_pos _).le
  rw [Magnitude.largest, show significand = 2 ^ format.precision - 1 by omega]

end

end Floating
end VideoConfig
