import Mathlib.Tactic.NormNum
import VideoConfig.Proofs.Floating.Rounding

/-!
# Scaling by powers of two

A product with a power of two is exact as long as the result has all its bits. So a scaled
magnitude is compared with a point as the magnitude itself is with the point scaled back,
and factors up to one never make a magnitude larger than a point that it did not pass
before. Where a number has few bits this rests on one fact: if it passes a point with all
its bits, it reaches the next one.
-/

namespace VideoConfig
namespace Floating

def Format.Holds (format : Format) (magnitude : Magnitude) : Prop :=
  forall significand exponent, magnitude = .finite significand exponent ->
    format.Stores significand exponent

section

variable {format : Format} {significand bound : Nat} {exponent boundExponent : Int}
  {magnitude factor : Magnitude}

theorem Magnitude.AtMost.trans {low high : ℚ} (h : magnitude.AtMost low) (hle : low ≤ high) :
    magnitude.AtMost high := by
  cases magnitude with
  | finite _ _ =>
      exact le_trans h hle
  | infinite =>
      exact h
  | nan =>
      exact h

theorem Magnitude.AtMost.exists_finite {bound : ℚ} (h : magnitude.AtMost bound) :
    exists significand exponent, magnitude = .finite significand exponent ∧
      (significand : ℚ) * 2 ^ exponent ≤ bound := by
  cases magnitude with
  | finite significand exponent =>
      exact ⟨significand, exponent, rfl, h⟩
  | infinite =>
      cases h
  | nan =>
      cases h

theorem succ_mul_le (hlt : significand < 2 ^ format.precision)
    (hfull : 2 ^ (format.precision - 1) ≤ bound)
    (h : (bound : ℚ) * 2 ^ boundExponent < significand * 2 ^ exponent) :
    ((bound : ℚ) + 1) * 2 ^ boundExponent ≤ significand * 2 ^ exponent := by
  rcases lt_or_ge exponent boundExponent with hbelow | hle
  · -- The finer grid ends below the point.
    have hltCast : (significand : ℚ) < 2 ^ format.precision := by exact_mod_cast hlt
    have hfullCast : (2 : ℚ) ^ (format.precision - 1) ≤ bound := by exact_mod_cast hfull
    have hend : (significand : ℚ) * 2 ^ exponent < bound * 2 ^ boundExponent :=
      calc (significand : ℚ) * 2 ^ exponent
          < 2 ^ format.precision * 2 ^ exponent :=
            mul_lt_mul_of_pos_right hltCast (two_zpow_pos _)
        _ = 2 ^ (format.precision - 1) * 2 ^ (exponent + 1) := by
            rw [two_pow_precision, two_zpow_succ]
            ring
        _ ≤ bound * 2 ^ boundExponent :=
            mul_le_mul hfullCast (two_zpow_le hbelow) (two_zpow_pos _).le (Nat.cast_nonneg _)
    exact absurd h hend.not_gt
  · have hsplit : (2 : ℚ) ^ exponent =
        (2 ^ (exponent - boundExponent).toNat : Nat) * 2 ^ boundExponent := by
      rw [Nat.cast_pow, Nat.cast_ofNat, ← zpow_natCast, ← zpow_add₀ (by norm_num)]
      congr 1
      omega
    have hpos := two_zpow_pos boundExponent
    rw [hsplit, ← mul_assoc] at h ⊢
    refine mul_le_mul_of_nonneg_right ?_ hpos.le
    exact_mod_cast lt_of_mul_lt_mul_right h hpos.le

theorem roundsToAtMost_iff_le (hlt : significand < 2 ^ format.precision)
    (hfull : 2 ^ (format.precision - 1) ≤ bound) :
    RoundsToAtMost (significand * 2 ^ exponent) bound boundExponent <->
      (significand : ℚ) * 2 ^ exponent ≤ bound * 2 ^ boundExponent := by
  have hpos := two_zpow_pos boundExponent
  constructor
  · intro h
    by_contra hnot
    have hnext := succ_mul_le hlt hfull (not_le.mp hnot)
    rcases h with h | ⟨h, _⟩ <;> linarith
  · intro h
    exact Or.inl (h.trans_lt (mul_lt_mul_of_pos_right (by linarith) hpos))

theorem roundsToAtMost_of_le {x : ℚ} (h : x ≤ bound * 2 ^ boundExponent) :
    RoundsToAtMost x bound boundExponent :=
  Or.inl (h.trans_lt (mul_lt_mul_of_pos_right (by linarith) (two_zpow_pos _)))

theorem RoundsToAtMost.lt_succ {x : ℚ} (h : RoundsToAtMost x bound boundExponent) :
    x < (bound + 1) * 2 ^ boundExponent := by
  have hpos := two_zpow_pos boundExponent
  rcases h with h | ⟨h, _⟩ <;> linarith

theorem roundsToAtMost_mul_zpow {x : ℚ} (n : Int) :
    RoundsToAtMost (x * 2 ^ n) bound boundExponent <->
      RoundsToAtMost x bound (boundExponent - n) := by
  have hpos := two_zpow_pos n
  unfold RoundsToAtMost
  rw [zpow_sub₀ (by norm_num), ← mul_div_assoc, lt_div_iff₀ hpos, eq_div_iff hpos.ne']

theorem holds_nearest {num den : Nat} (hden : 0 < den) : format.Holds (nearest format num den) :=
  fun _ _ h => nearest_stores hden h

theorem nearestScaled_atMost_iff (h : format.Stores bound boundExponent) :
    (nearestScaled format significand exponent).AtMost (bound * 2 ^ boundExponent) <->
      RoundsToAtMost (significand * 2 ^ exponent) bound boundExponent := by
  have hden := scaleQuotient_den_pos significand Nat.one_pos exponent
  have hvalue := scaleQuotient_value significand 1 exponent
  rw [Nat.cast_one, div_one] at hvalue
  unfold nearestScaled
  rw [nearest_atMost_iff hden h, hvalue]

theorem holds_nearestScaled : format.Holds (nearestScaled format significand exponent) :=
  holds_nearest (scaleQuotient_den_pos _ Nat.one_pos _)

theorem holds_multiply : format.Holds (multiply format magnitude factor) := by
  intro _ _ h
  unfold multiply at h
  split at h
  · exact holds_nearestScaled _ _ h
  · cases h
  · cases h
  · split at h <;> cases h
  · split at h <;> cases h
  · cases h

theorem multiply_atMost (h : format.Stores bound boundExponent)
    (hmagnitude : magnitude.AtMost (bound * 2 ^ boundExponent)) (hfactor : factor.AtMost 1) :
    (multiply format magnitude factor).AtMost (bound * 2 ^ boundExponent) := by
  rcases hmagnitude.exists_finite with ⟨m, d, rfl, hm⟩
  rcases hfactor.exists_finite with ⟨n, e, rfl, hn⟩
  have hproduct : ((m * n : Nat) : ℚ) * 2 ^ (d + e) = m * 2 ^ d * (n * 2 ^ e) := by
    rw [zpow_add₀ (by norm_num)]
    push_cast
    ring
  have hnonneg : (0 : ℚ) ≤ m * 2 ^ d := by
    have := two_zpow_pos d
    positivity
  rw [multiply, nearestScaled_atMost_iff h, hproduct]
  exact roundsToAtMost_of_le ((mul_le_of_le_one_right hnonneg hn).trans hm)

end

/-!
## Powers of two

Those in the range of the format are exact, so a magnitude is compared after the scaling as
it was before. The point before a power of two is not below half of it.
-/

section

variable {magnitude : Magnitude} {n : Int} {significand : Nat} {exponent : Int}

theorem stores_below_power (h : -1021 ≤ n ∧ n ≤ 1024) :
    Format.binary64.Stores (2 ^ (53 : Nat) - 1) (n - 53) := by
  have hmin : Format.binary64.minExponent = -1074 := rfl
  have hmax : Format.binary64.maxExponent = 971 := rfl
  exact ⟨by decide, Or.inl (by decide), by omega, by omega⟩

theorem stores_power (h : -1022 ≤ n ∧ n ≤ 1023) :
    Format.binary64.Stores (2 ^ (52 : Nat)) (n - 52) := by
  have hmin : Format.binary64.minExponent = -1074 := rfl
  have hmax : Format.binary64.maxExponent = 971 := rfl
  exact ⟨by decide, Or.inl (by decide), by omega, by omega⟩

theorem two_zpow_split (n : Int) (bits : Nat) :
    ((2 ^ bits : Nat) : ℚ) * 2 ^ (n - bits) = 2 ^ n := by
  rw [Nat.cast_pow, Nat.cast_ofNat, ← zpow_natCast, ← zpow_add₀ (by norm_num), add_sub_cancel]

theorem below_power_lt (n : Int) : ((2 ^ (53 : Nat) - 1 : Nat) : ℚ) * 2 ^ (n - 53) < 2 ^ n := by
  rw [← two_zpow_split n 53]
  exact mul_lt_mul_of_pos_right (by norm_num) (two_zpow_pos _)

theorem le_below_power (n : Int) :
    (2 : ℚ) ^ (n - 1) ≤ ((2 ^ (53 : Nat) - 1 : Nat) : ℚ) * 2 ^ (n - 53) := by
  have hexponent : n - 1 - (52 : Nat) = n - 53 := by omega
  rw [← two_zpow_split (n - 1) 52, hexponent]
  exact mul_le_mul_of_nonneg_right (by norm_num) (two_zpow_pos _).le

theorem powerOfTwo_eq_nearestScaled (h : -1023 ≤ n) :
    powerOfTwo .binary64 n = nearestScaled .binary64 1 n := by
  have hmax : Format.binary64.maxExponent + Format.binary64.precision = 1024 := rfl
  unfold powerOfTwo
  rw [if_neg (by omega)]

theorem powerOfTwo_eq (h : 0 ≤ n ∧ n ≤ 1023) :
    exists significand exponent, powerOfTwo .binary64 n = .finite significand exponent ∧
      (significand : ℚ) * 2 ^ exponent = 2 ^ n := by
  have hone : ((1 : Nat) : ℚ) * 2 ^ n = 2 ^ n := by rw [Nat.cast_one, one_mul]
  have hatMost : (nearestScaled .binary64 1 n).AtMost ((2 ^ (52 : Nat) : Nat) * 2 ^ (n - 52)) := by
    rw [nearestScaled_atMost_iff (stores_power (by omega)), hone]
    exact roundsToAtMost_of_le (two_zpow_split n 52).ge
  have hnotBelow : ¬ (nearestScaled .binary64 1 n).AtMost
      ((2 ^ (53 : Nat) - 1 : Nat) * 2 ^ (n - 53)) := by
    have hlt : 1 < 2 ^ Format.binary64.precision := by decide
    rw [nearestScaled_atMost_iff (stores_below_power (by omega)),
      roundsToAtMost_iff_le hlt (by decide), hone, not_le]
    exact below_power_lt n
  rcases hatMost.exists_finite with ⟨significand, exponent, heq, hle⟩
  rw [heq] at hnotBelow
  refine ⟨significand, exponent, (powerOfTwo_eq_nearestScaled (by omega)).trans heq, ?_⟩
  refine le_antisymm (hle.trans (two_zpow_split n 52).le) ?_
  have hnext := succ_mul_le (holds_nearestScaled _ _ heq).lt (by decide) (not_le.mp hnotBelow)
  rw [← Nat.cast_add_one] at hnext
  exact (two_zpow_split n 53).ge.trans hnext

theorem powerOfTwo_atMost_one (h : n ≤ 0) : (powerOfTwo .binary64 n).AtMost 1 := by
  have hone : (1 : ℚ) = (2 ^ (52 : Nat) : Nat) * 2 ^ (0 - 52 : Int) := by
    exact (two_zpow_split 0 52).symm
  unfold powerOfTwo
  split
  · rw [Magnitude.zero, Magnitude.AtMost, Nat.cast_zero, zero_mul]
    exact zero_le_one
  · rw [hone, nearestScaled_atMost_iff (stores_power (by decide))]
    refine roundsToAtMost_of_le ?_
    rw [← hone, Nat.cast_one, one_mul]
    exact two_zpow_le h

theorem powerOfTwo_eq_infinite (h : 1024 ≤ n) : powerOfTwo .binary64 n = .infinite := by
  have hvalue := scaleQuotient_value 1 1 n
  rw [Nat.cast_one, div_one, one_mul] at hvalue
  rw [powerOfTwo_eq_nearestScaled (by omega), nearestScaled]
  refine nearest_eq_infinite (scaleQuotient_den_pos _ Nat.one_pos _) ?_
  rw [hvalue, ← zpow_natCast, ← zpow_add₀ (by norm_num)]
  exact two_zpow_le h

theorem multiply_infinite_not_atMost {bound : ℚ} :
    ¬ (multiply .binary64 magnitude .infinite).AtMost bound := by
  cases magnitude with
  | finite significand _ =>
      rw [multiply]
      split <;> exact id
  | infinite =>
      exact id
  | nan =>
      exact id

theorem multiply_powerOfTwo_atMost_iff (hmagnitude : Format.binary64.Holds magnitude)
    (hn : 0 ≤ n ∧ n ≤ 1023) (h : Format.binary64.Stores significand exponent)
    (hfull : 2 ^ (52 : Nat) ≤ significand) :
    (multiply .binary64 magnitude (powerOfTwo .binary64 n)).AtMost (significand * 2 ^ exponent) <->
      magnitude.AtMost (significand * 2 ^ (exponent - n)) := by
  rcases powerOfTwo_eq hn with ⟨p, q, hpower, hvalue⟩
  have hp : p ≠ 0 := by
    rintro rfl
    rw [Nat.cast_zero, zero_mul] at hvalue
    exact (two_zpow_pos n).ne hvalue
  rw [hpower]
  cases magnitude with
  | finite m d =>
      have hproduct : ((m * p : Nat) : ℚ) * 2 ^ (d + q) = m * 2 ^ d * 2 ^ n := by
        rw [← hvalue, zpow_add₀ (by norm_num)]
        push_cast
        ring
      rw [multiply, nearestScaled_atMost_iff h, hproduct, roundsToAtMost_mul_zpow]
      exact roundsToAtMost_iff_le (hmagnitude m d rfl).lt hfull
  | infinite =>
      rw [multiply, if_neg hp]
      exact Iff.rfl
  | nan =>
      exact Iff.rfl

end

end Floating
end VideoConfig
