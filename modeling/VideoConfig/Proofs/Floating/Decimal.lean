import Mathlib.Tactic.NormNum
import VideoConfig.Proofs.Floating.Rounding
import VideoConfig.Proofs.Numeral.Reading

/-!
# Rounding of decimal literals

A decimal literal is rounded as the exact number that it denotes. Where the position of its
first digit alone tells that the number is out of reach of every format, the rounding would
give the same. The position of the first digit tells between which powers of ten a literal
lies, and every finite magnitude but zero lies between two of them.
-/

namespace VideoConfig
namespace Floating

theorem ten_zpow_pos (exponent : Int) : (0 : ℚ) < 10 ^ exponent :=
  zpow_pos (by norm_num) exponent

theorem ten_zpow_le {low high : Int} (h : low ≤ high) : (10 : ℚ) ^ low ≤ 10 ^ high :=
  zpow_le_zpow_right₀ (by norm_num) h

theorem two_zpow_le_ten_zpow (n : Nat) : (2 : ℚ) ^ (3 * n : Int) ≤ 10 ^ (n : Int) := by
  rw [zpow_mul, zpow_natCast, zpow_natCast]
  exact pow_le_pow_left₀ (by norm_num) (by norm_num) n

theorem limit_le_ten_zpow (format : Format) :
    (2 : ℚ) ^ format.precision * 2 ^ format.maxExponent ≤ 10 ^ (400 : Int) := by
  refine le_trans ?_ (two_zpow_le_ten_zpow 400)
  rw [← zpow_natCast, ← zpow_add₀ (by norm_num)]
  exact two_zpow_le (by cases format <;> decide)

theorem ten_zpow_lt_least (format : Format) :
    (10 : ℚ) ^ (-401 : Int) < 1 / 2 * 2 ^ format.minExponent := by
  have hpower : (2 : ℚ) ^ (-1203 : Int) < 1 / 2 * 2 ^ format.minExponent := by
    have hexponent : (-1202 : Int) < format.minExponent := by cases format <;> decide
    have hlt : (2 : ℚ) ^ (-1202 : Int) < 2 ^ format.minExponent :=
      (zpow_lt_zpow_iff_right₀ (by norm_num)).mpr hexponent
    have hhalf := two_zpow_succ (-1203)
    rw [show (-1203 : Int) + 1 = -1202 by norm_num] at hhalf
    linarith
  refine lt_of_le_of_lt ?_ hpower
  have hle := two_zpow_le_ten_zpow 401
  rw [zpow_neg, show (-1203 : Int) = -(3 * (401 : Nat)) by norm_num, zpow_neg]
  exact inv_anti₀ (two_zpow_pos _) hle

theorem number_bounds {row : List Char} (hrow : Base.ten.IsRow row) (hne : row ≠ [])
    (hhead : row.head? ≠ some '0') :
    (10 : ℚ) ^ ((row.length : Int) - 1) ≤ Base.ten.number row ∧
      (Base.ten.number row : ℚ) < 10 ^ (row.length : Int) := by
  rcases List.exists_cons_of_ne_nil hne with ⟨c, rest, rfl⟩
  have hc : c ≠ '0' := fun hzero => hhead (congrArg some hzero)
  have hdigit := Base.ten_digit_ne_zero (hrow c List.mem_cons_self) hc
  constructor
  · rw [List.length_cons, Nat.cast_succ, add_sub_cancel_right, zpow_natCast]
    exact_mod_cast Base.le_number_cons .ten rest hdigit
  · rw [zpow_natCast]
    exact_mod_cast Base.number_lt .ten (c :: rest)

namespace Literal

variable {literal : Literal}

def position (literal : Literal) : Int :=
  literal.significant.length + literal.scale

theorem value_eq (literal : Literal) :
    literal.numeral.value = Base.ten.number literal.significant * 10 ^ literal.scale := by
  have hdigits : Base.ten.number literal.significant =
      Base.ten.number (literal.whole ++ literal.fraction) :=
    Base.number_dropWhile_zero _ _
  have hscale : (10 : ℚ) ^ literal.scale = 10 ^ literal.exponent / 10 ^ literal.fraction.length := by
    rw [scale, zpow_sub₀ (by norm_num), zpow_natCast]
  rw [hdigits, hscale]
  unfold Numeral.value Numeral.scaled numeral
  simp only [Base.radix, Base.unit, Nat.cast_ofNat]
  ring

theorem isRow_significant (h : Base.ten.IsRow (literal.whole ++ literal.fraction)) :
    Base.ten.IsRow literal.significant :=
  fun c hc => h c ((List.dropWhile_sublist _).mem hc)

theorem significant_head (literal : Literal) : literal.significant.head? ≠ some '0' := by
  have hhead := List.head?_dropWhile_not (· == '0') (literal.whole ++ literal.fraction)
  unfold significant
  intro hzero
  rw [hzero] at hhead
  cases hhead

theorem value_bounds (h : Base.ten.IsRow (literal.whole ++ literal.fraction))
    (hne : literal.significant ≠ []) :
    (10 : ℚ) ^ (literal.position - 1) ≤ literal.numeral.value ∧
      literal.numeral.value < 10 ^ literal.position := by
  rcases number_bounds (isRow_significant h) hne literal.significant_head with ⟨hlow, hhigh⟩
  have hpos := ten_zpow_pos literal.scale
  rw [value_eq, position]
  constructor
  · rw [add_sub_right_comm, zpow_add₀ (by norm_num)]
    exact mul_le_mul_of_nonneg_right hlow hpos.le
  · rw [zpow_add₀ (by norm_num)]
    exact mul_lt_mul_of_pos_right hhigh hpos

theorem quotient_eq (h : Base.ten.IsRow (literal.whole ++ literal.fraction)) :
    ((Text.ofDecimalDigits literal.significant * 10 ^ literal.scale.toNat : Nat) : ℚ) /
        (10 ^ (-literal.scale).toNat : Nat) = literal.numeral.value := by
  rw [value_eq, Base.ofDecimalDigits_eq (isRow_significant h)]
  rcases literal.scale.eq_nat_or_neg with ⟨n, hscale | hscale⟩
  · rw [hscale, Int.toNat_natCast, Int.toNat_neg_natCast, zpow_natCast]
    push_cast
    ring
  · rw [hscale, neg_neg, Int.toNat_natCast, Int.toNat_neg_natCast, zpow_neg, zpow_natCast]
    push_cast
    ring

/-- A literal is rounded as the number that it denotes, wherever that lies. -/
theorem nearest_eq (h : Base.ten.IsRow (literal.whole ++ literal.fraction)) (format : Format) :
    literal.nearest format =
      Floating.nearest format (Text.ofDecimalDigits literal.significant * 10 ^ literal.scale.toNat)
        (10 ^ (-literal.scale).toNat) := by
  have hden : 0 < 10 ^ (-literal.scale).toNat := Nat.pow_pos (by decide)
  have hquotient := quotient_eq h
  unfold Literal.nearest
  dsimp only
  split
  · next hnil =>
      have hzero : Text.ofDecimalDigits [] = 0 := rfl
      rw [hnil, hzero, Nat.zero_mul]
      exact (if_pos rfl).symm
  · next hne =>
      rcases value_bounds h hne with ⟨hlow, hhigh⟩
      split
      · next hfar =>
          have hposition : (400 : Int) < literal.position := hfar
          refine (nearest_eq_infinite hden ?_).symm
          rw [hquotient]
          exact (limit_le_ten_zpow format).trans ((ten_zpow_le (by omega)).trans hlow)
      · split
        · next hnear =>
            have hposition : literal.position < (-400 : Int) := hnear
            refine (nearest_eq_zero hden ?_).symm
            rw [hquotient]
            exact (hhigh.trans_le (ten_zpow_le (by omega))).trans (ten_zpow_lt_least format)
        · rfl

theorem nearest_atMost_iff {format : Format} {significand : Nat} {exponent : Int}
    (h : Base.ten.IsRow (literal.whole ++ literal.fraction))
    (hstores : format.Stores significand exponent) :
    (literal.nearest format).AtMost (significand * 2 ^ exponent) <->
      RoundsToAtMost literal.numeral.value significand exponent := by
  rw [nearest_eq h, Floating.nearest_atMost_iff (Nat.pow_pos (by decide)) hstores, quotient_eq h]

theorem nearest_stores {format : Format} {significand : Nat} {exponent : Int}
    (h : Base.ten.IsRow (literal.whole ++ literal.fraction))
    (hnearest : literal.nearest format = .finite significand exponent) :
    format.Stores significand exponent := by
  rw [nearest_eq h] at hnearest
  exact Floating.nearest_stores (Nat.pow_pos (by decide)) hnearest

end Literal

end Floating
end VideoConfig
