import VideoConfig.Proofs.Coercion.Comparison
import VideoConfig.Proofs.Coercion.Forms
import VideoConfig.Proofs.Floating.Hexadecimal

/-!
# Ranges of floating-point kinds

A number is refused for `binary64` exactly if it is above the largest finite number there, whatever
it would be rounded to. The check for `binary32` is made on the number as it is rounded to
`binary64`, and so it lets pass what is rounded to the largest finite number of `binary32` from
above.
-/

namespace VideoConfig

open Floating

/-!
## The largest numbers

The largest finite number of `binary32` is one that `binary64` stores. What a numeral is
rounded as is not above its value, and not below half of it.
-/

def Floating.Format.limit : Format -> ℚ
  | .binary32 => (2 ^ 24 - 1) * 2 ^ 104
  | .binary64 => (2 ^ 53 - 1) * 2 ^ 971

theorem limit_binary64 :
    ((2 ^ (53 : Nat) - 1 : Nat) : ℚ) * 2 ^ (971 : Int) = Format.binary64.limit := by
  rw [Format.limit, Nat.cast_sub Nat.one_le_two_pow, zpow_ofNat]
  push_cast
  rfl

theorem limit_binary32 :
    ((2 ^ (53 : Nat) - 2 ^ (29 : Nat) : Nat) : ℚ) * 2 ^ (75 : Int) = Format.binary32.limit := by
  rw [Format.limit]
  norm_num

namespace Numeral

variable {numeral : Numeral}

theorem value_nonneg (numeral : Numeral) : 0 ≤ numeral.value := by
  unfold value scaled
  positivity

theorem kept_of_ten (hbase : numeral.base = .ten) : numeral.kept = numeral.value := by
  unfold kept
  rw [hbase]

theorem kept_bounds (numeral : Numeral) :
    numeral.kept ≤ numeral.value ∧ numeral.value ≤ 2 * numeral.kept := by
  cases hbase : numeral.base with
  | ten =>
      have hnonneg := numeral.value_nonneg
      rw [kept_of_ten hbase]
      exact ⟨le_rfl, by linarith⟩
  | sixteen =>
      have hleads := HexLiteral.leads_value hbase
      rw [HexLiteral.kept_eq hbase]
      generalize (HexLiteral.digitsOf numeral).bits = bits at hleads ⊢
      refine ⟨hleads.low, ?_⟩
      rcases Nat.eq_zero_or_pos bits with rfl | hpos
      · rw [hleads.eq_zero, Nat.cast_zero, zero_mul, mul_zero]
      · have hone : (1 : ℚ) ≤ bits := by exact_mod_cast hpos
        have htwice := mul_le_mul_of_nonneg_right hone
          (two_zpow_pos (HexLiteral.weight numeral)).le
        have hhigh := hleads.high
        linarith

end Numeral

namespace Coercion

/-!
## Readings of numerals

The check for `binary64` is exact: only what is rounded to the largest number is compared
digit by digit, and nothing else could be above it. Far from zero a numeral is rounded once.
-/

structure Reading.Reads (reading : Reading) (numeral : Numeral) : Prop where
  inRange_iff : reading.InRange .binary64 <-> numeral.value ≤ Format.binary64.limit
  atMost_iff : forall {significand : Nat} {exponent : Int},
    Format.binary64.Stores significand exponent -> 72 ≤ exponent ->
      (reading.magnitude.AtMost (significand * 2 ^ exponent) <->
        RoundsToAtMost numeral.kept significand exponent)

theorem stores_largest : Format.binary64.Stores (2 ^ (53 : Nat) - 1) 971 :=
  stores_below_power (by decide : -1021 ≤ (1024 : Int) ∧ (1024 : Int) ≤ 1024)

theorem exceeds_largestDigits_iff {literal : Literal} {body : List Char}
    (h : literal.numeral.BodyText body) :
    exceeds body largestDigits = true <-> Format.binary64.limit < literal.numeral.value := by
  have hcast (bits n : Nat) : (((2 ^ bits - 1) * 2 ^ n : Nat) : ℚ) = (2 ^ bits - 1) * 2 ^ n := by
    rw [Nat.cast_mul, Nat.cast_sub Nat.one_le_two_pow, Nat.cast_pow, Nat.cast_pow, Nat.cast_ofNat,
      Nat.cast_one]
  have hnumber : (Base.ten.number largestDigits : ℚ) = Format.binary64.limit := by
    rw [largestDigits, Base.number_decimalDigits]
    exact hcast 53 971
  have hhead : largestDigits.head? = some '1' := by decide +kernel
  have hne : largestDigits ≠ [] := by
    intro hnil
    rw [hnil] at hhead
    cases hhead
  rw [← hnumber]
  refine exceeds_iff h (Base.isRow_decimalDigits _) hne ?_
  rw [hhead]
  decide

theorem nearest_eq_largest {literal : Literal} {body : List Char}
    (h : literal.numeral.BodyText body) (habove : Format.binary64.limit < literal.numeral.value)
    (hfinite : (literal.nearest .binary64).isFinite = true) :
    literal.nearest .binary64 = .largest .binary64 := by
  have hprevious : Format.binary64.Stores (2 ^ (53 : Nat) - 2) 971 :=
    ⟨by decide, Or.inl (by decide), by decide, by decide⟩
  have hnotPrevious : ¬ (literal.nearest .binary64).AtMost
      ((2 ^ (53 : Nat) - 2 : Nat) * 2 ^ (971 : Int)) := by
    rw [Literal.nearest_atMost_iff h.isRow hprevious]
    intro hrounds
    have hlt := hrounds.lt_succ
    rw [← Nat.cast_add_one] at hlt
    exact habove.not_gt (hlt.trans_eq limit_binary64)
  cases hnearest : literal.nearest .binary64 with
  | finite significand exponent =>
      rw [hnearest] at hnotPrevious
      exact (Literal.nearest_stores h.isRow hnearest).eq_largest (not_le.mp hnotPrevious)
  | infinite =>
      rw [hnearest] at hfinite
      cases hfinite
  | nan =>
      rw [hnearest] at hfinite
      cases hfinite

theorem reads_ofLiteral {literal : Literal} {body : List Char}
    (h : literal.numeral.BodyText body) :
    (Reading.ofLiteral literal false body).Reads literal.numeral := by
  have hkept : literal.numeral.kept = literal.numeral.value := Numeral.kept_of_ten rfl
  refine ⟨?_, fun hstores _ => hkept ▸ Literal.nearest_atMost_iff h.isRow hstores⟩
  constructor
  · rintro ⟨habove, hfinite⟩
    by_contra hnot
    have hlt := not_le.mp hnot
    have hlargest := nearest_eq_largest h hlt hfinite
    unfold Reading.ofLiteral at habove
    dsimp only at habove
    rw [hlargest, (exceeds_largestDigits_iff h).mpr hlt] at habove
    cases habove
  · intro hle
    have hatMost : (literal.nearest .binary64).AtMost
        ((2 ^ (53 : Nat) - 1 : Nat) * 2 ^ (971 : Int)) := by
      rw [Literal.nearest_atMost_iff h.isRow stores_largest]
      exact roundsToAtMost_of_le (hle.trans limit_binary64.ge)
    rcases hatMost.exists_finite with ⟨significand, exponent, hfinite, _⟩
    have hexceeds : exceeds body largestDigits = false := by
      rw [Bool.eq_false_iff, ne_eq, exceeds_largestDigits_iff h, not_lt]
      exact hle
    refine ⟨?_, ?_⟩
    · unfold Reading.ofLiteral
      dsimp only
      rw [hexceeds, Bool.and_false]
    · unfold Reading.ofLiteral
      dsimp only
      rw [hfinite]
      rfl

theorem reads_ofHexLiteral {numeral : Numeral} (hbase : numeral.base = .sixteen)
    (hne : numeral.value ≠ 0) :
    (Reading.ofHexLiteral (HexLiteral.ofNumeral numeral)).Reads numeral := by
  have hleads := HexLiteral.leads_value hbase
  have hbits : (HexLiteral.digitsOf numeral).bits ≠ 0 := by
    intro hzero
    rw [hzero] at hleads
    exact hne hleads.eq_zero
  have habove : (HexLiteral.ofNumeral numeral).exceedsLargest = true <->
      Format.binary64.limit < numeral.value := by
    rw [← limit_binary64]
    exact HexLiteral.exceedsLargest_iff hleads rfl
  have hatMost {significand : Nat} {exponent : Int}
      (hstores : Format.binary64.Stores significand exponent) (hexponent : 72 ≤ exponent) :
      (HexLiteral.ofNumeral numeral).magnitude.AtMost (significand * 2 ^ exponent) <->
        RoundsToAtMost numeral.kept significand exponent := by
    rw [HexLiteral.kept_eq hbase]
    exact HexLiteral.magnitude_atMost_iff hbits hleads.bits_lt rfl hstores hexponent
  refine ⟨?_, hatMost⟩
  constructor
  · rintro ⟨hnot, _⟩
    rw [← not_lt, ← habove]
    exact Bool.eq_false_iff.mp hnot
  · intro hle
    have hkept := (numeral.kept_bounds.left.trans hle).trans limit_binary64.ge
    have hlargest := (hatMost stores_largest (by decide)).mpr (roundsToAtMost_of_le hkept)
    rcases hlargest.exists_finite with ⟨significand, exponent, hfinite, _⟩
    refine ⟨?_, ?_⟩
    · unfold Reading.ofHexLiteral
      rw [Bool.eq_false_iff, ne_eq, habove, not_lt]
      exact hle
    · unfold Reading.ofHexLiteral
      dsimp only
      rw [hfinite]
      rfl

theorem exists_reads {numeral : Numeral} {negative : Bool} {token : List Char}
    (hwritten : numeral.SignedAs negative token) (hne : numeral.value ≠ 0) :
    exists reading, reading? (Text.splitSign token).2 = some reading ∧ reading.Reads numeral := by
  rcases hwritten with ⟨text, hwritten, hsigned⟩
  rw [Text.splitSign_of_signed hwritten.unsigned hsigned]
  cases hbase : numeral.base with
  | ten =>
      have hbody := (Numeral.writtenAs_ten_iff hbase).mp hwritten
      have hnumeral : (⟨numeral.whole, numeral.fraction, numeral.exponent⟩ : Literal).numeral =
          numeral := by
        rw [Literal.numeral, ← hbase]
      rw [← hnumeral] at hbody
      rw [reading?_decimal fun c hc => hbody.isLiteralCharacter rfl hc]
      exact ⟨_, ofDecimal?_eq_some_iff.mpr ⟨_, false, text, hbody, Signed.bare, rfl⟩,
        hnumeral ▸ reads_ofLiteral hbody⟩
  | sixteen =>
      rcases hwritten with ⟨head, body, hhead, hbody, rfl⟩
      rw [hbase] at hhead
      rw [reading?_hexadecimal hhead,
        HexLiteral.read?_eq_some_iff.mpr ⟨numeral, hbase, hbody, rfl⟩]
      exact ⟨_, rfl, reads_ofHexLiteral hbase hne⟩

/-!
## Values and what is out of range
-/

/-- The check for `binary32` is that of the number rounded to `binary64`, where half a unit above
the largest number still goes down to it. -/
theorem Reading.Reads.inRange_binary32_iff {reading : Reading} {numeral : Numeral}
    (h : reading.Reads numeral) :
    reading.InRange .binary32 <-> numeral.kept ≤ Format.binary32.limit + 2 ^ 74 := by
  have hstores : Format.binary64.Stores (2 ^ (53 : Nat) - 2 ^ (29 : Nat)) 75 :=
    ⟨by decide, Or.inl (by decide), by decide, by decide⟩
  have hmiddle : (((2 ^ (53 : Nat) - 2 ^ (29 : Nat) : Nat) : ℚ) + 1 / 2) * 2 ^ (75 : Int) =
      Format.binary32.limit + 2 ^ 74 := by
    rw [add_mul, limit_binary32]
    norm_num
  have heven : Even (2 ^ (53 : Nat) - 2 ^ (29 : Nat)) := by decide
  have hlimit : ((2 ^ 24 - 1 : Nat) : ℚ) * 2 ^ (104 : Int) = Format.binary32.limit := by
    rw [Format.limit]
    norm_num
  have hmagnitude := h.atMost_iff hstores (by decide)
  rw [limit_binary32, RoundsToAtMost, hmiddle, and_iff_left heven, ← le_iff_lt_or_eq] at hmagnitude
  unfold Reading.InRange
  dsimp only
  rw [hlimit, hmagnitude]
  refine ⟨And.right, fun hle => ⟨?_, hle⟩⟩
  -- So small a number is far from the largest one of the other format.
  have hfar : 2 * (Format.binary32.limit + 2 ^ 74) ≤ Format.binary64.limit :=
    calc 2 * (Format.binary32.limit + 2 ^ 74) ≤ 2 ^ 200 := by
          rw [Format.limit]
          norm_num
      _ ≤ 2 ^ 971 := pow_le_pow_right₀ (by norm_num) (by decide)
      _ ≤ Format.binary64.limit := le_mul_of_one_le_left (by positivity) (by norm_num)
  have hvalue := numeral.kept_bounds.right
  exact (h.inRange_iff.mpr (by linarith)).left

theorem exists_reads_settles {numeral : Numeral} {negative : Bool} {text : String}
    (hwritten : numeral.SignedAs negative (Text.trim text.toList)) (hne : numeral.value ≠ 0) :
    exists reading : Reading, reading.Reads numeral ∧ forall format,
      ((exists value, coerceValue text (.scalar (.float format)) .value = .ok value) <->
          reading.InRange format) ∧
        (coerceValue text (.scalar (.float format)) .value =
            .error (.outOfRange (String.ofList (Text.trim text.toList)) (.scalar (.float format))) <->
          ¬ reading.InRange format) := by
  rcases exists_reads hwritten hne with ⟨reading, hread, hreads⟩
  refine ⟨reading, hreads, fun format => ?_⟩
  have htoken : Text.trim text.toList ≠ [] := by
    intro hnil
    rw [hnil] at hwritten
    exact not_read_nil (Or.inl ⟨numeral, negative, hwritten⟩)
  rw [coerceValue, valueOfChars_float, if_neg htoken]
  by_cases hrange : reading.InRange format
  · rcases number_of_inRange hread hrange with ⟨value, hvalue⟩
    rw [hvalue]
    exact ⟨iff_of_true ⟨value, rfl⟩ hrange, iff_of_false (by simp) (not_not.mpr hrange)⟩
  · rw [number_of_not_inRange hread hrange]
    exact ⟨iff_of_false (by simp) hrange, iff_of_true rfl hrange⟩

end Coercion

/-- The check for `binary64` is exact: a numeral is refused as out of range exactly if it is above
the largest finite number, by however little. -/
theorem binary64_range_exact {numeral : Numeral} {negative : Bool} {text : String}
    (hwritten : numeral.SignedAs negative (Text.trim text.toList)) (hne : numeral.value ≠ 0) :
    ((exists value, coerceValue text .f64 .value = .ok value) <->
        numeral.value ≤ Format.binary64.limit) ∧
      (coerceValue text .f64 .value =
          .error (.outOfRange (String.ofList (Text.trim text.toList)) .f64) <->
        Format.binary64.limit < numeral.value) := by
  rcases Coercion.exists_reads_settles hwritten hne with ⟨reading, hreads, hsettles⟩
  rw [← not_le, ← hreads.inRange_iff]
  exact hsettles .binary64

/-- A quarter of a unit above the largest number, which would be rounded down to it. -/
theorem binary64_range_exact_quarter :
    let numeral : Numeral :=
      { base := .sixteen, whole := ['1'], fraction := "fffffffffffff4".toList, exponent := 1023 }
    numeral.SignedAs false "0x1.fffffffffffff4p1023".toList ∧ numeral.value ≠ 0 ∧
      Format.binary64.limit < numeral.value ∧
      coerceValue "0x1.fffffffffffff4p1023" .f64 .value =
        .error (.outOfRange "0x1.fffffffffffff4p1023" .f64) := by
  intro numeral
  have hwritten : numeral.SignedAs false "0x1.fffffffffffff4p1023".toList := by
    refine ⟨_, ⟨['0', 'x'], "1.fffffffffffff4p1023".toList, by decide, ?_, rfl⟩, Signed.bare⟩
    exact (Numeral.bodyText_iff HexLiteral.isExponentMark_iff).mpr
      ⟨rfl, rfl, by decide, by decide⟩
  have hvalue : numeral.value = 0x1fffffffffffff4 / 16 ^ 14 * 2 ^ 1023 := by
    have hnumber : numeral.base.number (numeral.whole ++ numeral.fraction) = 0x1fffffffffffff4 := by
      decide +kernel
    rw [Numeral.value, hnumber]
    simp [numeral, Numeral.scaled, Base.radix, Base.unit, zpow_ofNat]
  have habove : Format.binary64.limit < numeral.value := by
    have hsplit : (2 : ℚ) ^ 1023 = 2 ^ 52 * 2 ^ 971 := pow_add 2 52 971
    rw [hvalue, Format.limit, hsplit, ← mul_assoc]
    exact mul_lt_mul_of_pos_right (by norm_num) (by positivity)
  have hne : numeral.value ≠ 0 := by
    rw [hvalue]
    positivity
  have htrim : Text.trim "0x1.fffffffffffff4p1023".toList = "0x1.fffffffffffff4p1023".toList := by
    decide
  exact ⟨hwritten, hne, habove, (binary64_range_exact (htrim.symm ▸ hwritten) hne).right.mpr habove⟩

/-- The check for `binary32` is exact for the number as it is rounded to `binary64`: half a unit of
that above the largest finite number is let pass, and digits in base sixteen behind the first 31 do
not count. -/
theorem binary32_range_settles {numeral : Numeral} {negative : Bool} {text : String}
    (hwritten : numeral.SignedAs negative (Text.trim text.toList)) (hne : numeral.value ≠ 0) :
    ((exists value, coerceValue text .f32 .value = .ok value) <->
        numeral.kept ≤ Format.binary32.limit + 2 ^ 74) ∧
      (coerceValue text .f32 .value =
          .error (.outOfRange (String.ofList (Text.trim text.toList)) .f32) <->
        Format.binary32.limit + 2 ^ 74 < numeral.kept) ∧
      (numeral.value ≤ Format.binary32.limit ->
        exists value, coerceValue text .f32 .value = .ok value) := by
  rcases Coercion.exists_reads_settles hwritten hne with ⟨reading, hreads, hsettles⟩
  rcases hsettles .binary32 with ⟨hok, hrefused⟩
  rw [hreads.inRange_binary32_iff] at hok hrefused
  rw [not_le] at hrefused
  refine ⟨hok, hrefused, fun hle => hok.mpr ?_⟩
  have hunit : (0 : ℚ) ≤ 2 ^ 74 := by positivity
  exact (numeral.kept_bounds.left.trans hle).trans (le_add_of_nonneg_right hunit)

/-- The digits by which the largest number is often told are above it by more than half a unit. -/
theorem binary32_range_settles_rounded :
    let numeral : Numeral :=
      { base := .ten, whole := ['3'], fraction := "4028235".toList, exponent := 38 }
    numeral.SignedAs true "-3.4028235e38".toList ∧ numeral.value ≠ 0 ∧
      coerceValue "-3.4028235e38" .f32 .value = .error (.outOfRange "-3.4028235e38" .f32) := by
  intro numeral
  have hwritten : numeral.SignedAs true "-3.4028235e38".toList := by
    refine ⟨"3.4028235e38".toList, (Numeral.writtenAs_ten_iff rfl).mpr ?_, Signed.minus⟩
    exact (Numeral.bodyText_iff Literal.isExponentMark_iff).mpr
      ⟨rfl, rfl, by decide, by decide⟩
  have hvalue : numeral.value = 34028235 / 10 ^ 7 * 10 ^ 38 := by
    have hnumber : numeral.base.number (numeral.whole ++ numeral.fraction) = 34028235 := by
      decide +kernel
    rw [Numeral.value, hnumber]
    simp [numeral, Numeral.scaled, Base.radix, Base.unit, zpow_ofNat]
  have hne : numeral.value ≠ 0 := by
    rw [hvalue]
    positivity
  have habove : Format.binary32.limit + 2 ^ 74 < numeral.kept := by
    rw [Numeral.kept_of_ten rfl, hvalue, Format.limit]
    norm_num
  have htrim : Text.trim "-3.4028235e38".toList = "-3.4028235e38".toList := by
    decide
  exact ⟨hwritten, hne,
    (binary32_range_settles (htrim.symm ▸ hwritten) hne).right.left.mpr habove⟩

namespace AboveLargest

/-- The number one above the largest finite one of `binary32` is read as that. -/
theorem one_above_read :
    let text := "340282346638528859811704183484516925441"
    let numeral : Numeral := { base := .ten, whole := text.toList, fraction := [], exponent := 0 }
    numeral.SignedAs false text.toList ∧ Format.binary32.limit < numeral.value ∧
      coerceValue text .f32 .value = .ok (.float .binary32 0x7f7fffff) := by
  intro text numeral
  have hwritten : numeral.SignedAs false text.toList := by
    refine ⟨_, (Numeral.writtenAs_ten_iff rfl).mpr ?_, Signed.bare⟩
    exact (Numeral.bodyText_iff Literal.isExponentMark_iff).mpr
      ⟨by decide, by decide, by decide, by decide⟩
  have hvalue : numeral.value = 340282346638528859811704183484516925441 := by
    have hnumber : numeral.base.number (numeral.whole ++ numeral.fraction) =
        340282346638528859811704183484516925441 := by
      decide +kernel
    rw [Numeral.value, hnumber]
    simp [numeral, Numeral.scaled]
  refine ⟨hwritten, ?_, by decide +kernel⟩
  rw [hvalue, Format.limit]
  norm_num

end AboveLargest
end VideoConfig
