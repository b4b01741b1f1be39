import VideoConfig.Proofs.Floating.Scaling
import VideoConfig.Proofs.Numeral.Reading

/-!
# Hexadecimal literals and the numbers that they denote

The digits of a hexadecimal literal are taken one by one. After every digit the ones that count,
up to 31 of them, are kept as a number, and it is known what the last of them weighs and whether
a digit behind them was not zero. So the literal is compared exactly with the largest magnitude,
and it is rounded as the number that the digits kept make.
-/

namespace VideoConfig

def surplusDigits (n : Nat) : Nat :=
  Nat.log 16 n - 30

def leadingDigits (n : Nat) : Nat :=
  n / 16 ^ surplusDigits n * 16 ^ surplusDigits n

/-- The number as which a numeral is rounded. -/
def Numeral.kept (numeral : Numeral) : ℚ :=
  match numeral.base with
  | .ten => numeral.value
  | .sixteen =>
      numeral.scaled (leadingDigits (numeral.base.number (numeral.whole ++ numeral.fraction)))

/-!
## Surplus digits

Digits are only left out behind 31 others. Then the weight of the last one is all that
changes, and what is left out is noted.
-/

theorem surplusDigits_eq_zero {n : Nat} (h : n < 16 ^ 31) : surplusDigits n = 0 := by
  have hlog : Nat.log 16 n < 31 := Nat.log_lt_of_lt_pow' (by decide) h
  unfold surplusDigits
  omega

theorem surplusDigits_number_le (row : List Char) :
    surplusDigits (Base.sixteen.number row) ≤ row.length := by
  have hlog : Nat.log 16 (Base.sixteen.number row) ≤ Nat.log 16 (16 ^ row.length) :=
    Nat.log_mono_right (Base.number_lt .sixteen row).le
  rw [Nat.log_pow (by decide)] at hlog
  unfold surplusDigits
  omega

theorem div_surplus_lt (n : Nat) : n / 16 ^ surplusDigits n < 16 ^ 31 := by
  rw [Nat.div_lt_iff_lt_mul (Nat.pow_pos (by decide)), ← Nat.pow_add]
  refine (Nat.lt_pow_succ_log_self (by decide) n).trans_le (Nat.pow_le_pow_right (by decide) ?_)
  unfold surplusDigits
  omega

theorem le_div_surplus {n : Nat} (h : surplusDigits n ≠ 0) : 16 ^ 30 ≤ n / 16 ^ surplusDigits n := by
  have hlog : 30 < Nat.log 16 n := by
    unfold surplusDigits at h
    omega
  have hn : n ≠ 0 := by
    rintro rfl
    rw [Nat.log_zero_right] at hlog
    omega
  rw [Nat.le_div_iff_mul_le (Nat.pow_pos (by decide)), ← Nat.pow_add, surplusDigits,
    Nat.add_sub_cancel' hlog.le]
  exact Nat.pow_log_le_self 16 hn

theorem surplusDigits_push {n digit : Nat} (hn : 16 ^ 30 ≤ n) (hdigit : digit < 16) :
    surplusDigits (16 * n + digit) = surplusDigits n + 1 := by
  have hlog : Nat.log 16 (16 * n + digit) = Nat.log 16 n + 1 := by
    have hdiv : (16 * n + digit) / 16 = n := by omega
    rw [Nat.log_of_one_lt_of_le (by decide) (by omega), hdiv]
  have hfull : 30 ≤ Nat.log 16 n := Nat.le_log_of_pow_le (by decide) hn
  unfold surplusDigits
  omega

namespace Floating

namespace HexDigits

/-- What is known of the digits read so far, given the number that they make without the point
and how many of them stand behind it. -/
structure Keeps (read : HexDigits) (n places : Nat) : Prop where
  bits_eq : read.bits = n / 16 ^ surplusDigits n
  scale_eq : read.scale = 4 * surplusDigits n - 4 * places
  truncated_iff : read.truncated = true <-> n % 16 ^ surplusDigits n ≠ 0

variable {read : HexDigits} {n places digit : Nat} {afterPoint : Bool}

theorem keeps_none : none.Keeps 0 0 := by
  refine ⟨?_, ?_, ?_⟩ <;> simp [none, surplusDigits]

theorem Keeps.no_surplus (h : read.Keeps n places) (hbits : read.bits < 2 ^ (120 : Nat)) :
    surplusDigits n = 0 := by
  by_contra hne
  have hfull := le_div_surplus hne
  rw [← h.bits_eq] at hfull
  exact absurd hbits (not_lt.mpr hfull)

theorem Keeps.push_of_lt (h : read.Keeps n places) (hdigit : digit < 16)
    (hbits : read.bits < 2 ^ (120 : Nat)) :
    (read.push afterPoint digit).Keeps (16 * n + digit)
      (if afterPoint then places + 1 else places) := by
  have hsurplus := h.no_surplus hbits
  have hbitsEq := h.bits_eq
  have hscaleEq := h.scale_eq
  have htruncated := h.truncated_iff
  rw [hsurplus, Nat.pow_zero, Nat.div_one] at hbitsEq
  rw [hsurplus] at hscaleEq
  rw [hsurplus, Nat.pow_zero, Nat.mod_one] at htruncated
  have hnew : surplusDigits (16 * n + digit) = 0 := surplusDigits_eq_zero (by omega)
  unfold HexDigits.push
  rw [if_pos hbits]
  refine ⟨?_, ?_, ?_⟩
  · rw [hnew, Nat.pow_zero, Nat.div_one, hbitsEq]
  · rw [hnew]
    cases afterPoint with
    | true =>
        simp only [if_true]
        omega
    | false =>
        simp only [Bool.false_eq_true, if_false]
        omega
  · rw [hnew, Nat.pow_zero, Nat.mod_one]
    exact htruncated

theorem Keeps.push_of_le (h : read.Keeps n places) (hdigit : digit < 16)
    (hbits : ¬ read.bits < 2 ^ (120 : Nat)) :
    (read.push afterPoint digit).Keeps (16 * n + digit)
      (if afterPoint then places + 1 else places) := by
  have hscaleEq := h.scale_eq
  have hn : 16 ^ 30 ≤ n := by
    have hle : read.bits ≤ n := h.bits_eq ▸ Nat.div_le_self _ _
    exact (not_lt.mp hbits).trans hle
  have hdiv : (16 * n + digit) / 16 = n := by omega
  have hmod : (16 * n + digit) % 16 = digit := by omega
  have hnew := surplusDigits_push hn hdigit
  unfold HexDigits.push
  rw [if_neg hbits]
  refine ⟨?_, ?_, ?_⟩
  · rw [hnew, Nat.pow_succ', ← Nat.div_div_eq_div_mul, hdiv]
    exact h.bits_eq
  · rw [hnew]
    cases afterPoint with
    | true =>
        simp only [if_true]
        omega
    | false =>
        simp only [Bool.false_eq_true, if_false]
        omega
  · dsimp only
    rw [hnew, Nat.pow_succ', Nat.mod_mul, hdiv, hmod, Bool.or_eq_true, h.truncated_iff, bne_iff_ne]
    omega

theorem Keeps.push (h : read.Keeps n places) (hdigit : digit < 16) :
    (read.push afterPoint digit).Keeps (16 * n + digit)
      (if afterPoint then places + 1 else places) := by
  by_cases hbits : read.bits < 2 ^ (120 : Nat)
  · exact h.push_of_lt hdigit hbits
  · exact h.push_of_le hdigit hbits

theorem Keeps.pushRow {row : List Char} (h : read.Keeps n places) :
    (read.pushRow afterPoint row).Keeps (n * 16 ^ row.length + Base.sixteen.number row)
      (if afterPoint then places + row.length else places) := by
  induction row generalizing read n places with
  | nil =>
      rw [List.length_nil, Nat.pow_zero, Nat.mul_one, Base.number, Nat.add_zero, Nat.add_zero,
        ite_self]
      exact h
  | cons c rest ih =>
      have hnumber : n * 16 ^ (c :: rest).length + Base.sixteen.number (c :: rest) =
          (16 * n + Base.sixteen.digit c) * 16 ^ rest.length + Base.sixteen.number rest := by
        rw [Base.number, List.length_cons, Nat.pow_succ, Base.radix]
        ring
      have hplaces : (if afterPoint then places + (c :: rest).length else places) =
          if afterPoint then (if afterPoint then places + 1 else places) + rest.length
          else (if afterPoint then places + 1 else places) := by
        rw [List.length_cons]
        cases afterPoint with
        | true =>
            simp only [if_true]
            omega
        | false =>
            rfl
      rw [hnumber, hplaces]
      exact ih (h.push (Base.sixteen.digit_lt c))

end HexDigits

/-!
## The number of a literal

A digit moves what the last one weighs by four places of two at most: upwards if it stands
before the point, downwards if it stands behind it.
-/

/-- A number of which the first bits are known, what the last of them weighs, and whether the
number has anything behind them. No bits are left out of a number with few of them. -/
structure Leads (bits : Nat) (shift : Int) (truncated : Bool) (x : ℚ) : Prop where
  low : bits * 2 ^ shift ≤ x
  high : x < (bits + 1) * 2 ^ shift
  truncated_iff : truncated = true <-> x ≠ bits * 2 ^ shift
  bits_lt : bits < 2 ^ (124 : Nat)
  full : truncated = true -> 2 ^ (120 : Nat) ≤ bits

namespace HexLiteral

open HexDigits

variable {numeral : Numeral}

theorem keeps_digitsOf (hbase : numeral.base = .sixteen) :
    (digitsOf numeral).Keeps (numeral.base.number (numeral.whole ++ numeral.fraction))
      numeral.fraction.length := by
  have hwhole : (HexDigits.none.pushRow false numeral.whole).Keeps
      (0 * 16 ^ numeral.whole.length + Base.sixteen.number numeral.whole) 0 := keeps_none.pushRow
  have hall : (digitsOf numeral).Keeps
      ((0 * 16 ^ numeral.whole.length + Base.sixteen.number numeral.whole) *
        16 ^ numeral.fraction.length + Base.sixteen.number numeral.fraction)
      (0 + numeral.fraction.length) := hwhole.pushRow
  rw [Nat.zero_mul, Nat.zero_add, Nat.zero_add] at hall
  rw [hbase, Base.number_append]
  exact hall

/-- The power of two that the last digit kept weighs, before it is cut off. -/
def weight (numeral : Numeral) : Int :=
  numeral.exponent + (digitsOf numeral).scale

theorem scale_bounds (hbase : numeral.base = .sixteen) :
    -(4 * numeral.fraction.length) ≤ (digitsOf numeral).scale ∧
      (digitsOf numeral).scale ≤ 4 * numeral.whole.length := by
  have hscale := (keeps_digitsOf hbase).scale_eq
  have hsurplus := surplusDigits_number_le (numeral.whole ++ numeral.fraction)
  rw [hbase] at hscale
  rw [List.length_append] at hsurplus
  omega

theorem scaled_eq (hbase : numeral.base = .sixteen) (digits : Nat) :
    numeral.scaled digits =
      digits / 16 ^ surplusDigits (numeral.base.number (numeral.whole ++ numeral.fraction)) *
        2 ^ weight numeral := by
  have hscale := (keeps_digitsOf hbase).scale_eq
  generalize numeral.base.number (numeral.whole ++ numeral.fraction) = n at hscale ⊢
  have hsixteen (k : Nat) : (2 : ℚ) ^ (4 * k : Int) = 16 ^ k := by
    rw [zpow_mul, zpow_natCast]
    norm_num
  unfold weight Numeral.scaled
  rw [hscale, hbase, zpow_add₀ (by norm_num), zpow_sub₀ (by norm_num), hsixteen, hsixteen]
  simp only [Base.radix, Base.unit, Nat.cast_ofNat]
  field_simp

theorem kept_eq (hbase : numeral.base = .sixteen) :
    numeral.kept = (digitsOf numeral).bits * 2 ^ weight numeral := by
  have hkept : numeral.kept =
      numeral.scaled (leadingDigits (numeral.base.number (numeral.whole ++ numeral.fraction))) := by
    unfold Numeral.kept
    rw [hbase]
  rw [hkept, scaled_eq hbase, (keeps_digitsOf hbase).bits_eq, leadingDigits]
  push_cast
  field_simp

theorem leads_value (hbase : numeral.base = .sixteen) :
    Leads (digitsOf numeral).bits (weight numeral) (digitsOf numeral).truncated numeral.value := by
  have hkeeps := keeps_digitsOf hbase
  have hvalue : numeral.value = _ := scaled_eq hbase _
  generalize numeral.base.number (numeral.whole ++ numeral.fraction) = n at hkeeps hvalue
  have hpower : (0 : ℚ) < 16 ^ surplusDigits n := by positivity
  have hrest : ((n % 16 ^ surplusDigits n : Nat) : ℚ) < 16 ^ surplusDigits n := by
    exact_mod_cast Nat.mod_lt n (Nat.pow_pos (by decide))
  have hsplit : (n : ℚ) / 16 ^ surplusDigits n =
      (digitsOf numeral).bits + (n % 16 ^ surplusDigits n : Nat) / 16 ^ surplusDigits n := by
    rw [div_eq_iff hpower.ne', add_mul, div_mul_cancel₀ _ hpower.ne', hkeeps.bits_eq]
    exact_mod_cast (Nat.div_add_mod' n (16 ^ surplusDigits n)).symm
  have hpos := two_zpow_pos (weight numeral)
  rw [hvalue, hsplit]
  refine ⟨?_, ?_, ?_, ?_, ?_⟩
  · refine mul_le_mul_of_nonneg_right (le_add_of_nonneg_right ?_) hpos.le
    positivity
  · refine mul_lt_mul_of_pos_right ?_ hpos
    rw [add_lt_add_iff_left, div_lt_one hpower]
    exact hrest
  · rw [hkeeps.truncated_iff, ne_eq, ne_eq, mul_left_inj' hpos.ne', add_eq_left,
      div_eq_zero_iff, Nat.cast_eq_zero]
    simp [hpower.ne']
  · rw [hkeeps.bits_eq]
    exact div_surplus_lt n
  · intro htruncated
    rw [hkeeps.bits_eq]
    refine le_div_surplus fun hnone => hkeeps.truncated_iff.mp htruncated ?_
    rw [hnone, Nat.pow_zero, Nat.mod_one]

/-!
## Comparison with the largest magnitude

The position of the first bit tells between which powers of two a number lies. Where it is
that of the largest magnitude the 53 bits from it on decide, and then whether anything
follows them.
-/

end HexLiteral

namespace Leads

variable {bits : Nat} {shift : Int} {truncated : Bool} {x : ℚ}

theorem lt_iff (h : Leads bits shift truncated x) (m : Nat) :
    (m : ℚ) * 2 ^ shift < x <-> m < bits ∨ m = bits ∧ truncated = true := by
  have hpos := two_zpow_pos shift
  rcases Nat.lt_trichotomy m bits with hbelow | rfl | habove
  · have hcast : (m : ℚ) < bits := Nat.cast_lt.mpr hbelow
    exact iff_of_true ((mul_lt_mul_of_pos_right hcast hpos).trans_le h.low) (Or.inl hbelow)
  · rw [h.truncated_iff, h.low.lt_iff_ne, ne_comm]
    simp
  · have hcast : (bits : ℚ) + 1 ≤ m := by exact_mod_cast habove
    refine iff_of_false ?_ (by omega)
    exact not_lt.mpr (h.high.le.trans (mul_le_mul_of_nonneg_right hcast hpos.le))

theorem eq_zero (h : Leads 0 shift truncated x) : x = 0 := by
  by_contra hne
  have htruncated : truncated = true := by
    rw [h.truncated_iff, Nat.cast_zero, zero_mul]
    exact hne
  exact absurd (h.full htruncated) (by decide)

theorem bounds (h : Leads bits shift truncated x) (hbits : bits ≠ 0) :
    (2 : ℚ) ^ (Nat.log2 bits + shift) ≤ x ∧ x < 2 ^ (Nat.log2 bits + shift + 1) := by
  have hpos := two_zpow_pos shift
  have hnext : (bits : ℚ) + 1 ≤ 2 ^ ((Nat.log2 bits : Int) + 1) := by
    have hlt : bits + 1 ≤ 2 ^ Nat.log2 bits * 2 := Nat.lt_log2_self
    rw [zpow_add_one₀ (by norm_num), zpow_natCast]
    exact_mod_cast hlt
  rw [add_right_comm, zpow_add₀ (by norm_num), zpow_add₀ (by norm_num)]
  constructor
  · exact (mul_le_mul_of_nonneg_right (log2_bounds hbits).left hpos.le).trans h.low
  · exact h.high.trans_le (mul_le_mul_of_nonneg_right hnext hpos.le)

theorem lt_iff_of_window (h : Leads bits shift truncated x)
    (htop : 52 ≤ Nat.log2 bits) (hposition : Nat.log2 bits + shift = 1023) :
    ((2 ^ (53 : Nat) - 1 : Nat) : ℚ) * 2 ^ (971 : Int) < x <->
      bits / 2 ^ (Nat.log2 bits - 52) = 2 ^ (53 : Nat) - 1 ∧
        (bits % 2 ^ (Nat.log2 bits - 52) ≠ 0 ∨ truncated = true) := by
  have hlargest : ((2 ^ (53 : Nat) - 1 : Nat) : ℚ) * 2 ^ (971 : Int) =
      ((2 ^ (53 : Nat) - 1) * 2 ^ (Nat.log2 bits - 52) : Nat) * 2 ^ shift := by
    have hunit : (971 : Int) = (Nat.log2 bits - 52 : Nat) + shift := by omega
    rw [hunit, zpow_add₀ (by norm_num), zpow_natCast, Nat.cast_mul, Nat.cast_pow, mul_assoc]
    rfl
  have hlt : bits < 2 ^ (53 : Nat) * 2 ^ (Nat.log2 bits - 52) := by
    rw [← Nat.pow_add, show 53 + (Nat.log2 bits - 52) = Nat.log2 bits + 1 by omega]
    exact Nat.lt_log2_self
  have hunit : 0 < 2 ^ (Nat.log2 bits - 52) := Nat.pow_pos (by decide)
  rw [hlargest, h.lt_iff]
  generalize 2 ^ (Nat.log2 bits - 52) = unit at hlt hunit ⊢
  have hbits := Nat.div_add_mod bits unit
  have hrest := Nat.mod_lt bits hunit
  have hwindow : bits / unit < 2 ^ (53 : Nat) := (Nat.div_lt_iff_lt_mul hunit).mpr hlt
  by_cases hfull : bits / unit = 2 ^ (53 : Nat) - 1
  · rw [hfull] at hbits
    have hlt : (2 ^ (53 : Nat) - 1) * unit < bits <-> bits % unit ≠ 0 := by omega
    have heq : (2 ^ (53 : Nat) - 1) * unit = bits <-> bits % unit = 0 := by omega
    rw [hlt, heq]
    by_cases hrest : bits % unit = 0 <;> simp [hfull, hrest]
  · have hnext : unit * (bits / unit + 1) ≤ unit * (2 ^ (53 : Nat) - 1) :=
      Nat.mul_le_mul_left unit (by omega)
    rw [Nat.mul_add_one] at hnext
    exact iff_of_false (by omega) fun hboth => hfull hboth.left

theorem not_truncated (h : Leads bits shift truncated x) (hbits : bits ≠ 0)
    (htop : Nat.log2 bits < 52) : truncated = false := by
  rw [Bool.eq_false_iff]
  intro htruncated
  have hfull := (Nat.le_log2 hbits).mpr (h.full htruncated)
  omega

theorem le_largest_of_short (h : Leads bits shift truncated x) (hbits : bits ≠ 0)
    (htop : Nat.log2 bits < 52) (hposition : Nat.log2 bits + shift = 1023) :
    x ≤ ((2 ^ (53 : Nat) - 1 : Nat) : ℚ) * 2 ^ (971 : Int) := by
  have hvalue : x = bits * 2 ^ shift := by
    by_contra hne
    have htruncated := h.truncated_iff.mpr hne
    rw [h.not_truncated hbits htop] at htruncated
    cases htruncated
  have hshift : shift = (52 - Nat.log2 bits : Nat) + 971 := by omega
  have hlt : bits * 2 ^ (52 - Nat.log2 bits) < 2 ^ (53 : Nat) := by
    have hsplit : 2 ^ (53 : Nat) = 2 ^ (Nat.log2 bits + 1) * 2 ^ (52 - Nat.log2 bits) := by
      rw [← Nat.pow_add]
      congr 1
      omega
    rw [hsplit]
    exact Nat.mul_lt_mul_of_pos_right Nat.lt_log2_self (Nat.pow_pos (by decide))
  have hle : (bits : ℚ) * 2 ^ (52 - Nat.log2 bits) ≤ ((2 ^ (53 : Nat) - 1 : Nat) : ℚ) := by
    exact_mod_cast Nat.le_sub_one_of_lt hlt
  rw [hvalue, hshift, zpow_add₀ (by norm_num), zpow_natCast, ← mul_assoc]
  exact mul_le_mul_of_nonneg_right hle (two_zpow_pos _).le

end Leads

namespace HexLiteral

theorem exceedsLargest_iff {literal : HexLiteral} {shift : Int} {x : ℚ}
    (h : Leads literal.bits shift literal.truncated x)
    (hshift : literal.shift = max (-shiftLimit) (min shiftLimit shift)) :
    literal.exceedsLargest = true <-> ((2 ^ (53 : Nat) - 1 : Nat) : ℚ) * 2 ^ (971 : Int) < x := by
  have hlimit : shiftLimit = 4000 := rfl
  unfold exceedsLargest
  dsimp only
  split
  · next hzero =>
      rw [hzero] at h
      rw [h.eq_zero]
      exact iff_of_false (by decide) (not_lt.mpr (by positivity))
  · next hbits =>
      have htop : Nat.log2 literal.bits < 124 := (Nat.log2_lt hbits).mpr h.bits_lt
      rcases h.bounds hbits with ⟨hlow, hhigh⟩
      split
      · next habove =>
          refine iff_of_true rfl (lt_of_lt_of_le (below_power_lt 1024) (le_trans ?_ hlow))
          exact two_zpow_le (by omega)
      · next hle =>
          split
          · next hbelow =>
              refine iff_of_false Bool.false_ne_true (not_lt.mpr (hhigh.le.trans ?_))
              exact (two_zpow_le (by omega)).trans (le_below_power 1024)
          · next hge =>
              have hexact : literal.shift = shift := by omega
              split
              · next hwindow =>
                  rw [h.lt_iff_of_window hwindow (by omega)]
                  simp
              · next hshort =>
                  rw [h.not_truncated hbits (by omega), Bool.and_false]
                  exact iff_of_false Bool.false_ne_true
                    (not_lt.mpr (h.le_largest_of_short hbits (by omega) (by omega)))

/-- The digits that are kept of a literal lead the number that it denotes, with the weight that the
last of them has before it is cut off. Cut off or not, the comparison with the largest magnitude is
that of the exact number. Unless there are `2 ^ 60` digits or the exponent is as large, the weight
fits a signed number of 64 bits. -/
theorem read?_leads {numeral : Numeral} {text : List Char} (hbase : numeral.base = .sixteen)
    (hbody : numeral.BodyText text) :
    exists literal, read? text = some literal ∧
      literal.shift = max (-shiftLimit) (min shiftLimit (weight numeral)) ∧
      Leads literal.bits (weight numeral) literal.truncated numeral.value ∧
      (literal.exceedsLargest = true <->
        ((2 ^ (53 : Nat) - 1 : Nat) : ℚ) * 2 ^ (971 : Int) < numeral.value) ∧
      (numeral.whole.length < 2 ^ (60 : Nat) -> numeral.fraction.length < 2 ^ (60 : Nat) ->
        numeral.exponent.natAbs < 2 ^ (60 : Nat) -> (weight numeral).natAbs < 2 ^ (63 : Nat)) := by
  have hread : read? text = some (ofNumeral numeral) :=
    read?_eq_some_iff.mpr ⟨numeral, hbase, hbody, rfl⟩
  have hleads : Leads (ofNumeral numeral).bits (weight numeral) (ofNumeral numeral).truncated
      numeral.value := leads_value hbase
  have hscale := scale_bounds hbase
  refine ⟨ofNumeral numeral, hread, rfl, hleads, exceedsLargest_iff hleads rfl, ?_⟩
  intro hwhole hfraction hexponent
  unfold weight
  omega

/-- Of these 35 digits 31 are kept, two are left out before the point and two behind it. The digits
kept make the largest magnitude, and only the last digit is above it. -/
theorem read?_leads_beyond :
    let text := "fffffffffffff80000000000000000000.01p892".toList
    let numeral : Numeral :=
      { base := .sixteen, whole := "fffffffffffff80000000000000000000".toList
        fraction := ['0', '1'], exponent := 892 }
    let literal : HexLiteral :=
      { bits := 0xfffffffffffff8 * 16 ^ 17, shift := 900, truncated := true }
    numeral.BodyText text ∧ read? text = some literal ∧
      Leads literal.bits 900 true numeral.value ∧ literal.exceedsLargest = true := by
  intro text numeral literal
  have hbody : numeral.BodyText text :=
    (Numeral.bodyText_iff isExponentMark_iff).mpr ⟨rfl, rfl, by decide, by decide⟩
  have hread : read? text = some literal := by decide +kernel
  have hweight : weight numeral = 900 := by decide +kernel
  have hvalue : numeral.value = (0xfffffffffffff8 * 16 ^ 21 + 1) / 16 ^ 2 * 2 ^ 892 := by
    have hnumber : numeral.base.number (numeral.whole ++ numeral.fraction) =
        0xfffffffffffff8 * 16 ^ 21 + 1 := by
      decide +kernel
    rw [Numeral.value, hnumber]
    norm_num [numeral, Numeral.scaled, Base.radix, Base.unit, zpow_ofNat]
  have habove : ((2 ^ (53 : Nat) - 1 : Nat) : ℚ) * 2 ^ (971 : Int) < numeral.value := by
    have hsplit : (2 : ℚ) ^ (971 : Int) = 2 ^ 79 * 2 ^ 892 := by
      rw [zpow_ofNat, ← pow_add]
    rw [hvalue, hsplit, ← mul_assoc]
    exact mul_lt_mul_of_pos_right (by norm_num) (by positivity)
  rcases read?_leads rfl hbody with ⟨found, hfound, _, hleads, hexceeds, _⟩
  cases hread.symm.trans hfound
  rw [hweight] at hleads
  exact ⟨hbody, hread, hleads, hexceeds.mpr habove⟩

/-!
## Rounding in two halves

Factors up to one leave a literal below a point that its bits alone do not pass, and factors
that stay in range scale it exactly. Where they take it out of range, it is above every
point.
-/

variable {literal : HexLiteral} {significand : Nat} {exponent : Int}

theorem half_nonneg {shift : Int} (h : 0 ≤ shift) :
    0 ≤ shift.tdiv 2 ∧ shift.tdiv 2 ≤ shift - shift.tdiv 2 ∧
      shift - shift.tdiv 2 ≤ shift.tdiv 2 + 1 := by
  rw [Int.tdiv_eq_ediv_of_nonneg h]
  omega

theorem half_nonpos {shift : Int} (h : shift ≤ 0) :
    shift.tdiv 2 ≤ 0 ∧ shift - shift.tdiv 2 ≤ 0 := by
  have hneg : shift.tdiv 2 = -((-shift).tdiv 2) := by
    rw [Int.neg_tdiv, neg_neg]
  have hnonneg : 0 ≤ -shift := by omega
  rw [Int.tdiv_eq_ediv_of_nonneg hnonneg] at hneg
  omega

theorem start_atMost_iff (h : Format.binary64.Stores significand exponent) :
    (nearest .binary64 literal.bits 1).AtMost (significand * 2 ^ exponent) <->
      RoundsToAtMost literal.bits significand exponent := by
  rw [nearest_atMost_iff Nat.one_pos h, Nat.cast_one, div_one]

theorem magnitude_atMost_of_nonpos (hshift : literal.shift ≤ 0)
    (h : Format.binary64.Stores significand exponent)
    (hbits : (literal.bits : ℚ) ≤ significand * 2 ^ exponent) :
    literal.magnitude.AtMost (significand * 2 ^ exponent) := by
  rcases half_nonpos hshift with ⟨hhalf, hother⟩
  have hstart : (nearest .binary64 literal.bits 1).AtMost (significand * 2 ^ exponent) :=
    (start_atMost_iff h).mpr (roundsToAtMost_of_le hbits)
  exact multiply_atMost h (multiply_atMost h hstart (powerOfTwo_atMost_one hhalf))
    (powerOfTwo_atMost_one hother)

theorem magnitude_atMost_iff_of_nonneg (hshift : 0 ≤ literal.shift ∧ literal.shift ≤ 1023)
    (h : Format.binary64.Stores significand exponent)
    (hlow : Format.binary64.Stores significand (exponent - literal.shift))
    (hfull : 2 ^ (52 : Nat) ≤ significand) :
    literal.magnitude.AtMost (significand * 2 ^ exponent) <->
      RoundsToAtMost (literal.bits * 2 ^ literal.shift) significand exponent := by
  rcases half_nonneg hshift.left with ⟨hhalf, hle, hnext⟩
  have hminLe := hlow.min_le
  have hmaxLe := h.le_max
  have hmiddle : Format.binary64.Stores significand
      (exponent - (literal.shift - literal.shift.tdiv 2)) :=
    ⟨h.lt, Or.inl hfull, by omega, by omega⟩
  have hexponent : exponent - (literal.shift - literal.shift.tdiv 2) - literal.shift.tdiv 2 =
      exponent - literal.shift := by omega
  unfold magnitude
  dsimp only
  rw [multiply_powerOfTwo_atMost_iff holds_multiply ⟨by omega, by omega⟩ h hfull,
    multiply_powerOfTwo_atMost_iff (holds_nearest Nat.one_pos) ⟨by omega, by omega⟩ hmiddle hfull,
    hexponent, start_atMost_iff hlow, roundsToAtMost_mul_zpow]

theorem magnitude_not_atMost (hne : literal.bits ≠ 0) (hshift : 1024 ≤ literal.shift)
    (h : Format.binary64.Stores significand exponent) (hexponent : 72 ≤ exponent) :
    ¬ literal.magnitude.AtMost (significand * 2 ^ exponent) := by
  rcases half_nonneg (by omega : 0 ≤ literal.shift) with ⟨hhalf, hle, hnext⟩
  have hmin : Format.binary64.minExponent = -1074 := rfl
  have hmax : Format.binary64.maxExponent = 971 := rfl
  have hfull : 2 ^ (52 : Nat) ≤ significand := h.full.resolve_right (by omega)
  unfold magnitude
  dsimp only
  by_cases hfar : 1024 ≤ literal.shift - literal.shift.tdiv 2
  · rw [powerOfTwo_eq_infinite hfar]
    exact multiply_infinite_not_atMost
  · -- The bits alone are above the point before one, and the first factor keeps them above.
    rw [multiply_powerOfTwo_atMost_iff holds_multiply ⟨by omega, by omega⟩ h hfull]
    intro hatMost
    have hle : (significand : ℚ) ≤ (2 ^ (53 : Nat) - 1 : Nat) :=
      Nat.cast_le.mpr (Nat.le_sub_one_of_lt h.lt)
    have hmaxLe := h.le_max
    have hbelow : exponent - (literal.shift - literal.shift.tdiv 2) ≤
        literal.shift.tdiv 2 - 53 := by omega
    have hscaled := hatMost.trans
      (mul_le_mul hle (two_zpow_le hbelow) (two_zpow_pos _).le (Nat.cast_nonneg _))
    have hexponent : literal.shift.tdiv 2 - 53 - literal.shift.tdiv 2 = 0 - 53 := by omega
    rw [multiply_powerOfTwo_atMost_iff (holds_nearest Nat.one_pos) ⟨by omega, by omega⟩
      (stores_below_power (by omega)) (by decide), hexponent,
      start_atMost_iff (stores_below_power (by decide))] at hscaled
    have hlt := hscaled.lt_succ
    rw [← Nat.cast_add_one] at hlt
    have hone := hlt.trans_eq (two_zpow_split 0 53)
    rw [zpow_zero, Nat.cast_lt_one] at hone
    exact hne hone

/-- A literal is rounded as the number that its bits make, where that is far from zero. Exponents
that are cut off are out of reach on either side. -/
theorem magnitude_atMost_iff {shift : Int} (hne : literal.bits ≠ 0)
    (hbits : literal.bits < 2 ^ (124 : Nat))
    (hshift : literal.shift = max (-shiftLimit) (min shiftLimit shift))
    (h : Format.binary64.Stores significand exponent) (hexponent : 72 ≤ exponent) :
    literal.magnitude.AtMost (significand * 2 ^ exponent) <->
      RoundsToAtMost (literal.bits * 2 ^ shift) significand exponent := by
  have hlimit : shiftLimit = 4000 := rfl
  have hmin : Format.binary64.minExponent = -1074 := rfl
  have hmax : Format.binary64.maxExponent = 971 := rfl
  have hfull : 2 ^ (52 : Nat) ≤ significand := h.full.resolve_right (by omega)
  rcases le_or_gt shift 0 with hnonpos | hpos
  · have hle : (literal.bits : ℚ) ≤ significand * 2 ^ exponent := by
      calc (literal.bits : ℚ) ≤ 2 ^ (124 : Int) := by exact_mod_cast hbits.le
        _ = (2 ^ (52 : Nat) : Nat) * 2 ^ (72 : Int) := (two_zpow_split 124 52).symm
        _ ≤ significand * 2 ^ exponent :=
            mul_le_mul (Nat.cast_le.mpr hfull) (two_zpow_le hexponent) (two_zpow_pos _).le
              (Nat.cast_nonneg _)
    refine iff_of_true (magnitude_atMost_of_nonpos (by omega) h hle) (roundsToAtMost_of_le ?_)
    have hone : (2 : ℚ) ^ shift ≤ 1 := two_zpow_le hnonpos
    exact (mul_le_of_le_one_right (Nat.cast_nonneg _) hone).trans hle
  · rcases le_or_gt shift 1023 with hle | hfar
    · have hmaxLe := h.le_max
      have hexact : literal.shift = shift := by omega
      rw [← hexact]
      exact magnitude_atMost_iff_of_nonneg ⟨by omega, by omega⟩ h
        ⟨h.lt, Or.inl hfull, by omega, by omega⟩ hfull
    · refine iff_of_false (magnitude_not_atMost hne (by omega) h hexponent) fun hrounds => ?_
      have hone : (1 : ℚ) ≤ literal.bits := by exact_mod_cast Nat.one_le_iff_ne_zero.mpr hne
      have hnext : (significand : ℚ) + 1 ≤ (2 ^ (53 : Nat) : Nat) := by exact_mod_cast h.lt
      have hlimit : (literal.bits : ℚ) * 2 ^ shift < 2 ^ (1024 : Int) :=
        calc (literal.bits : ℚ) * 2 ^ shift
            < (significand + 1) * 2 ^ exponent := hrounds.lt_succ
          _ ≤ (2 ^ (53 : Nat) : Nat) * 2 ^ (971 : Int) :=
              mul_le_mul hnext (two_zpow_le h.le_max) (two_zpow_pos _).le (Nat.cast_nonneg _)
          _ = 2 ^ (1024 : Int) := two_zpow_split 1024 53
      have hreach : (2 : ℚ) ^ (1024 : Int) ≤ literal.bits * 2 ^ shift :=
        (two_zpow_le hfar).trans (le_mul_of_one_le_left (two_zpow_pos _).le hone)
      exact absurd hlimit (not_lt.mpr hreach)

end HexLiteral

end Floating
end VideoConfig
