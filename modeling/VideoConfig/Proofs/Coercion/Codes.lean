import VideoConfig.Proofs.Coercion
import VideoConfig.Proofs.Coercion.Integers

/-!
# Integers taken for codes

A field for codes of four characters takes every text of four ASCII characters for a code. The
text by which an integer is shown has no other characters, so it is taken for a code exactly if
it has four of them: three digits behind a minus sign, or four digits. Every other integer is
read as a number by such a field, too.
-/

namespace VideoConfig

/-!
## Codes
-/

theorem exists_fourCCOfChars?_iff {text : List Char} :
    (exists code, fourCCOfChars? text = some code) <->
      text.length = 4 ∧ text.all Text.isAscii = true := by
  unfold fourCCOfChars?
  split
  · next a b c d =>
      split
      · next hascii =>
          exact iff_of_true ⟨_, rfl⟩ ⟨rfl, hascii⟩
      · next hascii =>
          exact iff_of_false (by simp) fun h => hascii h.right
  · next hother =>
      refine iff_of_false (by simp) ?_
      rintro ⟨hlength, _⟩
      match text, hlength with
      | [a, b, c, d], _ =>
          exact hother a b c d rfl

theorem Coercion.code?_of_not_blank {text : List Char}
    (h : forall c, c ∈ text -> Text.isBlank c = false) :
    code? text = fourCCOfChars? text := by
  rw [code?, Text.trimStart_of_not_blank h, Text.trim_of_not_blank h, Option.or_self]

/-!
## Integers of four characters
-/

theorem Text.length_decimalDigits_iff {n k : Nat} (hk : 0 < k) :
    (decimalDigits n).length = k + 1 <-> 10 ^ k ≤ n ∧ n < 10 ^ (k + 1) := by
  have hle : (decimalDigits n).length ≤ k <-> n < 10 ^ k :=
    Nat.length_toDigits_le_iff (by decide) hk
  have hlt : (decimalDigits n).length ≤ k + 1 <-> n < 10 ^ (k + 1) :=
    Nat.length_toDigits_le_iff (by decide) (Nat.succ_pos k)
  rw [← hlt, ← Nat.not_lt, ← hle]
  omega

def FourCharacters (n : Int) : Prop :=
  1000 ≤ n ∧ n ≤ 9999 ∨ -999 ≤ n ∧ n ≤ -100

instance (n : Int) : Decidable (FourCharacters n) :=
  inferInstanceAs (Decidable (_ ∨ _))

theorem length_signedDecimal_iff (n : Int) :
    (Text.signedDecimal n).toList.length = 4 <-> FourCharacters n := by
  unfold FourCharacters
  cases n with
  | ofNat n =>
      have hlength := Text.length_decimalDigits_iff (n := n) (k := 3) (by decide)
      simp only [Nat.reduceAdd, Nat.reducePow] at hlength
      rw [Text.signedDecimal, Text.decimal, String.toList_ofList, hlength]
      simp only [Int.ofNat_eq_natCast]
      omega
  | negSucc n =>
      have hlength := Text.length_decimalDigits_iff (n := n + 1) (k := 2) (by decide)
      simp only [Nat.reduceAdd, Nat.reducePow] at hlength
      rw [Text.signedDecimal, String.toList_append, List.length_append, Text.decimal,
        String.toList_ofList, String.toList_ofList, List.length_singleton]
      omega

theorem IntegerText.isAscii {negative : Bool} {magnitude : Nat} {text : List Char}
    (h : IntegerText negative magnitude text) {c : Char} (hc : c ∈ text) :
    Text.isAscii c = true := by
  rcases h.uses .ten hc with hdigit | hother
  · have hhigh : c.toNat ≤ 57 :=
      (Char.isDigit_iff_toNat.mp (Base.isDigit_of_isSome hdigit)).right
    unfold Text.isAscii
    rw [decide_eq_true_eq]
    omega
  · have hall : (['+', '-', '.'] ++ Base.ten.marks).all Text.isAscii = true := by
      decide
    exact List.all_eq_true.mp hall c hother

theorem code?_signedDecimal (n : Int) :
    Coercion.code? (Text.signedDecimal n).toList =
      fourCCOfChars? (Text.signedDecimal n).toList := by
  rcases IntegerText.exists_signedDecimal n with ⟨negative, magnitude, htext, _, _⟩
  exact Coercion.code?_of_not_blank fun c hc => htext.not_blank hc

theorem isCode_signedDecimal_iff (n : Int) (category : Category) :
    Coercion.IsCode (Text.signedDecimal n).toList category <->
      category = .fourCC ∧ FourCharacters n := by
  rcases IntegerText.exists_signedDecimal n with ⟨negative, magnitude, htext, _, _⟩
  have hascii : (Text.signedDecimal n).toList.all Text.isAscii = true :=
    List.all_eq_true.mpr fun c hc => htext.isAscii hc
  rw [Coercion.IsCode, code?_signedDecimal, exists_fourCCOfChars?_iff, length_signedDecimal_iff,
    and_iff_left hascii]

theorem coerceValue_signedDecimal_of_not_isCode {n : Int} {category : Category}
    (h : ¬ (category = .fourCC ∧ FourCharacters n)) (kind : IntKind) (value : Value) :
    coerceValue (Text.signedDecimal n) (.scalar (.int kind)) category = .ok value <->
      kind.holds n = true ∧ value = Value.ofInt kind n := by
  rw [← isCode_signedDecimal_iff] at h
  rw [← coerceValue_signedDecimal, coerceValue, coerceValue,
    Coercion.valueOfChars_of_not_isCode h]
  rfl

end VideoConfig
