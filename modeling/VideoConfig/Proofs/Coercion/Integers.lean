import VideoConfig.Coercion
import VideoConfig.Proofs.Numeral.Reading
import VideoConfig.Proofs.Text.Blank

/-!
# Integers from text

A text is read as an integer of a kind exactly if it has the form of a whole number, has no minus
sign where the kind has no negative numbers, and lies between the two ends of the kind, however
many digits it has. The text by which an integer is shown is read as the integer again.
-/

namespace VideoConfig

/-!
## Words and the numbers that they stand for

The only word that stands for a number is the one that the kind has for it.
-/

theorem Width.bits_pos (width : Width) : 0 < width.bits := by
  cases width <;> decide

namespace IntKind

variable {kind : IntKind} {n : Int}

theorem holds_iff : kind.holds n = true <-> kind.least ≤ n ∧ n ≤ kind.greatest := by
  rw [holds, Bool.and_eq_true, decide_eq_true_eq, decide_eq_true_eq]

theorem toInt_ofInt (h : kind.holds n = true) : kind.toInt (kind.ofInt n) = n := by
  rw [holds_iff] at h
  unfold least greatest at h
  unfold toInt ofInt
  have hpos := kind.width.bits_pos
  have hpower : 2 ^ kind.width.bits = 2 * 2 ^ (kind.width.bits - 1) := by
    rw [← Nat.pow_succ']
    congr 1
    omega
  split
  · next hsigned =>
      rw [if_pos hsigned, if_pos hsigned] at h
      rw [BitVec.toInt_ofInt]
      apply Int.bmod_eq_of_le <;> omega
  · next hunsigned =>
      rw [if_neg hunsigned, if_neg hunsigned] at h
      rw [BitVec.toNat_ofInt, Int.emod_eq_of_lt h.left (by omega), Int.toNat_of_nonneg h.left]

theorem ofInt_toInt (word : BitVec kind.width.bits) : kind.ofInt (kind.toInt word) = word := by
  unfold toInt ofInt
  split
  · exact BitVec.ofInt_toInt
  · exact BitVec.eq_of_toNat_eq (by simp)

theorem holds_toInt (word : BitVec kind.width.bits) : kind.holds (kind.toInt word) = true := by
  rw [holds_iff]
  unfold least greatest toInt
  split
  · next hsigned =>
      have hlow := BitVec.le_toInt word
      have hhigh : word.toInt < 2 ^ (kind.width.bits - 1) := BitVec.toInt_lt
      push_cast
      exact ⟨hlow, by omega⟩
  · next hunsigned =>
      have hlt := word.isLt
      omega

theorem holds_and_eq_ofInt_iff {word : BitVec kind.width.bits} :
    kind.holds n = true ∧ word = kind.ofInt n <-> kind.toInt word = n := by
  constructor
  · rintro ⟨hholds, rfl⟩
    exact toInt_ofInt hholds
  · rintro rfl
    exact ⟨holds_toInt word, (ofInt_toInt word).symm⟩

theorem toInt_inj {first second : BitVec kind.width.bits} :
    kind.toInt first = kind.toInt second <-> first = second := by
  rw [← holds_and_eq_ofInt_iff, ofInt_toInt]
  exact and_iff_right (holds_toInt second)

end IntKind

/-!
## The form of integers
-/

namespace IntegerText

variable {negative : Bool} {magnitude : Nat} {text : List Char}

theorem ne_nil (h : IntegerText negative magnitude text) : text ≠ [] := by
  rcases h with ⟨digits, hne, _, _, hsigned⟩
  cases hsigned with
  | bare =>
      exact hne
  | plus =>
      exact List.cons_ne_nil _ _
  | minus =>
      exact List.cons_ne_nil _ _

theorem not_blank (h : IntegerText negative magnitude text) {c : Char} (hc : c ∈ text) :
    Text.isBlank c = false := by
  rcases h.uses .ten hc with hdigit | hother
  · exact Text.not_blank_of_isDigit (Base.isDigit_of_isSome hdigit)
  · have hall : (['+', '-', '.'] ++ Base.ten.marks).all (fun c => !Text.isBlank c) = true := by
      decide
    simpa using List.all_eq_true.mp hall c hother

theorem decimalDigits (n : Nat) {negative : Bool} {text : List Char}
    (h : Signed (Text.decimalDigits n) negative text) : IntegerText negative n text :=
  ⟨Text.decimalDigits n, Nat.toDigits_ne_nil, Base.isRow_decimalDigits n,
    Base.number_decimalDigits n, h⟩

theorem exists_signedDecimal (n : Int) :
    exists negative magnitude, IntegerText negative magnitude (Text.signedDecimal n).toList ∧
      (negative = true -> n < 0) ∧ signedInt negative magnitude = n := by
  cases n with
  | ofNat n =>
      refine ⟨false, n, decimalDigits n ?_, by simp, rfl⟩
      rw [Text.signedDecimal, Text.decimal, String.toList_ofList]
      exact Signed.bare
  | negSucc n =>
      refine ⟨true, n + 1, decimalDigits (n + 1) ?_, fun _ => Int.negSucc_lt_zero n, rfl⟩
      rw [Text.signedDecimal, String.toList_append, Text.decimal, String.toList_ofList,
        String.toList_ofList]
      exact Signed.minus

end IntegerText

/-!
## Results

An integer that is shown as a text is read from it by every kind that holds it.
-/

namespace Coercion

variable {token : List Char} {kind : IntKind} {negative : Bool} {magnitude : Nat}

theorem integer_of_not_text
    (h : ¬ exists negative magnitude, IntegerText negative magnitude token) :
    integer token kind = .error (.invalid (String.ofList token) (.scalar (.int kind))) := by
  unfold integer
  dsimp only
  rw [if_pos]
  by_contra hdigits
  rw [not_or, not_not] at hdigits
  exact h ⟨_, _, integerText_iff.mpr ⟨rfl, hdigits.left, hdigits.right, rfl⟩⟩

theorem integer_of_text (h : IntegerText negative magnitude token) :
    integer token kind =
      if negative = true ∧ kind.signed = false then
        .error (.negative (String.ofList token) (.scalar (.int kind)))
      else if kind.holds (signedInt negative magnitude) then
        .ok (Value.ofInt kind (signedInt negative magnitude))
      else
        .error (.outOfRange (String.ofList token) (.scalar (.int kind))) := by
  rcases integerText_iff.mp h with ⟨rfl, hne, hall, rfl⟩
  unfold integer
  dsimp only
  rw [if_neg (by rw [not_or, not_not]; exact ⟨hne, hall⟩)]
  simp only [Bool.not_eq_true]
  rfl

theorem valueOfChars_integer {text : List Char} :
    valueOfChars text (.scalar (.int kind)) .value =
      if Text.trim text = [] then .error .empty else integer (Text.trim text) kind := by
  unfold valueOfChars plain
  dsimp only
  cases Text.trim text with
  | nil =>
      rfl
  | cons c rest =>
      rfl

end Coercion

theorem coerceValue_integer_of_text {text : String} {kind : IntKind} {negative : Bool}
    {magnitude : Nat} (h : IntegerText negative magnitude (Text.trim text.toList)) :
    coerceValue text (.scalar (.int kind)) .value =
      if negative = true ∧ kind.signed = false then
        .error (.negative (String.ofList (Text.trim text.toList)) (.scalar (.int kind)))
      else if kind.holds (signedInt negative magnitude) then
        .ok (Value.ofInt kind (signedInt negative magnitude))
      else
        .error (.outOfRange (String.ofList (Text.trim text.toList)) (.scalar (.int kind))) := by
  rw [coerceValue, Coercion.valueOfChars_integer, if_neg h.ne_nil, Coercion.integer_of_text h]

theorem trim_signedDecimal (n : Int) :
    Text.trim (Text.signedDecimal n).toList = (Text.signedDecimal n).toList := by
  rcases IntegerText.exists_signedDecimal n with ⟨negative, magnitude, htext, _, _⟩
  exact Text.trim_of_not_blank fun c hc => htext.not_blank hc

theorem coerceValue_signedDecimal (kind : IntKind) (n : Int) (value : Value) :
    coerceValue (Text.signedDecimal n) (.scalar (.int kind)) .value = .ok value <->
      kind.holds n = true ∧ value = Value.ofInt kind n := by
  rcases IntegerText.exists_signedDecimal n with ⟨negative, magnitude, htext, hnegative, rfl⟩
  rw [coerceValue_integer_of_text ((trim_signedDecimal _).symm ▸ htext)]
  by_cases hsign : negative = true ∧ kind.signed = false
  · have hbelow : ¬ kind.holds (signedInt negative magnitude) = true := by
      have hlt := hnegative hsign.left
      rw [IntKind.holds, IntKind.least, hsign.right, Bool.and_eq_true, decide_eq_true_eq]
      rintro ⟨hle, _⟩
      exact absurd hlt (Int.not_lt.mpr hle)
    rw [if_pos hsign]
    exact iff_of_false (by simp) fun h => hbelow h.left
  · rw [if_neg hsign]
    split
    · next hholds =>
        rw [Except.ok.injEq, eq_comm]
        exact (and_iff_right hholds).symm
    · next hholds =>
        exact iff_of_false (by simp) fun h => hholds h.left

theorem coerceValue_display {kind : IntKind} (word : BitVec kind.width.bits) :
    coerceValue (Value.int kind word).display (.scalar (.int kind)) .value =
      .ok (.int kind word) := by
  refine (coerceValue_signedDecimal kind (kind.toInt word) _).mpr ⟨IntKind.holds_toInt word, ?_⟩
  rw [Value.ofInt, IntKind.ofInt_toInt]

/-!
## The ways of a token

A token is empty, or it has no form, or it has one: then its sign decides, and at last its size.
Each way has a result of its own, and no other way has the same.
-/

inductive IntegerOutcome (token : List Char) (kind : IntKind) :
    Except CoercionError Value -> Prop where
  | empty : token = [] -> IntegerOutcome token kind (.error .empty)
  | invalid : token ≠ [] ->
      (¬ exists negative magnitude, IntegerText negative magnitude token) ->
      IntegerOutcome token kind (.error (.invalid (String.ofList token) (.scalar (.int kind))))
  | negative {magnitude : Nat} :
      kind.signed = false -> IntegerText true magnitude token ->
      IntegerOutcome token kind (.error (.negative (String.ofList token) (.scalar (.int kind))))
  | outOfRange {negative : Bool} {magnitude : Nat} :
      IntegerText negative magnitude token -> ¬ (negative = true ∧ kind.signed = false) ->
      ¬ (kind.least ≤ signedInt negative magnitude ∧
        signedInt negative magnitude ≤ kind.greatest) ->
      IntegerOutcome token kind (.error (.outOfRange (String.ofList token) (.scalar (.int kind))))
  | value {negative : Bool} {magnitude : Nat} {word : BitVec kind.width.bits} :
      IntegerText negative magnitude token -> ¬ (negative = true ∧ kind.signed = false) ->
      kind.toInt word = signedInt negative magnitude ->
      IntegerOutcome token kind (.ok (.int kind word))

theorem IntegerOutcome.of_text {token : List Char} {negative : Bool} {magnitude : Nat}
    (h : IntegerText negative magnitude token) (kind : IntKind) :
    IntegerOutcome token kind (Coercion.integer token kind) := by
  rw [Coercion.integer_of_text h]
  split
  · next hsign =>
      exact .negative hsign.right (hsign.left ▸ h)
  · next hsign =>
      split
      · next hholds =>
          exact .value h hsign (IntKind.toInt_ofInt hholds)
      · next hnot =>
          exact .outOfRange h hsign fun hrange => hnot (IntKind.holds_iff.mpr hrange)

theorem coerceValue_integer_iff {text : String} {kind : IntKind}
    {result : Except CoercionError Value} :
    coerceValue text (.scalar (.int kind)) .value = result <->
      IntegerOutcome (Text.trim text.toList) kind result := by
  rw [coerceValue, Coercion.valueOfChars_integer]
  generalize Text.trim text.toList = token
  constructor
  · rintro rfl
    split
    · next hempty =>
        exact IntegerOutcome.empty hempty
    · next hne =>
        by_cases hform : exists negative magnitude, IntegerText negative magnitude token
        · rcases hform with ⟨negative, magnitude, htext⟩
          exact IntegerOutcome.of_text htext kind
        · rw [Coercion.integer_of_not_text hform]
          exact IntegerOutcome.invalid hne hform
  · intro h
    cases h with
    | empty hempty =>
        exact if_pos hempty
    | invalid hne hform =>
        rw [if_neg hne, Coercion.integer_of_not_text hform]
    | negative hsigned htext =>
        rw [if_neg htext.ne_nil, Coercion.integer_of_text htext, if_pos ⟨rfl, hsigned⟩]
    | outOfRange htext hsign hrange =>
        rw [if_neg htext.ne_nil, Coercion.integer_of_text htext, if_neg hsign,
          if_neg fun hholds => hrange (IntKind.holds_iff.mp hholds)]
    | value htext hsign hword =>
        rw [if_neg htext.ne_nil, Coercion.integer_of_text htext, if_neg hsign, ← hword,
          if_pos (IntKind.holds_toInt _), Value.ofInt, IntKind.ofInt_toInt]

/-- What becomes of a text for an integer, told by its form, its sign and its size alone. The size
is that of all its digits, however many there are. -/
theorem integer_form_settles (text : String) (kind : IntKind) :
    let token := Text.trim text.toList
    let shown := String.ofList token
    let target := Kind.scalar (.int kind)
    let result := coerceValue text target .value
    (result = .error .empty <-> token = []) ∧
      (result = .error (.invalid shown target) <->
        token ≠ [] ∧ ¬ exists negative magnitude, IntegerText negative magnitude token) ∧
      (result = .error (.negative shown target) <->
        kind.signed = false ∧ exists magnitude, IntegerText true magnitude token) ∧
      (result = .error (.outOfRange shown target) <->
        exists negative magnitude, IntegerText negative magnitude token ∧
          ¬ (negative = true ∧ kind.signed = false) ∧
          ¬ (kind.least ≤ signedInt negative magnitude ∧
            signedInt negative magnitude ≤ kind.greatest)) ∧
      (forall value, result = .ok value <->
        exists negative magnitude, IntegerText negative magnitude token ∧
          ¬ (negative = true ∧ kind.signed = false) ∧
          (kind.least ≤ signedInt negative magnitude ∧
            signedInt negative magnitude ≤ kind.greatest) ∧
          exists word, value = .int kind word ∧ kind.toInt word = signedInt negative magnitude) ∧
      (forall word, coerceValue (Value.int kind word).display target .value =
        .ok (.int kind word)) := by
  intro token shown target result
  have houtcome {other : Except CoercionError Value} :
      result = other <-> IntegerOutcome token kind other := coerceValue_integer_iff
  simp only [houtcome]
  refine ⟨⟨?_, .empty⟩, ⟨?_, fun h => .invalid h.left h.right⟩, ⟨?_, ?_⟩, ⟨?_, ?_⟩,
    fun value => ⟨?_, ?_⟩, coerceValue_display⟩
  · intro h
    cases h with
    | empty hempty =>
        exact hempty
  · intro h
    cases h with
    | invalid hne hform =>
        exact ⟨hne, hform⟩
  · intro h
    cases h with
    | negative hsigned htext =>
        exact ⟨hsigned, _, htext⟩
  · rintro ⟨hsigned, magnitude, htext⟩
    exact .negative hsigned htext
  · intro h
    cases h with
    | outOfRange htext hsign hrange =>
        exact ⟨_, _, htext, hsign, hrange⟩
  · rintro ⟨negative, magnitude, htext, hsign, hrange⟩
    exact .outOfRange htext hsign hrange
  · intro h
    cases h with
    | value htext hsign hword =>
        exact ⟨_, _, htext, hsign, hword ▸ IntKind.holds_iff.mp (IntKind.holds_toInt _), _, rfl, hword⟩
  · rintro ⟨negative, magnitude, htext, hsign, hrange, word, rfl, hword⟩
    exact .value htext hsign hword

end VideoConfig
