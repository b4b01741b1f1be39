import VideoConfig.Coercion
import VideoConfig.Proofs.Floating.Rounding
import VideoConfig.Proofs.Numeral.Reading

/-!
# The forms of floating-point numbers

A text is taken for a number of a floating-point format by its form alone, before its size is
looked at. The forms are those of the numerals in both bases with one sign or none, and besides
these the decimal numerals with two signs: the reader of decimal literals takes a sign of its
own.
-/

namespace VideoConfig

open Floating

/-!
## Characters of decimal numerals

A text of these characters is no word.
-/

namespace Coercion

theorem isLiteralCharacter_iff {c : Char} :
    isLiteralCharacter c = true <-> c.isDigit = true ∨ c ∈ ['.', 'e', 'E', '+', '-'] := by
  simp [isLiteralCharacter, or_assoc]

theorem isLiteralCharacter_iff_uses {c : Char} :
    isLiteralCharacter c = true <-> Base.ten.Uses c := by
  rw [isLiteralCharacter_iff]
  unfold Base.Uses
  refine or_congr ?_ (by simp [Base.marks]; tauto)
  cases hdigit : c.isDigit <;> simp [Base.digit?, hdigit]

theorem toLower_of_isDigit {c : Char} (h : c.isDigit = true) : c.toLower = c := by
  have hhigh : c.toNat ≤ 57 := (Char.isDigit_iff_toNat.mp h).right
  unfold Char.toLower
  rw [dif_neg]
  rintro ⟨hletter, _⟩
  have hletter : 65 ≤ c.toNat := UInt32.le_iff_toNat_le.mp hletter
  omega

theorem toLower_of_isLiteralCharacter {c : Char} (h : isLiteralCharacter c = true) :
    c.toLower ≠ 'i' ∧ c.toLower ≠ 'n' := by
  rcases isLiteralCharacter_iff.mp h with hdigit | hother
  · rw [toLower_of_isDigit hdigit]
    constructor <;> (rintro rfl; cases hdigit)
  · have hall : (['.', 'e', 'E', '+', '-'].all fun c =>
        decide (c.toLower ≠ 'i' ∧ c.toLower ≠ 'n')) = true := by decide
    exact of_decide_eq_true (List.all_eq_true.mp hall c hother)

theorem head_of_word? {text : List Char} {magnitude : Magnitude}
    (h : word? text = some magnitude) :
    (text.map Char.toLower).head? = some 'i' ∨ (text.map Char.toLower).head? = some 'n' := by
  have hchars {word : String} (heq : String.ofList (text.map Char.toLower) = word) :
      text.map Char.toLower = word.toList := by
    rw [← heq, String.toList_ofList]
  unfold word? at h
  split at h
  · next heq =>
      rw [hchars heq]
      exact Or.inl rfl
  · next heq =>
      rw [hchars heq]
      exact Or.inl rfl
  · next heq =>
      rw [hchars heq]
      exact Or.inr rfl
  · cases h

theorem word?_eq_none {text : List Char} (h : forall c, c ∈ text -> isLiteralCharacter c = true) :
    word? text = none := by
  cases hword : word? text with
  | none =>
      rfl
  | some magnitude =>
      have hhead := head_of_word? hword
      cases text with
      | nil =>
          rcases hhead with hhead | hhead <;> cases hhead
      | cons c rest =>
          rcases toLower_of_isLiteralCharacter (h c List.mem_cons_self) with ⟨hi, hn⟩
          rw [List.map_cons, List.head?_cons, Option.some.injEq, Option.some.injEq] at hhead
          rcases hhead with hhead | hhead
          · exact absurd hhead hi
          · exact absurd hhead hn

end Coercion

open Coercion

theorem Signed.mem {text token : List Char} {negative : Bool} (h : Signed text negative token)
    {c : Char} (hc : c ∈ text) : c ∈ token := by
  cases h with
  | bare =>
      exact hc
  | plus =>
      exact List.mem_cons_of_mem _ hc
  | minus =>
      exact List.mem_cons_of_mem _ hc

theorem signed_cons {sign : Char} (h : sign ∈ ['+', '-']) (text : List Char) :
    Signed text (sign == '-') (sign :: text) := by
  rcases List.mem_cons.mp h with rfl | h
  · exact Signed.plus
  · cases List.mem_singleton.mp h
    exact Signed.minus

theorem Signed.isLiteralCharacter {text token : List Char} {negative : Bool}
    (hsigned : Signed text negative token)
    (htext : forall c, c ∈ text -> isLiteralCharacter c = true) {c : Char} (hc : c ∈ token) :
    isLiteralCharacter c = true :=
  isLiteralCharacter_iff_uses.mpr
    (hsigned.uses (fun c hc => isLiteralCharacter_iff_uses.mp (htext c hc)) hc)

namespace Numeral

variable {numeral : Numeral} {text token : List Char} {negative : Bool} {c : Char}

theorem BodyText.isLiteralCharacter (hbase : numeral.base = .ten) (h : numeral.BodyText text)
    (hc : c ∈ text) : isLiteralCharacter c = true :=
  isLiteralCharacter_iff_uses.mpr (hbase ▸ h.uses hc)

theorem DigitsText.mem (h : numeral.DigitsText text)
    (hc : c ∈ numeral.whole ++ numeral.fraction) : c ∈ text := by
  cases h with
  | plain hfraction =>
      rwa [hfraction, List.append_nil] at hc
  | pointed =>
      rcases List.mem_append.mp hc with hc | hc
      · exact List.mem_append_left _ hc
      · exact List.mem_append_right _ (List.mem_cons_of_mem _ hc)

theorem BodyText.exists_isDigit (hbase : numeral.base = .ten) (h : numeral.BodyText text) :
    exists c, c ∈ text ∧ c.isDigit = true := by
  rcases List.exists_mem_of_ne_nil _ h.ne_nil with ⟨c, hc⟩
  have hrow := h.isRow
  rw [hbase] at hrow
  rcases h.parts with ⟨digits, exponent, hdigits, _, rfl⟩
  exact ⟨c, List.mem_append_left _ (hdigits.mem hc), Base.isDigit_of_isSome (hrow c hc)⟩

theorem BodyText.unsigned (h : numeral.BodyText text) : Text.Unsigned text := by
  rcases h.parts with ⟨digits, exponent, hdigits, _, rfl⟩
  have hhead : (digits ++ exponent).head? = (numeral.whole ++ numeral.fraction).head? ∨
      (digits ++ exponent).head? = some '.' := by
    cases hdigits with
    | plain hfraction =>
        have hne := h.ne_nil
        rw [hfraction, List.append_nil] at hne ⊢
        exact Or.inl (List.head?_append_of_ne_nil _ hne)
    | pointed =>
        cases numeral.whole with
        | nil =>
            exact Or.inr rfl
        | cons first rest =>
            exact Or.inl rfl
  rcases hhead with hhead | hhead
  · unfold Text.Unsigned
    rw [hhead]
    exact h.isRow.unsigned
  · unfold Text.Unsigned
    rw [hhead]
    decide

theorem WrittenAs.unsigned (h : numeral.WrittenAs text) : Text.Unsigned text := by
  rcases h with ⟨head, body, hhead, hbody, rfl⟩
  cases hbase : numeral.base with
  | ten =>
      rw [hbase] at hhead
      cases List.mem_singleton.mp hhead
      exact hbody.unsigned
  | sixteen =>
      have hheads : forall head, head ∈ Base.sixteen.heads -> head.head? = some '0' := by
        decide
      rw [hbase] at hhead
      unfold Text.Unsigned
      rw [List.head?_append, hheads head hhead, Option.some_or]
      decide

end Numeral

/-!
## What is read

The forms exclude each other, as a numeral has no second sign, and a token is read behind
its first sign exactly if it has one of them.
-/

namespace Coercion

def Reading.ofLiteral (literal : Literal) (negative : Bool) (body : List Char) : Reading :=
  { negative
    magnitude := literal.nearest .binary64
    above := !negative && literal.nearest .binary64 = Magnitude.largest .binary64
      && exceeds body largestDigits }

theorem ofDecimal?_eq_some_iff {body : List Char} {reading : Reading} :
    Reading.ofDecimal? body = some reading <->
      exists literal negative text, literal.numeral.BodyText text ∧ Signed text negative body ∧
        reading = Reading.ofLiteral literal negative body := by
  unfold Reading.ofDecimal? readDecimal?
  dsimp only
  constructor
  · intro h
    split at h
    · next hchars =>
        rcases Option.map_eq_some_iff.mp h with ⟨⟨negative, magnitude⟩, hread, rfl⟩
        have hsigned := Text.signed_splitSign body
        split at hread
        · next literal hliteral =>
            cases hread
            exact ⟨literal, _, _, Literal.read?_eq_some_iff.mp hliteral, hsigned, rfl⟩
        · -- A word has other characters.
          rw [word?_eq_none, Option.map_none] at hread
          · cases hread
          · exact fun c hc => List.all_eq_true.mp hchars.left c (hsigned.mem hc)
    · cases h
  · rintro ⟨literal, negative, text, htext, hsigned, rfl⟩
    have hall : forall c, c ∈ body -> isLiteralCharacter c = true := fun c hc =>
      hsigned.isLiteralCharacter (fun x hx => htext.isLiteralCharacter rfl hx) hc
    rcases htext.exists_isDigit rfl with ⟨digit, hmem, hdigit⟩
    have hany : exists c, c ∈ body ∧ c.isDigit = true := ⟨digit, hsigned.mem hmem, hdigit⟩
    rw [if_pos ⟨List.all_eq_true.mpr hall, List.any_eq_true.mpr hany⟩,
      Text.splitSign_of_signed htext.unsigned hsigned]
    dsimp only
    rw [Literal.read?_eq_some_iff.mpr htext]
    rfl

theorem reading?_hexadecimal {head digits : List Char} (h : head ∈ Base.sixteen.heads) :
    reading? (head ++ digits) = (HexLiteral.read? digits).map Reading.ofHexLiteral := by
  rcases List.mem_cons.mp h with rfl | h
  · rfl
  · cases List.mem_singleton.mp h
    rfl

theorem reading?_decimal {body : List Char}
    (h : forall c, c ∈ body -> isLiteralCharacter c = true) :
    reading? body = Reading.ofDecimal? body := by
  unfold reading?
  split
  · exact absurd (h 'x' (by simp)) (by decide)
  · exact absurd (h 'X' (by simp)) (by decide)
  · rfl

end Coercion

namespace Numeral

/-- The texts of decimal numerals with two signs before them. -/
def TwiceSigned (token : List Char) : Prop :=
  exists (numeral : Numeral) (text : List Char) (first second : Char),
    numeral.base = .ten ∧ numeral.WrittenAs text ∧ first ∈ ['+', '-'] ∧ second ∈ ['+', '-'] ∧
      token = first :: second :: text

def IsText (token : List Char) : Prop :=
  exists numeral : Numeral, exists negative, numeral.SignedAs negative token

theorem TwiceSigned.not_isText {token : List Char} (h : TwiceSigned token) : ¬ IsText token := by
  rcases h with ⟨_, text, first, second, _, _, hfirst, hsecond, rfl⟩
  rintro ⟨numeral, negative, body, hwritten, hsigned⟩
  have hsign {sign : Char} (h : sign ∈ ['+', '-']) : some sign = some '+' ∨ some sign = some '-' := by
    rcases List.mem_cons.mp h with rfl | h
    · exact Or.inl rfl
    · exact Or.inr (congrArg some (List.mem_singleton.mp h))
  have hunsigned := hwritten.unsigned
  rcases hsigned.eq_or_cons with heq | ⟨sign, _, heq⟩
  · rw [← heq] at hunsigned
    rcases hsign hfirst with h | h
    · exact hunsigned.left h
    · exact hunsigned.right h
  · rw [← (List.cons.inj heq).right] at hunsigned
    rcases hsign hsecond with h | h
    · exact hunsigned.left h
    · exact hunsigned.right h

theorem writtenAs_ten_iff {numeral : Numeral} {text : List Char} (hbase : numeral.base = .ten) :
    numeral.WrittenAs text <-> numeral.BodyText text := by
  unfold WrittenAs
  rw [hbase]
  simp [Base.heads]

end Numeral

namespace Coercion

theorem reading?_isSome_iff {body : List Char} :
    (reading? body).isSome = true <->
      (exists numeral : Numeral, numeral.base = .sixteen ∧ numeral.WrittenAs body) ∨
        exists (numeral : Numeral) (negative : Bool),
          numeral.base = .ten ∧ numeral.SignedAs negative body := by
  rw [Option.isSome_iff_exists]
  constructor
  · rintro ⟨reading, h⟩
    have hhex (head digits : List Char) (hhead : head ∈ Base.sixteen.heads)
        (h : (HexLiteral.read? digits).map Reading.ofHexLiteral = some reading) :
        exists numeral : Numeral, numeral.base = .sixteen ∧ numeral.WrittenAs (head ++ digits) := by
      rcases Option.map_eq_some_iff.mp h with ⟨literal, hread, _⟩
      rcases HexLiteral.read?_eq_some_iff.mp hread with ⟨numeral, hbase, hbody, _⟩
      exact ⟨numeral, hbase, head, digits, by rw [hbase]; exact hhead, hbody, rfl⟩
    unfold reading? at h
    split at h
    · next digits =>
        exact Or.inl (hhex ['0', 'x'] digits (by decide) h)
    · next digits =>
        exact Or.inl (hhex ['0', 'X'] digits (by decide) h)
    · rcases ofDecimal?_eq_some_iff.mp h with ⟨literal, negative, text, htext, hsigned, _⟩
      exact Or.inr ⟨literal.numeral, negative, rfl, text,
        (Numeral.writtenAs_ten_iff rfl).mpr htext, hsigned⟩
  · rintro (⟨numeral, hbase, head, digits, hhead, hbody, rfl⟩ |
      ⟨⟨base, whole, fraction, exponent⟩, negative, hbase, text, htext, hsigned⟩)
    · rw [hbase] at hhead
      rw [reading?_hexadecimal hhead, HexLiteral.read?_eq_some_iff.mpr ⟨numeral, hbase, hbody, rfl⟩]
      exact ⟨_, rfl⟩
    · cases hbase
      have hbody := (Numeral.writtenAs_ten_iff rfl).mp htext
      have hliteral : (⟨whole, fraction, exponent⟩ : Literal).numeral.BodyText text := hbody
      rw [reading?_decimal fun c hc =>
        hsigned.isLiteralCharacter (fun x hx => hbody.isLiteralCharacter rfl hx) hc]
      exact ⟨_, ofDecimal?_eq_some_iff.mpr ⟨_, negative, text, hliteral, hsigned, rfl⟩⟩

theorem reading?_splitSign_isSome_iff {token : List Char} :
    (reading? (Text.splitSign token).2).isSome = true <->
      Numeral.IsText token ∨ Numeral.TwiceSigned token := by
  constructor
  · rw [reading?_isSome_iff]
    have hsigned := Text.signed_splitSign token
    generalize (Text.splitSign token).1 = negative at hsigned
    generalize (Text.splitSign token).2 = body at hsigned
    rintro (⟨numeral, _, hwritten⟩ | ⟨numeral, inner, hbase, text, hwritten, hinner⟩)
    · exact Or.inl ⟨numeral, negative, body, hwritten, hsigned⟩
    · rcases hinner.eq_or_cons with rfl | ⟨second, hsecond, rfl⟩
      · exact Or.inl ⟨numeral, negative, body, hwritten, hsigned⟩
      · rcases hsigned.eq_or_cons with rfl | ⟨first, hfirst, rfl⟩
        · exact Or.inl ⟨numeral, inner, text, hwritten, hinner⟩
        · exact Or.inr ⟨numeral, text, first, second, hbase, hwritten, hfirst, hsecond, rfl⟩
  · rintro (⟨numeral, negative, text, hwritten, hsigned⟩ |
      ⟨numeral, text, first, second, hbase, hwritten, hfirst, hsecond, rfl⟩)
    · rw [Text.splitSign_of_signed hwritten.unsigned hsigned, reading?_isSome_iff]
      cases hbase : numeral.base with
      | ten =>
          exact Or.inr ⟨numeral, false, hbase, text, hwritten, Signed.bare⟩
      | sixteen =>
          exact Or.inl ⟨numeral, hbase, hwritten⟩
    · have hsplit : (Text.splitSign (first :: second :: text)).2 = second :: text := by
        rcases List.mem_cons.mp hfirst with rfl | hfirst
        · rfl
        · cases List.mem_singleton.mp hfirst
          rfl
      rw [hsplit, reading?_isSome_iff]
      exact Or.inr ⟨numeral, _, hbase, text, hwritten, signed_cons hsecond text⟩

/-!
## Results

A token is empty, of no form, or read, and each way has results of its own.
-/

def Reading.InRange (reading : Reading) (format : Format) : Prop :=
  reading.above = false ∧
    match format with
    | .binary64 => reading.magnitude.isFinite = true
    | .binary32 => reading.magnitude.AtMost ((2 ^ 24 - 1 : Nat) * 2 ^ (104 : Int))

variable {token : List Char} {format : Format} {reading : Reading}

theorem number_of_unread (h : reading? (Text.splitSign token).2 = none) :
    number token format =
      .error (.invalid (String.ofList token) (.scalar (.float format))) := by
  unfold number
  dsimp only
  rw [h]

theorem number_of_inRange (h : reading? (Text.splitSign token).2 = some reading)
    (hrange : reading.InRange format) : exists value, number token format = .ok value := by
  rcases reading with ⟨negative, magnitude, above⟩
  rcases hrange with ⟨rfl, hfinite⟩
  unfold number
  dsimp only
  rw [h]
  cases magnitude with
  | finite significand exponent =>
      cases format with
      | binary64 =>
          exact ⟨_, rfl⟩
      | binary32 =>
          dsimp only at hfinite ⊢
          rw [Magnitude.above_eq_false_iff.mpr hfinite]
          exact ⟨_, rfl⟩
  | infinite =>
      cases format <;> cases hfinite
  | nan =>
      cases format <;> cases hfinite

theorem number_of_not_inRange (h : reading? (Text.splitSign token).2 = some reading)
    (hrange : ¬ reading.InRange format) :
    number token format =
      .error (.outOfRange (String.ofList token) (.scalar (.float format))) := by
  rcases reading with ⟨negative, magnitude, above⟩
  unfold number
  dsimp only
  rw [h]
  cases magnitude with
  | finite significand exponent =>
      cases above with
      | true =>
          rfl
      | false =>
          cases format with
          | binary64 =>
              exact absurd ⟨rfl, rfl⟩ hrange
          | binary32 =>
              have habove : Magnitude.above (significand, exponent)
                  (2 ^ (24 : Nat) - 1, 104) = true := by
                rw [← Bool.not_eq_false, Magnitude.above_eq_false_iff]
                exact fun hle => hrange ⟨rfl, hle⟩
              dsimp only
              rw [habove]
              rfl
  | infinite =>
      rfl
  | nan =>
      rfl

theorem valueOfChars_float {text : List Char} :
    valueOfChars text (.scalar (.float format)) .value =
      if Text.trim text = [] then .error .empty else number (Text.trim text) format := by
  unfold valueOfChars plain
  dsimp only
  cases Text.trim text with
  | nil =>
      rfl
  | cons c rest =>
      rfl

theorem not_read_nil : ¬ (Numeral.IsText [] ∨ Numeral.TwiceSigned []) := by
  rw [← reading?_splitSign_isSome_iff]
  decide

theorem number_cases (token : List Char) (format : Format) :
    (Numeral.IsText token ∨ Numeral.TwiceSigned token) ∧
        ((exists value, number token format = .ok value) ∨
          number token format =
            .error (.outOfRange (String.ofList token) (.scalar (.float format)))) ∨
      ¬ (Numeral.IsText token ∨ Numeral.TwiceSigned token) ∧
        number token format =
          .error (.invalid (String.ofList token) (.scalar (.float format))) := by
  rw [← reading?_splitSign_isSome_iff]
  cases hread : reading? (Text.splitSign token).2 with
  | none =>
      exact Or.inr ⟨by decide, number_of_unread hread⟩
  | some reading =>
      refine Or.inl ⟨rfl, ?_⟩
      by_cases hrange : reading.InRange format
      · exact Or.inl (number_of_inRange hread hrange)
      · exact Or.inr (number_of_not_inRange hread hrange)

end Coercion

/-- A text is refused as empty or for its form, and in no other case: what has the form of a
number is a value or out of range. The forms are those of the numerals, and besides them those of
the decimal numerals with two signs. -/
theorem float_form_settles (text : String) (format : Format) :
    let token := Text.trim text.toList
    let kind := Kind.scalar (.float format)
    (coerceValue text kind .value = .error .empty <-> token = []) ∧
      (coerceValue text kind .value = .error (.invalid (String.ofList token) kind) <->
        token ≠ [] ∧ ¬ Numeral.IsText token ∧ ¬ Numeral.TwiceSigned token) ∧
      ((exists value, coerceValue text kind .value = .ok value) ∨
          coerceValue text kind .value = .error (.outOfRange (String.ofList token) kind) <->
        Numeral.IsText token ∨ Numeral.TwiceSigned token) := by
  intro token kind
  have hvalue : coerceValue text kind .value =
      if token = [] then .error .empty else Coercion.number token format :=
    Coercion.valueOfChars_float
  rw [hvalue, ← not_or]
  by_cases htoken : token = []
  · rw [htoken, if_pos rfl]
    exact ⟨iff_of_true rfl rfl, iff_of_false (by simp) (by simp),
      iff_of_false (by simp) Coercion.not_read_nil⟩
  · rw [if_neg htoken]
    rcases Coercion.number_cases token format with ⟨hform, hresult⟩ | ⟨hform, hresult⟩
    · have hrefused : Coercion.number token format ≠ .error .empty ∧
          Coercion.number token format ≠ .error (.invalid (String.ofList token) kind) := by
        rcases hresult with ⟨value, hresult⟩ | hresult
        · rw [hresult]
          exact ⟨by simp, by simp⟩
        · rw [hresult]
          exact ⟨by simp, by simp⟩
      exact ⟨iff_of_false hrefused.left htoken,
        iff_of_false hrefused.right fun hnot => hnot.right hform, iff_of_true hresult hform⟩
    · rw [hresult]
      exact ⟨iff_of_false (by simp) htoken, iff_of_true rfl ⟨htoken, hform⟩,
        iff_of_false (by simp) hform⟩

namespace TwoSigns

/-- Five behind two minus signs is no numeral. It is read as five. -/
theorem read_as_five :
    ¬ Numeral.IsText "--5".toList ∧
      coerceValue "--5" .f64 .value = .ok (.float .binary64 0x4014000000000000) := by
  have htwice : Numeral.TwiceSigned "--5".toList := by
    refine ⟨{ base := .ten, whole := ['5'], fraction := [], exponent := 0 }, ['5'], '-', '-', rfl,
      ?_, by decide, by decide, rfl⟩
    rw [Numeral.writtenAs_ten_iff rfl]
    exact ⟨by decide, by decide, ['5'], [], Numeral.DigitsText.plain rfl,
      Numeral.ExponentText.absent rfl, rfl⟩
  exact ⟨htwice.not_isText, by decide +kernel⟩

end TwoSigns

end VideoConfig
