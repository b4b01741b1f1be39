import VideoConfig.Proofs.Coercion
import VideoConfig.Proofs.Coercion.Forms
import VideoConfig.Proofs.Coercion.Integers
import VideoConfig.Proofs.Text.Pieces

/-!
# Lists of values from text

Texts without commas are read from a list that joins them as they are read one by one. Joined
to one text they are no value any more, as no value is written with a comma but the comma
itself; only a code of four characters may have commas in it.
-/

namespace VideoConfig

variable {tokens : List String}

/-!
## Joined texts
-/

theorem toList_commas (tokens : List String) :
    (String.intercalate "," tokens).toList = [','].intercalate (tokens.map String.toList) :=
  String.toList_intercalate

theorem coerceList_commas (hne : tokens ≠ [])
    (hcommas : forall token, token ∈ tokens -> ',' ∉ token.toList) (kind : Kind)
    (category : Category) :
    coerceList (String.intercalate "," tokens) kind category =
      tokens.mapM fun token => coerceValue token kind category := by
  have hparts : forall part, part ∈ tokens.map String.toList -> ',' ∉ part := by
    intro part hpart
    rcases List.mem_map.mp hpart with ⟨token, htoken, rfl⟩
    exact hcommas token htoken
  unfold coerceList
  rw [toList_commas, Text.pieces_intercalate (by simpa using hne) hparts, List.mapM_map]
  rfl

/-!
## Values with commas

The only plain value that is written with a comma is the comma itself, and nothing blank is
read as a value.
-/

theorem IntegerText.comma_not_mem {negative : Bool} {magnitude : Nat} {text : List Char}
    (h : IntegerText negative magnitude text) : ',' ∉ text :=
  fun hmem => absurd (h.uses .ten hmem) (by decide)

theorem comma_not_mem_signedDecimal (n : Int) : ',' ∉ (Text.signedDecimal n).toList := by
  rcases IntegerText.exists_signedDecimal n with ⟨negative, magnitude, htext, _, _⟩
  exact htext.comma_not_mem

namespace Numeral

theorem WrittenAs.comma_not_mem {numeral : Numeral} {text : List Char}
    (h : numeral.WrittenAs text) : ',' ∉ text := by
  rcases h with ⟨head, body, hhead, hbody, rfl⟩
  intro hmem
  rcases List.mem_append.mp hmem with hmem | hmem
  · have hheads : forall base : Base, forall head, head ∈ base.heads -> ',' ∉ head := by
      intro base
      cases base <;> decide
    exact hheads numeral.base head hhead hmem
  · have huses := hbody.uses hmem
    cases hbase : numeral.base <;> (rw [hbase] at huses; exact absurd huses (by decide))

theorem IsText.comma_not_mem {token : List Char} (h : IsText token) : ',' ∉ token := by
  rcases h with ⟨numeral, negative, text, hwritten, hsigned⟩
  rcases hsigned.eq_or_cons with rfl | ⟨sign, hsign, rfl⟩
  · exact hwritten.comma_not_mem
  · intro hmem
    rcases List.mem_cons.mp hmem with rfl | hmem
    · exact absurd hsign (by decide)
    · exact hwritten.comma_not_mem hmem

theorem TwiceSigned.comma_not_mem {token : List Char} (h : TwiceSigned token) :
    ',' ∉ token := by
  rcases h with ⟨numeral, text, first, second, _, hwritten, hfirst, hsecond, rfl⟩
  intro hmem
  rcases List.mem_cons.mp hmem with rfl | hmem
  · exact absurd hfirst (by decide)
  · rcases List.mem_cons.mp hmem with rfl | hmem
    · exact absurd hsecond (by decide)
    · exact hwritten.comma_not_mem hmem

end Numeral

namespace Coercion

theorem eq_comma_of_plain {token : List Char} {scalar : Scalar} {value : Value}
    (h : plain token (.scalar scalar) = .ok value) (hcomma : ',' ∈ token) : token = [','] := by
  cases token with
  | nil =>
      cases hcomma
  | cons c rest =>
      cases scalar with
      | int kind =>
          have hinteger : integer (c :: rest) kind = .ok value := h
          have htext : exists negative magnitude, IntegerText negative magnitude (c :: rest) := by
            by_contra hnot
            rw [integer_of_not_text hnot] at hinteger
            cases hinteger
          rcases htext with ⟨negative, magnitude, htext⟩
          exact absurd hcomma htext.comma_not_mem
      | float format =>
          have hnumber : number (c :: rest) format = .ok value := h
          rcases number_cases (c :: rest) format with ⟨hform | hform, _⟩ | ⟨_, hinvalid⟩
          · exact absurd hcomma hform.comma_not_mem
          · exact absurd hcomma hform.comma_not_mem
          · rw [hinvalid] at hnumber
            cases hnumber
      | char =>
          cases rest with
          | nil =>
              rw [List.mem_singleton.mp hcomma]
          | cons d others =>
              cases h

theorem exists_not_blank_of_valueOfChars {text : List Char} {kind : Kind} {category : Category}
    {value : Value} (h : valueOfChars text kind category = .ok value) :
    exists c, c ∈ text ∧ Text.isBlank c = false := by
  refine Text.exists_not_blank ?_
  intro hblank
  have htrim : Text.trim text = [] := by
    rw [Text.trim, hblank]
    rfl
  have hcode : ¬ IsCode text category := by
    rintro ⟨_, code, hcode⟩
    rw [code?, hblank, htrim] at hcode
    cases hcode
  rw [valueOfChars_of_not_isCode hcode, htrim] at h
  cases h

end Coercion

/-- Values that are joined by commas are no single value, unless they are taken for a code. -/
theorem coerceValue_commas (hlength : 1 < tokens.length)
    (hcommas : forall token, token ∈ tokens -> ',' ∉ token.toList) {scalar : Scalar}
    {category : Category} {values : List Value}
    (hvalues : List.Forall₂ (fun token value =>
      coerceValue token (.scalar scalar) category = .ok value) tokens values)
    (hcode : ¬ Coercion.IsCode (String.intercalate "," tokens).toList category) :
    exists cause,
      coerceValue (String.intercalate "," tokens) (.scalar scalar) category = .error cause := by
  rw [toList_commas] at hcode
  rw [coerceValue, toList_commas, Coercion.valueOfChars_of_not_isCode hcode]
  generalize hjoined : [','].intercalate (tokens.map String.toList) = joined
  cases hplain : Coercion.plain (Text.trim joined) (.scalar scalar) with
  | error cause =>
      exact ⟨cause, rfl⟩
  | ok value =>
      -- The comma and what is not blank in front of it are both left, so it is not alone.
      cases tokens with
      | nil =>
          exact absurd hlength (by decide)
      | cons first rest =>
          cases rest with
          | nil =>
              exact absurd hlength (Nat.lt_irrefl 1)
          | cons second others =>
              rcases List.forall₂_cons_left_iff.mp hvalues with ⟨_, _, hvalue, _, _⟩
              rcases Coercion.exists_not_blank_of_valueOfChars hvalue with ⟨c, hc, hblank⟩
              rw [List.map_cons, List.map_cons, List.intercalate_cons_cons] at hjoined
              have hcomma : ',' ∈ Text.trim joined :=
                Text.mem_trim (by rw [← hjoined]; simp) (by decide)
              have hfirst : c ∈ Text.trim joined :=
                Text.mem_trim (by rw [← hjoined]; simp [hc]) hblank
              rw [Coercion.eq_comma_of_plain hplain hcomma, List.mem_singleton] at hfirst
              subst hfirst
              exact absurd hc (hcommas first List.mem_cons_self)

end VideoConfig
