import VideoConfig.Coercion
import VideoConfig.Proofs.Attempt
import VideoConfig.Proofs.Value

/-!
# Kinds of values read from text

A text for a field is read as a scalar of the field's kind. Codes of four characters are
words of 32 bits, so they suit a field only if that is its kind. A text that is taken for no
code is read as it stands.
-/

namespace VideoConfig
namespace Coercion

theorem isScalar_of_integer {token : List Char} {kind : IntKind} {value : Value}
    (h : integer token kind = .ok value) : value.IsScalar (.int kind) := by
  unfold integer at h
  dsimp only at h
  split at h
  · cases h
  · split at h
    · cases h
    · -- The sign is decided before the bounds are.
      split at h <;> split at h
      · cases h
        exact Value.isScalar_int kind _
      · cases h
      · cases h
        exact Value.isScalar_int kind _
      · cases h

theorem isScalar_of_number {token : List Char} {format : Floating.Format} {value : Value}
    (h : number token format = .ok value) : value.IsScalar (.float format) := by
  unfold number at h
  dsimp only at h
  split at h
  · cases h
  · split at h
    · split at h
      · cases h
      · cases format with
        | binary64 =>
            cases h
            exact Value.isScalar_float .binary64 _
        | binary32 =>
            dsimp only at h
            split at h
            · cases h
            · cases h
              exact Value.isScalar_float .binary32 _
    · cases h

theorem isScalar_of_plain {token : List Char} {scalar : Scalar} {value : Value}
    (h : plain token (.scalar scalar) = .ok value) : value.IsScalar scalar := by
  unfold plain at h
  split at h
  · cases h
  · next hkind =>
      cases hkind
      exact isScalar_of_integer h
  · next hkind =>
      cases hkind
      exact isScalar_of_number h
  · next hkind =>
      cases hkind
      split at h
      · cases h
        exact Value.isScalar_char _
      · cases h
  · cases h
  · cases h

def IsCode (text : List Char) (category : Category) : Prop :=
  category = .fourCC ∧ exists code, code? text = some code

theorem valueOfChars_of_code {text : List Char} {code : BitVec 32} (h : code? text = some code)
    (kind : Kind) : valueOfChars text kind .fourCC = .ok (Value.u32 code) := by
  unfold valueOfChars
  dsimp only
  rw [h]

theorem valueOfChars_of_not_isCode {text : List Char} {category : Category}
    (h : ¬ IsCode text category) (kind : Kind) :
    valueOfChars text kind category = plain (Text.trim text) kind := by
  cases category with
  | value =>
      rfl
  | fourCC =>
      unfold valueOfChars
      dsimp only
      split
      · next code hcode =>
          exact absurd ⟨rfl, code, hcode⟩ h
      · rfl

def CodesFit (kind : Kind) (category : Category) : Prop :=
  category = .fourCC -> kind = .u32

instance (kind : Kind) (category : Category) : Decidable (CodesFit kind category) :=
  inferInstanceAs (Decidable (category = .fourCC -> kind = .u32))

/-- A value that is read is a scalar of the field's kind, or the code of four characters that a
field for codes takes. -/
theorem isScalar_or_code_of_valueOfChars {text : List Char} {scalar : Scalar}
    {category : Category} {value : Value}
    (h : valueOfChars text (.scalar scalar) category = .ok value) :
    value.IsScalar scalar ∨ category = .fourCC ∧ exists code, value = Value.u32 code := by
  cases category with
  | value =>
      exact Or.inl (isScalar_of_plain h)
  | fourCC =>
      unfold valueOfChars at h
      dsimp only at h
      split at h
      · next code _ =>
          cases h
          exact Or.inr ⟨rfl, code, rfl⟩
      · exact Or.inl (isScalar_of_plain h)

theorem isScalar_of_valueOfChars {text : List Char} {scalar : Scalar}
    {category : Category} {value : Value} (hcodes : CodesFit (.scalar scalar) category)
    (h : valueOfChars text (.scalar scalar) category = .ok value) :
    value.IsScalar scalar := by
  rcases isScalar_or_code_of_valueOfChars h with hscalar | ⟨hcategory, code, rfl⟩
  · exact hscalar
  · cases hcodes hcategory
    exact Value.isScalar_int _ _

end Coercion

theorem isScalar_of_coerceValue {text : String} {scalar : Scalar} {category : Category}
    {value : Value} (hcodes : Coercion.CodesFit (.scalar scalar) category)
    (h : coerceValue text (.scalar scalar) category = .ok value) : value.IsScalar scalar :=
  Coercion.isScalar_of_valueOfChars hcodes h

theorem coerceText_eq_ok {text : String} {capacity : Nat} {bytes : Bytes} :
    coerceText text capacity = .ok bytes <->
      (Text.encodeUtf8 text).length < capacity ∧
        bytes = Text.encodeUtf8 text ++
          Bytes.zeros (capacity - (Text.encodeUtf8 text).length) := by
  unfold coerceText
  dsimp only
  split
  · next hlong =>
      constructor
      · intro h
        cases h
      · rintro ⟨hlt, _⟩
        omega
  · next hlong =>
      constructor
      · intro h
        cases h
        exact ⟨Nat.lt_of_not_le hlong, rfl⟩
      · rintro ⟨_, rfl⟩
        rfl

end VideoConfig
