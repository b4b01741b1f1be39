import VideoConfig.Proofs.Bytes
import VideoConfig.Proofs.Text.Utf8
import VideoConfig.Value

/-!
# Stored values

A scalar is stored in as many bytes as its kind takes, and read back from them as itself.
Every list of that many bytes is a scalar of the kind.
-/

namespace VideoConfig
namespace Value

def IsScalar (value : Value) (scalar : Scalar) : Prop :=
  value.scalar = scalar ∧ forall contents, value ≠ text contents

theorem isScalar_int (kind : IntKind) (word : BitVec kind.width.bits) :
    (int kind word).IsScalar (.int kind) :=
  ⟨rfl, by simp⟩

theorem isScalar_float (format : Floating.Format) (word : BitVec format.width) :
    (float format word).IsScalar (.float format) :=
  ⟨rfl, by simp⟩

theorem isScalar_char (byte : UInt8) : (char byte).IsScalar .char :=
  ⟨rfl, by simp⟩

theorem ofNat_toNat_bytes {bits width : Nat} (hbits : bits = 8 * width)
    (word : BitVec bits) :
    BitVec.ofNat bits (Bytes.ofNat width word.toNat).toNat = word := by
  subst hbits
  have hlt : word.toNat < 256 ^ width := by
    have h := word.isLt
    rwa [Nat.pow_mul] at h
  rw [Bytes.toNat_ofNat]
  refine BitVec.eq_of_toNat_eq ?_
  rw [BitVec.toNat_ofNat]
  have hmod : word.toNat % 256 ^ width = word.toNat := Nat.mod_eq_of_lt hlt
  exact (congrArg (· % 2 ^ (8 * width)) hmod).trans (Nat.mod_eq_of_lt word.isLt)

theorem decodeScalar?_int {kind : IntKind} {bytes : Bytes}
    (h : bytes.length = kind.width.bytes) :
    decodeScalar? (.int kind) bytes = some (int kind (BitVec.ofNat _ bytes.toNat)) :=
  if_pos h

theorem decodeScalar?_float {format : Floating.Format} {bytes : Bytes}
    (h : bytes.length = format.size) :
    decodeScalar? (.float format) bytes = some (float format (BitVec.ofNat _ bytes.toNat)) :=
  if_pos h

theorem encode?_of_isScalar {value : Value} {scalar : Scalar}
    (h : value.IsScalar scalar) :
    exists bytes, value.encode? = some bytes ∧ bytes.length = scalar.size ∧
      decodeScalar? scalar bytes = some value := by
  rcases h with ⟨rfl, htext⟩
  cases value with
  | int kind word =>
      have hbits : kind.width.bits = 8 * kind.width.bytes := rfl
      refine ⟨_, rfl, Bytes.length_ofNat _ _, ?_⟩
      exact (decodeScalar?_int (Bytes.length_ofNat _ _)).trans
        (by rw [ofNat_toNat_bytes hbits word])
  | float format word =>
      have hbits : format.width = 8 * format.size := by
        cases format <;> rfl
      refine ⟨_, rfl, Bytes.length_ofNat _ _, ?_⟩
      exact (decodeScalar?_float (Bytes.length_ofNat _ _)).trans
        (by rw [ofNat_toNat_bytes hbits word])
  | char byte =>
      exact ⟨_, rfl, rfl, rfl⟩
  | text contents =>
      exact absurd rfl (htext contents)

theorem exists_decodeScalar? {scalar : Scalar} {bytes : Bytes}
    (h : bytes.length = scalar.size) :
    exists value, decodeScalar? scalar bytes = some value := by
  cases scalar with
  | int kind =>
      exact ⟨_, decodeScalar?_int h⟩
  | float format =>
      exact ⟨_, decodeScalar?_float h⟩
  | char =>
      cases bytes with
      | nil =>
          cases h
      | cons byte rest =>
          exact ⟨char byte, if_pos h⟩

theorem toNat_ofNat_bytes {bits : Nat} {bytes : Bytes} (hbits : bits = 8 * bytes.length) :
    (BitVec.ofNat bits bytes.toNat).toNat = bytes.toNat := by
  have hlt := bytes.toNat_lt
  rw [BitVec.toNat_ofNat, hbits, Nat.pow_mul]
  exact Nat.mod_eq_of_lt hlt

theorem length_of_decodeScalar? {scalar : Scalar} {bytes : Bytes} {value : Value}
    (h : decodeScalar? scalar bytes = some value) : bytes.length = scalar.size := by
  unfold decodeScalar? at h
  split at h
  · next hsize =>
      exact hsize
  · cases h

theorem encode?_of_decodeScalar? {scalar : Scalar} {bytes : Bytes} {value : Value}
    (h : decodeScalar? scalar bytes = some value) : value.encode? = some bytes := by
  have hsize := length_of_decodeScalar? h
  cases scalar with
  | int kind =>
      rw [decodeScalar?_int hsize] at h
      cases h
      have hbits : kind.width.bits = 8 * bytes.length := congrArg (8 * ·) hsize.symm
      rw [encode?, toNat_ofNat_bytes hbits, ← show bytes.length = kind.width.bytes from hsize,
        Bytes.ofNat_toNat]
  | float format =>
      rw [decodeScalar?_float hsize] at h
      cases h
      have hbits : format.width = 8 * bytes.length := by
        rw [hsize]
        cases format <;> rfl
      rw [encode?, toNat_ofNat_bytes hbits, ← show bytes.length = format.size from hsize,
        Bytes.ofNat_toNat]
  | char =>
      rcases List.length_eq_one_iff.mp hsize with ⟨byte, rfl⟩
      cases h
      rfl

theorem isScalar_of_decodeScalar? {scalar : Scalar} {bytes : Bytes} {value : Value}
    (h : decodeScalar? scalar bytes = some value) : value.IsScalar scalar := by
  have hsize := length_of_decodeScalar? h
  cases scalar with
  | int kind =>
      rw [decodeScalar?_int hsize] at h
      cases h
      exact isScalar_int kind _
  | float format =>
      rw [decodeScalar?_float hsize] at h
      cases h
      exact isScalar_float format _
  | char =>
      rcases List.length_eq_one_iff.mp hsize with ⟨byte, rfl⟩
      cases h
      exact isScalar_char byte

theorem isScalar_int_iff {kind : IntKind} {value : Value} :
    value.IsScalar (.int kind) <-> exists word, value = int kind word := by
  constructor
  · rintro ⟨hscalar, htext⟩
    cases value with
    | int found word =>
        cases hscalar
        exact ⟨word, rfl⟩
    | float _ _ =>
        cases hscalar
    | char _ =>
        cases hscalar
    | text _ =>
        cases hscalar
  · rintro ⟨word, rfl⟩
    exact isScalar_int kind word

/-!
## Values written over others
-/

theorem eq_text_or_isScalar (value : Value) :
    (exists contents, value = text contents) ∨ value.IsScalar value.scalar := by
  cases value with
  | int kind word =>
      exact Or.inr (isScalar_int kind word)
  | float format word =>
      exact Or.inr (isScalar_float format word)
  | char byte =>
      exact Or.inr (isScalar_char byte)
  | text contents =>
      exact Or.inl ⟨contents, rfl⟩

/-- What an element that holds the value `old` holds once `value` is written over it. A whole
text is not written to one element. -/
def writtenOver (value old : Value) : Value :=
  match value with
  | text _ => old
  | value => value

theorem writtenOver_of_isScalar {value : Value} {scalar : Scalar} (h : value.IsScalar scalar) :
    value.writtenOver = fun _ => value := by
  cases value with
  | text contents =>
      exact absurd rfl (h.right contents)
  | _ =>
      rfl

def writtenOverAll (values before : List Value) : List Value :=
  List.zipWith writtenOver values before ++ before.drop values.length

theorem length_writtenOverAll (values before : List Value) :
    (writtenOverAll values before).length = before.length := by
  unfold writtenOverAll
  rw [List.length_append, List.length_zipWith, List.length_drop]
  omega

theorem getElem?_writtenOverAll_of_lt {values before : List Value} {i : Nat}
    (hi : i < values.length) :
    (writtenOverAll values before)[i]? = before[i]?.map values[i].writtenOver := by
  unfold writtenOverAll
  rcases Nat.lt_or_ge i before.length with hlt | hge
  · rw [List.getElem?_append_left (by rw [List.length_zipWith]; omega), List.getElem?_zipWith,
      List.getElem?_eq_getElem hi, List.getElem?_eq_getElem hlt]
    rfl
  · rw [List.getElem?_eq_none hge, List.getElem?_eq_none]
    · rfl
    · rw [List.length_append, List.length_zipWith, List.length_drop]
      omega

theorem getElem?_writtenOverAll_of_le {values before : List Value} {i : Nat}
    (hi : values.length ≤ i) : (writtenOverAll values before)[i]? = before[i]? := by
  unfold writtenOverAll
  rcases Nat.lt_or_ge i before.length with hlt | hge
  · rw [List.getElem?_append_right (by rw [List.length_zipWith]; omega), List.getElem?_drop,
      List.length_zipWith]
    congr 1
    omega
  · rw [List.getElem?_eq_none hge, List.getElem?_eq_none]
    rw [List.length_append, List.length_zipWith, List.length_drop]
    omega

theorem writtenOverAll_of_isScalar {values before : List Value} {scalar : Scalar}
    (h : forall value, value ∈ values -> value.IsScalar scalar) :
    writtenOverAll values before = values.take before.length ++ before.drop values.length := by
  unfold writtenOverAll
  congr 1
  induction values generalizing before with
  | nil =>
      rw [List.zipWith_nil_left, List.take_nil]
  | cons value rest ih =>
      cases before with
      | nil =>
          rw [List.zipWith_nil_right]
          rfl
      | cons old others =>
          rw [List.zipWith_cons_cons, writtenOver_of_isScalar (h value List.mem_cons_self),
            ih fun other hother => h other (List.mem_cons_of_mem value hother)]
          rfl

/-!
## Texts

A text with zeros behind it is read as the text up to its first zero character.
-/

theorem ofTextBytes_encode (contents : String) (size : Nat) :
    ofTextBytes (Text.encodeUtf8 contents ++ Bytes.zeros size) =
      text (Text.untilNul contents) := by
  rw [ofTextBytes, Text.decodeUtf8_untilZero_encode]

end Value
end VideoConfig
