import VideoConfig.Bytes
import VideoConfig.Text.Utf8

/-!
# Texts read back

A text that is stored in UTF-8 is read back as itself, and the zero byte stands for the
character with the number zero alone. So a text with zeros behind it is read up to its
first zero character.
-/

namespace VideoConfig
namespace Text

/-!
## Reading one character

Apart from shorter forms, surrogates and numbers past the last character any continuation
may be second.
-/

theorem decodeUtf8Chars_one {b0 : UInt8} {rest : List UInt8} (h0 : b0.toNat < 0x80) :
    decodeUtf8Chars (b0 :: rest) = Char.ofNat b0.toNat :: decodeUtf8Chars rest := by
  have hb0 : b0 < 0x80 := UInt8.lt_iff_toNat_lt.mpr h0
  rw [decodeUtf8Chars.eq_def]
  dsimp only
  rw [if_pos hb0]

theorem isContinuation_eq_true {b : UInt8} (hlow : 0x80 ≤ b.toNat) (hhigh : b.toNat ≤ 0xBF) :
    isContinuation b = true := by
  simp only [isContinuation, Bool.and_eq_true, decide_eq_true_eq, UInt8.le_iff_toNat_le]
  exact ⟨hlow, hhigh⟩

theorem secondOfThree_eq_true {b0 b1 : UInt8} (hlong : b0.toNat = 0xE0 -> 0xA0 ≤ b1.toNat)
    (hsurrogate : b0.toNat = 0xED -> b1.toNat ≤ 0x9F) (h1 : isContinuation b1 = true) :
    secondOfThree b0 b1 = true := by
  have hbounds : 0x80 ≤ b1.toNat ∧ b1.toNat ≤ 0xBF := by
    simpa [isContinuation, UInt8.le_iff_toNat_le] using h1
  unfold secondOfThree
  split
  · next heq =>
      have h := hlong (by rw [heq]; rfl)
      simp only [Bool.and_eq_true, decide_eq_true_eq, UInt8.le_iff_toNat_le, UInt8.toNat_ofNat]
      omega
  · split
    · next heq =>
        have h := hsurrogate (by rw [heq]; rfl)
        simp only [Bool.and_eq_true, decide_eq_true_eq, UInt8.le_iff_toNat_le,
          UInt8.toNat_ofNat]
        omega
    · exact h1

theorem secondOfFour_eq_true {b0 b1 : UInt8} (hlong : b0.toNat = 0xF0 -> 0x90 ≤ b1.toNat)
    (hlast : b0.toNat = 0xF4 -> b1.toNat ≤ 0x8F) (h1 : isContinuation b1 = true) :
    secondOfFour b0 b1 = true := by
  have hbounds : 0x80 ≤ b1.toNat ∧ b1.toNat ≤ 0xBF := by
    simpa [isContinuation, UInt8.le_iff_toNat_le] using h1
  unfold secondOfFour
  split
  · next heq =>
      have h := hlong (by rw [heq]; rfl)
      simp only [Bool.and_eq_true, decide_eq_true_eq, UInt8.le_iff_toNat_le, UInt8.toNat_ofNat]
      omega
  · split
    · next heq =>
        have h := hlast (by rw [heq]; rfl)
        simp only [Bool.and_eq_true, decide_eq_true_eq, UInt8.le_iff_toNat_le,
          UInt8.toNat_ofNat]
        omega
    · exact h1

theorem decodeUtf8Chars_two {b0 b1 : UInt8} {rest : List UInt8} (hlow : 0xC2 ≤ b0.toNat)
    (hhigh : b0.toNat ≤ 0xDF) (h1 : isContinuation b1 = true) :
    decodeUtf8Chars (b0 :: b1 :: rest) = ofTwo b0 b1 :: decodeUtf8Chars rest := by
  have hone : ¬ b0 < 0x80 := by
    simp only [UInt8.lt_iff_toNat_lt, UInt8.toNat_ofNat]
    omega
  have htwo : (0xC2 ≤ b0 && b0 ≤ 0xDF) = true := by
    simp only [Bool.and_eq_true, decide_eq_true_eq, UInt8.le_iff_toNat_le]
    exact ⟨hlow, hhigh⟩
  rw [decodeUtf8Chars.eq_def]
  dsimp only
  rw [if_neg hone, if_pos htwo]
  simp only [h1, if_true]

theorem decodeUtf8Chars_three {b0 b1 b2 : UInt8} {rest : List UInt8}
    (hlow : 0xE0 ≤ b0.toNat) (hhigh : b0.toNat ≤ 0xEF) (h1 : secondOfThree b0 b1 = true)
    (h2 : isContinuation b2 = true) :
    decodeUtf8Chars (b0 :: b1 :: b2 :: rest) = ofThree b0 b1 b2 :: decodeUtf8Chars rest := by
  have hone : ¬ b0 < 0x80 := by
    simp only [UInt8.lt_iff_toNat_lt, UInt8.toNat_ofNat]
    omega
  have htwo : ¬ (0xC2 ≤ b0 && b0 ≤ 0xDF) = true := by
    simp only [Bool.and_eq_true, decide_eq_true_eq, UInt8.le_iff_toNat_le, UInt8.toNat_ofNat]
    omega
  have hthree : (0xE0 ≤ b0 && b0 ≤ 0xEF) = true := by
    simp only [Bool.and_eq_true, decide_eq_true_eq, UInt8.le_iff_toNat_le]
    exact ⟨hlow, hhigh⟩
  rw [decodeUtf8Chars.eq_def]
  dsimp only
  rw [if_neg hone, if_neg htwo, if_pos hthree]
  simp only [h1, h2, if_true]

theorem decodeUtf8Chars_four {b0 b1 b2 b3 : UInt8} {rest : List UInt8}
    (hlow : 0xF0 ≤ b0.toNat) (hhigh : b0.toNat ≤ 0xF4) (h1 : secondOfFour b0 b1 = true)
    (h2 : isContinuation b2 = true) (h3 : isContinuation b3 = true) :
    decodeUtf8Chars (b0 :: b1 :: b2 :: b3 :: rest) =
      ofFour b0 b1 b2 b3 :: decodeUtf8Chars rest := by
  have hone : ¬ b0 < 0x80 := by
    simp only [UInt8.lt_iff_toNat_lt, UInt8.toNat_ofNat]
    omega
  have htwo : ¬ (0xC2 ≤ b0 && b0 ≤ 0xDF) = true := by
    simp only [Bool.and_eq_true, decide_eq_true_eq, UInt8.le_iff_toNat_le, UInt8.toNat_ofNat]
    omega
  have hthree : ¬ (0xE0 ≤ b0 && b0 ≤ 0xEF) = true := by
    simp only [Bool.and_eq_true, decide_eq_true_eq, UInt8.le_iff_toNat_le, UInt8.toNat_ofNat]
    omega
  have hfour : (0xF0 ≤ b0 && b0 ≤ 0xF4) = true := by
    simp only [Bool.and_eq_true, decide_eq_true_eq, UInt8.le_iff_toNat_le]
    exact ⟨hlow, hhigh⟩
  rw [decodeUtf8Chars.eq_def]
  dsimp only
  rw [if_neg hone, if_neg htwo, if_neg hthree, if_pos hfour]
  simp only [h1, h2, h3, if_true]

/-!
## Reading a text

Surrogates are no characters, and a byte that carries six bits of a number is a
continuation.
-/

theorem char_toNat_valid (c : Char) :
    c.toNat < 0xD800 ∨ 0xDFFF < c.toNat ∧ c.toNat < 0x110000 :=
  c.valid

theorem toNat_ofNat_byte {n : Nat} (h : n < 256) : (UInt8.ofNat n).toNat = n :=
  UInt8.toNat_ofNat_of_lt' h

theorem isContinuation_of_bits (n : Nat) :
    isContinuation (UInt8.ofNat (n % 0x40 + 0x80)) = true := by
  have hbyte := toNat_ofNat_byte (n := n % 0x40 + 0x80) (by omega)
  exact isContinuation_eq_true (by omega) (by omega)

theorem decodeUtf8Chars_twoBytes {n : Nat} (hlow : 0x7f < n) (hhigh : n ≤ 0x7ff)
    (rest : List UInt8) :
    decodeUtf8Chars (UInt8.ofNat (n / 64 % 0x20 + 0xc0) :: UInt8.ofNat (n % 0x40 + 0x80) ::
      rest) = Char.ofNat n :: decodeUtf8Chars rest := by
  have h0 := toNat_ofNat_byte (n := n / 64 % 0x20 + 0xc0) (by omega)
  have h1 := toNat_ofNat_byte (n := n % 0x40 + 0x80) (by omega)
  rw [decodeUtf8Chars_two (by omega) (by omega) (isContinuation_of_bits n), ofTwo, h0, h1]
  congr 2
  omega

theorem decodeUtf8Chars_threeBytes {n : Nat} (hlow : 0x7ff < n) (hhigh : n ≤ 0xffff)
    (hvalid : n < 0xD800 ∨ 0xDFFF < n) (rest : List UInt8) :
    decodeUtf8Chars (UInt8.ofNat (n / 4096 % 0x10 + 0xe0) ::
      UInt8.ofNat (n / 64 % 0x40 + 0x80) :: UInt8.ofNat (n % 0x40 + 0x80) :: rest) =
        Char.ofNat n :: decodeUtf8Chars rest := by
  have h0 := toNat_ofNat_byte (n := n / 4096 % 0x10 + 0xe0) (by omega)
  have h1 := toNat_ofNat_byte (n := n / 64 % 0x40 + 0x80) (by omega)
  have h2 := toNat_ofNat_byte (n := n % 0x40 + 0x80) (by omega)
  have hsecond : secondOfThree (UInt8.ofNat (n / 4096 % 0x10 + 0xe0))
      (UInt8.ofNat (n / 64 % 0x40 + 0x80)) = true :=
    secondOfThree_eq_true (by omega) (by omega) (isContinuation_of_bits _)
  rw [decodeUtf8Chars_three (by omega) (by omega) hsecond (isContinuation_of_bits n), ofThree,
    h0, h1, h2]
  congr 2
  omega

theorem decodeUtf8Chars_fourBytes {n : Nat} (hlow : 0xffff < n) (hhigh : n < 0x110000)
    (rest : List UInt8) :
    decodeUtf8Chars (UInt8.ofNat (n / 262144 % 0x08 + 0xf0) ::
      UInt8.ofNat (n / 4096 % 0x40 + 0x80) :: UInt8.ofNat (n / 64 % 0x40 + 0x80) ::
        UInt8.ofNat (n % 0x40 + 0x80) :: rest) = Char.ofNat n :: decodeUtf8Chars rest := by
  have h0 := toNat_ofNat_byte (n := n / 262144 % 0x08 + 0xf0) (by omega)
  have h1 := toNat_ofNat_byte (n := n / 4096 % 0x40 + 0x80) (by omega)
  have h2 := toNat_ofNat_byte (n := n / 64 % 0x40 + 0x80) (by omega)
  have h3 := toNat_ofNat_byte (n := n % 0x40 + 0x80) (by omega)
  have hsecond : secondOfFour (UInt8.ofNat (n / 262144 % 0x08 + 0xf0))
      (UInt8.ofNat (n / 4096 % 0x40 + 0x80)) = true :=
    secondOfFour_eq_true (by omega) (by omega) (isContinuation_of_bits _)
  rw [decodeUtf8Chars_four (by omega) (by omega) hsecond (isContinuation_of_bits _)
    (isContinuation_of_bits n), ofFour, h0, h1, h2, h3]
  congr 2
  omega

theorem decodeUtf8Chars_encodeChar (c : Char) (rest : List UInt8) :
    decodeUtf8Chars (String.utf8EncodeChar c ++ rest) = c :: decodeUtf8Chars rest := by
  have hvalid := char_toNat_valid c
  have hback : Char.ofNat c.toNat = c := Char.ofNat_toNat c
  have hval : c.val.toNat = c.toNat := rfl
  unfold String.utf8EncodeChar
  simp only [hval]
  generalize c.toNat = n at *
  subst hback
  split
  · next hone =>
      have h0 := toNat_ofNat_byte (n := n) (by omega)
      rw [List.singleton_append, decodeUtf8Chars_one (by omega), h0]
  · split
    · exact decodeUtf8Chars_twoBytes (by omega) (by omega) rest
    · split
      · exact decodeUtf8Chars_threeBytes (by omega) (by omega) (by omega) rest
      · exact decodeUtf8Chars_fourBytes (by omega) (by omega) rest

theorem decodeUtf8Chars_encode (chars : List Char) :
    decodeUtf8Chars (chars.flatMap String.utf8EncodeChar) = chars := by
  induction chars with
  | nil =>
      rfl
  | cons c rest ih =>
      rw [List.flatMap_cons, decodeUtf8Chars_encodeChar, ih]

/-!
## Reading up to the first zero

Only the zero character has a zero byte in its UTF-8 form. So the bytes before the first
zero are the form of what is before the first zero character.
-/

def untilNul (text : String) : String :=
  String.ofList (text.toList.takeWhile (· != '\x00'))

theorem toNat_ne_zero_of_ne_nul {c : Char} (h : c ≠ '\x00') : c.toNat ≠ 0 := by
  intro hzero
  apply h
  rw [← Char.ofNat_toNat c, hzero]

theorem ne_zero_of_mem_encodeChar {c : Char} (h : c ≠ '\x00') {b : UInt8}
    (hb : b ∈ String.utf8EncodeChar c) : b ≠ 0 := by
  have hpos := toNat_ne_zero_of_ne_nul h
  have hval : c.val.toNat = c.toNat := rfl
  have hbyte : forall n, n % 256 ≠ 0 -> UInt8.ofNat n ≠ 0 := by
    intro n hn hzero
    apply hn
    rw [← UInt8.toNat_ofNat', hzero]
    rfl
  unfold String.utf8EncodeChar at hb
  simp only [hval] at hb
  split at hb
  · rw [List.mem_singleton.mp hb]
    exact hbyte _ (by omega)
  · split at hb
    · simp only [List.mem_cons, List.not_mem_nil, or_false] at hb
      rcases hb with rfl | rfl <;> exact hbyte _ (by omega)
    · split at hb
      · simp only [List.mem_cons, List.not_mem_nil, or_false] at hb
        rcases hb with rfl | rfl | rfl <;> exact hbyte _ (by omega)
      · simp only [List.mem_cons, List.not_mem_nil, or_false] at hb
        rcases hb with rfl | rfl | rfl | rfl <;> exact hbyte _ (by omega)

theorem untilZero_zeros (size : Nat) : (Bytes.zeros size).untilZero = [] := by
  cases size with
  | zero =>
      rfl
  | succ size =>
      rfl

theorem untilZero_encode (chars : List Char) (size : Nat) :
    Bytes.untilZero (chars.flatMap String.utf8EncodeChar ++ Bytes.zeros size) =
      (chars.takeWhile (· != '\x00')).flatMap String.utf8EncodeChar := by
  induction chars with
  | nil =>
      exact untilZero_zeros size
  | cons c rest ih =>
      by_cases hc : c = '\x00'
      · subst hc
        rfl
      · have hall : forall b, b ∈ String.utf8EncodeChar c -> (b != 0) = true := by
          intro b hb
          simpa using ne_zero_of_mem_encodeChar hc hb
        rw [List.flatMap_cons, List.append_assoc, Bytes.untilZero,
          List.takeWhile_append_of_pos hall, List.takeWhile_cons_of_pos (by simpa using hc),
          List.flatMap_cons]
        exact congrArg (String.utf8EncodeChar c ++ ·) ih

theorem decodeUtf8_untilZero_encode (text : String) (size : Nat) :
    decodeUtf8 (Bytes.untilZero (encodeUtf8 text ++ Bytes.zeros size)) = untilNul text := by
  rw [encodeUtf8, untilZero_encode, decodeUtf8, decodeUtf8Chars_encode, untilNul]

end Text
end VideoConfig
