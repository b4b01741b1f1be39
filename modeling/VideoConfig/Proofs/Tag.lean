import VideoConfig.Proofs.Numeral.Reading
import VideoConfig.Tag

/-!
# Tags and their texts

A tag is shown by its four characters, or by its number in base sixteen if one of them cannot be
printed. A text is first tried as a number and only then as four characters. So the number of a
tag is always read back, and the four characters are unless they look like a number: a number
that is written with so few characters is far below every tag with four printable ones.
-/

namespace VideoConfig

/-!
## Numbers in base sixteen

Zeros that fill up a number do not count.
-/

namespace Text

theorem foldl_digit (row : List Char) (start : Nat) :
    row.foldl (fun n c => 16 * n + Base.sixteen.digit c) start =
      start * 16 ^ row.length + Base.sixteen.number row := by
  induction row generalizing start with
  | nil =>
      simp [Base.number]
  | cons c rest ih =>
      rw [List.foldl_cons, ih, Base.number, List.length_cons, Nat.pow_succ, Base.radix]
      ring

theorem ofHexDigits?_eq_some_iff {row : List Char} {n : Nat} :
    ofHexDigits? row = some n <-> Base.sixteen.IsRow row ∧ Base.sixteen.number row = n := by
  have hread : ofHexDigits? row = some n <->
      Base.sixteen.IsRow row ∧ row.foldl (fun n c => 16 * n + Base.sixteen.digit c) 0 = n :=
    Base.sixteen.foldlM_digit?_eq_some_iff
  rw [hread, foldl_digit, Nat.zero_mul, Nat.zero_add]

variable {width n : Nat}

theorem toList_hexadecimal :
    (hexadecimal width n).toList =
      List.replicate (width - (Nat.toDigits 16 n).length) '0' ++ Nat.toDigits 16 n := by
  rw [hexadecimal, String.toList_ofList]

theorem le_length_hexadecimal : width ≤ (hexadecimal width n).toList.length := by
  rw [toList_hexadecimal, List.length_append, List.length_replicate]
  omega

theorem isRow_hexadecimal : Base.sixteen.IsRow (hexadecimal width n).toList := by
  rw [toList_hexadecimal, Base.isRow_append]
  refine ⟨?_, Base.sixteen.isRow_toDigits n⟩
  intro c hc
  rw [List.eq_of_mem_replicate hc]
  rfl

theorem number_hexadecimal : Base.sixteen.number (hexadecimal width n).toList = n := by
  have hzeros (k : Nat) : Base.sixteen.number (List.replicate k '0') = 0 := by
    induction k with
    | zero =>
        rfl
    | succ k ih =>
        rw [List.replicate_succ, Base.number, ih, Base.digit_zero, Nat.zero_mul]
  rw [toList_hexadecimal, Base.number_append, hzeros, Nat.zero_mul, Nat.zero_add]
  exact Base.sixteen.number_toDigits n

end Text

namespace Tag

variable {text : List Char} {tag : Tag}

/-!
## Tags read from numbers

A tag is read back from its number, and few digits behind `0x` make a small one.
-/

theorem ofNat?_eq_some_iff {n : Nat} : ofNat? n = some tag <-> n = tag.code.toNat := by
  unfold ofNat?
  constructor
  · intro h
    split at h
    · next hlt =>
        cases h
        rw [BitVec.toNat_ofNat, Nat.mod_eq_of_lt hlt]
    · cases h
  · rintro rfl
    rw [if_pos tag.code.isLt, BitVec.ofNat_toNat, BitVec.setWidth_eq]

theorem ofChars?_head {head digits : List Char} (h : head ∈ Base.sixteen.heads) :
    ofChars? (head ++ digits) = ofHexChars? digits := by
  rcases List.mem_cons.mp h with rfl | h
  · rfl
  · cases List.mem_singleton.mp h
    rfl

theorem ofChars?_of_no_head (h : text.take 2 ∉ Base.sixteen.heads) :
    ofChars? text =
      if text ≠ [] ∧ text.all Char.isDigit then
        ofNat? (Text.ofDecimalDigits text)
      else
        (fourCCOfChars? text).map Tag.mk := by
  have hlower : ['0', 'x'] ∈ Base.sixteen.heads := by decide
  have hupper : ['0', 'X'] ∈ Base.sixteen.heads := by decide
  unfold ofChars?
  split
  · exact absurd hlower h
  · exact absurd hupper h
  · rfl

theorem ofText?_hexadecimal (tag : Tag) :
    ofText? ("0x" ++ Text.hexadecimal 8 tag.code.toNat) = some tag := by
  generalize hrow : (Text.hexadecimal 8 tag.code.toNat).toList = row
  have hisRow : Base.sixteen.IsRow row := hrow ▸ Text.isRow_hexadecimal
  have hnumber : Base.sixteen.number row = tag.code.toNat := hrow ▸ Text.number_hexadecimal
  have hlength : 8 ≤ row.length := hrow ▸ Text.le_length_hexadecimal
  have hne : row ≠ [] := List.ne_nil_of_length_pos (by omega)
  rw [ofText?, String.toList_append, hrow, ofChars?_head (by decide), ofHexChars?,
    if_neg hisRow.unsigned.left, if_neg hne,
    Text.ofHexDigits?_eq_some_iff.mpr ⟨hisRow, hnumber⟩]
  exact ofNat?_eq_some_iff.mpr rfl

theorem toNat_lt_of_ofHexChars? (h : ofHexChars? text = some tag) :
    tag.code.toNat < 16 ^ text.length := by
  unfold ofHexChars? at h
  dsimp only at h
  generalize hdigits : (if text.head? = some '+' then text.tail else text) = digits at h
  have hlength : digits.length ≤ text.length := by
    rw [← hdigits]
    split
    · exact text.tail_sublist.length_le
    · exact le_rfl
  split at h
  · cases h
  · rcases Option.bind_eq_some_iff.mp h with ⟨n, hn, htag⟩
    rw [← ofNat?_eq_some_iff.mp htag, ← (Text.ofHexDigits?_eq_some_iff.mp hn).right]
    exact (Base.number_lt .sixteen digits).trans_le (Nat.pow_le_pow_right (by decide) hlength)

/-!
## Codes that look like numbers
-/

/-- Whether a text of four characters looks like a number: like one in base ten, or like one in
base sixteen behind `0x`. -/
def LooksNumeric (text : List Char) : Prop :=
  text.length = 4 ∧ (text.all Char.isDigit = true ∨ text.take 2 ∈ Base.sixteen.heads)

theorem toNat_lt_of_looksNumeric (h : LooksNumeric text) (hread : ofChars? text = some tag) :
    tag.code.toNat < 16 ^ 4 := by
  rcases h with ⟨hlength, hform⟩
  by_cases hhead : text.take 2 ∈ Base.sixteen.heads
  · rw [← List.take_append_drop 2 text, ofChars?_head hhead] at hread
    refine (toNat_lt_of_ofHexChars? hread).trans_le (Nat.pow_le_pow_right (by decide) ?_)
    rw [List.length_drop]
    omega
  · have hdigits := hform.resolve_right hhead
    have hne : text ≠ [] := List.ne_nil_of_length_pos (by omega)
    have hnumber := Base.number_lt .ten text
    rw [ofChars?_of_no_head hhead, if_pos ⟨hne, hdigits⟩, ofNat?_eq_some_iff,
      Base.ofDecimalDigits_eq (Base.isRow_ten_iff.mpr hdigits)] at hread
    rw [hlength, hread] at hnumber
    exact hnumber.trans (by decide)

theorem ofChars?_of_not_looksNumeric (hlength : text.length = 4) (h : ¬ LooksNumeric text) :
    ofChars? text = (fourCCOfChars? text).map Tag.mk := by
  have hhead : text.take 2 ∉ Base.sixteen.heads := fun hmem => h ⟨hlength, Or.inr hmem⟩
  rw [ofChars?_of_no_head hhead, if_neg fun hdigits => h ⟨hlength, Or.inl hdigits.right⟩]

/-!
## Tags with printable characters

Four printable bytes are packed again from the characters that they are shown by, and they
make a large number.
-/

theorem isPrintable_iff {b : UInt8} : isPrintable b = true <-> 0x20 ≤ b.toNat ∧ b.toNat ≤ 0x7E := by
  simp [isPrintable, UInt8.le_iff_toNat_le]

theorem toNat_ofNat_byte (b : UInt8) : (Char.ofNat b.toNat).toNat = b.toNat := by
  have hb : b.toNat < 256 := b.toNat_lt
  have hvalid : b.toNat.isValidChar := Or.inl (by omega)
  rw [Char.ofNat, dif_pos hvalid]
  rfl

theorem fourCCOfChars?_shown {a b c d : UInt8} (h : [a, b, c, d].all isPrintable = true) :
    fourCCOfChars? ([a, b, c, d].map fun b => Char.ofNat b.toNat) = some (fourCC a b c d) := by
  have hascii : ([a, b, c, d].map fun b => Char.ofNat b.toNat).all Text.isAscii = true := by
    rw [List.all_map, List.all_eq_true]
    intro x hx
    have hrange := isPrintable_iff.mp (List.all_eq_true.mp h x hx)
    rw [Function.comp_apply, Text.isAscii, toNat_ofNat_byte, decide_eq_true_eq]
    omega
  rw [List.map_cons, List.map_cons, List.map_cons, List.map_cons, List.map_nil] at hascii ⊢
  rw [fourCCOfChars?, if_pos hascii]
  simp only [toNat_ofNat_byte, UInt8.ofNat_toNat]

theorem exists_bytes (tag : Tag) :
    exists a b c d, tag.bytes = [a, b, c, d] ∧ tag.code = fourCC a b c d := by
  refine ⟨_, _, _, _, rfl, ?_⟩
  change tag.code = BitVec.ofNat 32 tag.bytes.toNat
  rw [toNat_bytes, BitVec.ofNat_toNat, BitVec.setWidth_eq]

theorem toList_text_of_printable (h : tag.bytes.all isPrintable = true) :
    tag.text.toList = tag.bytes.map fun b => Char.ofNat b.toNat := by
  rw [text, characters?, if_pos h]
  exact String.toList_ofList

theorem text_of_not_printable (h : ¬ tag.bytes.all isPrintable = true) :
    tag.text = "0x" ++ Text.hexadecimal 8 tag.code.toNat := by
  rw [text, characters?, if_neg h]

theorem fourCCOfChars?_text (h : tag.bytes.all isPrintable = true) :
    fourCCOfChars? tag.text.toList = some tag.code := by
  rcases tag.exists_bytes with ⟨a, b, c, d, hbytes, hcode⟩
  rw [toList_text_of_printable h, hcode]
  rw [hbytes] at h ⊢
  exact fourCCOfChars?_shown h

theorem le_toNat_of_printable (h : tag.bytes.all isPrintable = true) :
    16 ^ 4 ≤ tag.code.toNat := by
  rcases tag.exists_bytes with ⟨a, b, c, d, hbytes, _⟩
  rw [← toNat_bytes]
  rw [hbytes] at h ⊢
  have hlast := isPrintable_iff.mp (List.all_eq_true.mp h d (by simp))
  simp only [Bytes.toNat]
  omega

theorem length_text_of_printable (h : tag.bytes.all isPrintable = true) :
    tag.text.toList.length = 4 := by
  rw [toList_text_of_printable h, List.length_map]
  exact Bytes.length_ofNat _ _

/-- A tag is read back from its text unless the text is four characters that look like a number.
A tag that has no four printable characters is shown by its number and always read back. -/
theorem ofText?_text_iff (tag : Tag) :
    (ofText? tag.text = some tag <-> ¬ LooksNumeric tag.text.toList) ∧
      (tag.characters? = none ->
        tag.text = "0x" ++ Text.hexadecimal 8 tag.code.toNat ∧ ofText? tag.text = some tag) := by
  by_cases hprintable : tag.bytes.all isPrintable = true
  · have hshown : tag.characters? ≠ none := by
      rw [characters?, if_pos hprintable]
      exact Option.some_ne_none _
    refine ⟨?_, fun hnone => absurd hnone hshown⟩
    by_cases hnumeric : LooksNumeric tag.text.toList
    · -- Whatever number is read, it is too small to be that of the tag.
      refine iff_of_false (fun hread => ?_) (not_not.mpr hnumeric)
      exact (toNat_lt_of_looksNumeric hnumeric hread).not_ge (le_toNat_of_printable hprintable)
    · refine iff_of_true ?_ hnumeric
      rw [ofText?, ofChars?_of_not_looksNumeric (length_text_of_printable hprintable) hnumeric,
        fourCCOfChars?_text hprintable]
      rfl
  · have htext := text_of_not_printable hprintable
    have hread : ofText? tag.text = some tag := by
      rw [htext]
      exact ofText?_hexadecimal tag
    have hlength : 8 ≤ (Text.hexadecimal 8 tag.code.toNat).toList.length :=
      Text.le_length_hexadecimal
    refine ⟨iff_of_true hread fun hnumeric => ?_, fun _ => ⟨htext, hread⟩⟩
    have hfour := hnumeric.left
    rw [htext, String.toList_append, List.length_append] at hfour
    omega

/-- A code of four digits is read as their number. -/
example : ofText? (Tag.mk (fourCC 0x31 0x32 0x33 0x34)).text = some ⟨1234⟩ := by
  decide +kernel

end Tag

end VideoConfig
