import VideoConfig.Proofs.Path.Parts

/-!
# Printing and reading

The text of a path is read as the path, up to the ranges of its segments. The text of a path
that has been read is the text from which it was read, unless an index is written there with
zeros in front: these are read and not printed again.
-/

namespace VideoConfig

namespace Text

/-!
## Rows of digits

No number is printed with a zero in front of other digits, and every other row of digits is
printed as it is written.
-/

theorem digitChar_digit {c : Char} (h : c.isDigit = true) :
    c.toNat - '0'.toNat < 10 ∧ Nat.digitChar (c.toNat - '0'.toNat) = c := by
  simp only [Char.isDigit, Bool.and_eq_true, decide_eq_true_eq, ge_iff_le,
    UInt32.le_iff_toNat_le] at h
  have hlow : '0'.val.toNat = 48 := rfl
  have hhigh : '9'.val.toNat = 57 := rfl
  have hzero : '0'.toNat = 48 := rfl
  have hvalue : c.toNat = c.val.toNat := rfl
  have hlt : c.toNat - '0'.toNat < 10 := by omega
  refine ⟨hlt, Char.toNat_inj.mp ?_⟩
  rw [Nat.toNat_digitChar_of_lt_ten hlt]
  omega

theorem toDigits_append_digits {start : Nat} {row : List Char} (hstart : 0 < start)
    (hdigits : forall c, c ∈ row -> c.isDigit = true) :
    Nat.toDigits 10 start ++ row = Nat.toDigits 10 (Nat.ofDigitChars 10 row start) := by
  induction row generalizing start with
  | nil =>
      simp
  | cons c row ih =>
      rcases List.forall_mem_cons.mp hdigits with ⟨hc, hrow⟩
      rcases digitChar_digit hc with ⟨hlt, hchar⟩
      have hnext : 0 < 10 * start + (c.toNat - '0'.toNat) := by omega
      have hfirst : Nat.toDigits 10 start ++ [c] =
          Nat.toDigits 10 (10 * start + (c.toNat - '0'.toNat)) := by
        rw [← Nat.toDigits_append_toDigits (by decide) hstart hlt, Nat.toDigits_of_lt_base hlt,
          hchar]
      rw [Nat.ofDigitChars_cons, ← ih hnext hrow, ← hfirst, List.append_assoc,
        List.singleton_append]

theorem decimalDigits_ne_padded (n : Nat) (c : Char) (rest : List Char) :
    decimalDigits n ≠ '0' :: c :: rest := by
  induction n using Nat.strongRecOn generalizing c rest with
  | ind n ih =>
      unfold decimalDigits
      intro h
      by_cases hlt : n < 10
      · rw [Nat.toDigits_of_lt_base hlt] at h
        simp at h
      · rw [Nat.toDigits_of_base_le (by decide) (by omega)] at h
        cases hfront : Nat.toDigits 10 (n / 10) with
        | nil =>
            exact Nat.toDigits_ne_nil hfront
        | cons first others =>
            rw [hfront, List.cons_append, List.cons.injEq] at h
            rw [h.left] at hfront
            cases others with
            | nil =>
                have hzero := ofDecimalDigits_decimalDigits (n / 10)
                unfold decimalDigits at hzero
                rw [hfront] at hzero
                have hzero' : n / 10 = 0 := hzero.symm
                omega
            | cons second others =>
                exact ih (n / 10) (by omega) second others hfront

theorem decimalDigits_ofDecimalDigits {row : List Char} (hne : row ≠ [])
    (hdigits : forall c, c ∈ row -> c.isDigit = true)
    (hpadded : forall c rest, row ≠ '0' :: c :: rest) :
    decimalDigits (ofDecimalDigits row) = row := by
  unfold decimalDigits ofDecimalDigits
  cases row with
  | nil =>
      exact absurd rfl hne
  | cons c row =>
      rcases List.forall_mem_cons.mp hdigits with ⟨hc, hrow⟩
      rcases digitChar_digit hc with ⟨hlt, hchar⟩
      rw [Nat.ofDigitChars_cons, Nat.mul_zero, Nat.zero_add]
      by_cases hzero : c.toNat - '0'.toNat = 0
      · rw [hzero] at hchar
        have hc' : c = '0' := hchar.symm
        cases row with
        | nil =>
            rw [hc']
            rfl
        | cons second row =>
            exact absurd (hc' ▸ rfl) (hpadded second row)
      · rw [← toDigits_append_digits (Nat.pos_of_ne_zero hzero) hrow,
          Nat.toDigits_of_lt_base hlt, hchar]
        rfl

/-!
## Stretches of a text

The parts of a text are stretches of it, and a stretch without separator lies in one of
them.
-/

theorem exists_piece_of_infix {separator : Char} {stretch text : List Char}
    (h : stretch <:+: text) (hsep : separator ∉ stretch) :
    exists part, part ∈ pieces separator text ∧ stretch <:+: part := by
  rcases h with ⟨front, back, rfl⟩
  rcases List.eq_nil_or_concat (pieces separator front) with hnil | ⟨before, last, hfront⟩
  · exact absurd hnil (pieces_ne_nil separator front)
  · rcases List.exists_cons_of_ne_nil (pieces_ne_nil separator back) with ⟨next, rest, hback⟩
    rw [List.concat_eq_append] at hfront
    have hmiddle : pieces separator stretch = [] ++ [stretch] := pieces_of_not_mem hsep
    have hbehind := pieces_append hmiddle hback
    rw [List.nil_append] at hbehind
    rw [List.append_assoc, pieces_append hfront hbehind]
    exact ⟨last ++ (stretch ++ next), by simp, List.infix_append' last stretch next⟩

theorem infix_intercalate {separator : List Char} {parts : List (List Char)} {part : List Char}
    (h : part ∈ parts) : part <:+: separator.intercalate parts := by
  induction parts with
  | nil =>
      cases h
  | cons first rest ih =>
      cases rest with
      | nil =>
          rw [List.intercalate_singleton]
          exact List.mem_singleton.mp h ▸ List.infix_rfl
      | cons second others =>
          rw [List.intercalate_cons_cons]
          rcases List.mem_cons.mp h with rfl | h
          · rw [List.append_assoc]
            exact (List.prefix_append _ _).isInfix
          · exact (ih h).trans (List.suffix_append _ _).isInfix

theorem infix_of_mem_pieces {separator : Char} {text part : List Char}
    (h : part ∈ pieces separator text) : part <:+: text := by
  rw [← intercalate_pieces separator text]
  exact infix_intercalate h

theorem infix_of_infix_append {first : Char} {stretch front back : List Char}
    (h : first :: stretch <:+: front ++ back) (hfront : first ∉ front) :
    first :: stretch <:+: back := by
  induction front with
  | nil =>
      exact h
  | cons c front ih =>
      rw [List.mem_cons, not_or] at hfront
      rw [List.cons_append, List.infix_cons_iff, List.cons_prefix_cons] at h
      rcases h with ⟨hfirst, _⟩ | h
      · exact absurd hfirst hfront.left
      · exact ih h hfront.right

end Text

namespace Path

/-!
## Indexes with zeros in front

A zero in front of another digit in brackets starts the row in them. So a text has such an
index exactly if one of its parts has.
-/

/-- Whether an index is written with a zero in front of other digits somewhere in a text. -/
def PaddedIndex (text : List Char) : Prop :=
  exists c, c.isDigit = true ∧ ['[', '0', c] <:+: text

theorem not_paddedIndex_of_not_mem {text : List Char} (h : '[' ∉ text) : ¬ PaddedIndex text := by
  rintro ⟨c, _, hstretch⟩
  exact h (hstretch.subset List.mem_cons_self)

theorem paddedIndex_append {name rest : List Char} (h : '[' ∉ name) :
    PaddedIndex (name ++ rest) <-> PaddedIndex rest := by
  constructor
  · rintro ⟨c, hc, hstretch⟩
    exact ⟨c, hc, Text.infix_of_infix_append hstretch h⟩
  · rintro ⟨c, hc, hstretch⟩
    exact ⟨c, hc, hstretch.trans (List.suffix_append _ _).isInfix⟩

theorem prefix_row_iff {row rest : List Char} {c : Char} (hc : c.isDigit = true) :
    ['0', c] <+: row ++ ']' :: rest <-> exists others, row = '0' :: c :: others := by
  constructor
  · intro h
    match row with
    | [] =>
        simp at h
    | [first] =>
        simp only [List.cons_append, List.nil_append, List.cons_prefix_cons] at h
        rw [h.right.left] at hc
        cases hc
    | first :: second :: others =>
        simp only [List.cons_append, List.cons_prefix_cons] at h
        exact ⟨others, by rw [h.left, h.right.left]⟩
  · rintro ⟨others, rfl⟩
    exact ⟨others ++ ']' :: rest, rfl⟩

theorem paddedIndex_bracketed_cons {row : List Char} {rows : List (List Char)}
    (hrow : forall c, c ∈ row -> c.isDigit = true) :
    PaddedIndex (bracketed (row :: rows)) <->
      (exists c rest, row = '0' :: c :: rest) ∨ PaddedIndex (bracketed rows) := by
  have hopen : '[' ∉ row ++ [']'] := by
    rw [List.mem_append, not_or]
    exact ⟨fun hmem => absurd (hrow _ hmem) (by decide), by decide⟩
  rw [bracketed_cons]
  constructor
  · rintro ⟨c, hc, hstretch⟩
    rw [List.infix_cons_iff, List.cons_prefix_cons] at hstretch
    rcases hstretch with ⟨_, hprefix⟩ | hstretch
    · exact Or.inl ⟨c, (prefix_row_iff hc).mp hprefix⟩
    · rw [List.append_cons] at hstretch
      exact Or.inr ((paddedIndex_append hopen).mp ⟨c, hc, hstretch⟩)
  · rintro (⟨c, rest, rfl⟩ | ⟨c, hc, hstretch⟩)
    · exact ⟨c, hrow c (by simp), (List.prefix_append ['[', '0', c] _).isInfix⟩
    · rw [List.append_cons]
      exact ⟨c, hc, List.infix_cons (hstretch.trans (List.suffix_append _ _).isInfix)⟩

theorem paddedIndex_bracketed {rows : List (List Char)}
    (hdigits : forall row, row ∈ rows -> forall c, c ∈ row -> c.isDigit = true) :
    PaddedIndex (bracketed rows) <->
      exists row, row ∈ rows ∧ exists c rest, row = '0' :: c :: rest := by
  induction rows with
  | nil =>
      simp [PaddedIndex]
  | cons row rows ih =>
      rcases List.forall_mem_cons.mp hdigits with ⟨hrow, hrows⟩
      rw [paddedIndex_bracketed_cons hrow, ih hrows]
      simp only [List.mem_cons, exists_eq_or_imp]

theorem paddedIndex_iff_pieces {text : List Char} :
    PaddedIndex text <-> exists part, part ∈ Text.pieces '.' text ∧ PaddedIndex part := by
  constructor
  · rintro ⟨c, hc, hstretch⟩
    have hpoint : '.' ∉ ['[', '0', c] := by
      intro hmem
      simp only [List.mem_cons, List.not_mem_nil, or_false] at hmem
      rcases hmem with hopen | hzero | rfl
      · cases hopen
      · cases hzero
      · cases hc
    rcases Text.exists_piece_of_infix hstretch hpoint with ⟨part, hpart, hstretch⟩
    exact ⟨part, hpart, c, hc, hstretch⟩
  · rintro ⟨part, hpart, c, hc, hstretch⟩
    exact ⟨c, hc, hstretch.trans (Text.infix_of_mem_pieces hpart)⟩

/-!
## Paths that are printed again

A segment is printed as its part unless the part has an index with zeros in front.
-/

theorem text_element (indexes : List Nat) :
    Index.text (.element indexes) = bracketed (indexes.map Text.decimalDigits) := by
  unfold Index.text bracketed
  rw [List.flatMap_map]

theorem Alike.text_eq {first second : Path} (h : first.Alike second) :
    first.text = second.text := by
  have htexts : first.map Segment.text = second.map Segment.text := by
    induction h with
    | nil =>
        rfl
    | cons hsegment _ ih =>
        rw [List.map_cons, List.map_cons, ih]
        unfold Segment.text
        rw [hsegment.name, hsegment.index]
  unfold Path.text Path.chars
  rw [htexts]

theorem Written.text_eq_iff {part : List Char} {segment : Segment}
    (h : Written part segment.name segment.index) :
    segment.text = part <-> ¬ PaddedIndex part := by
  have hopen : '[' ∉ segment.name.toList := by
    intro hmem
    have hname := (written_iff.mp h).left
    exact absurd (isNameChar_of_isName hname hmem) (by decide)
  unfold Segment.text
  generalize segment.name = name at h hopen
  generalize segment.index = index at h
  cases h with
  | bare hname =>
      exact iff_of_true (List.append_nil _) (not_paddedIndex_of_not_mem hopen)
  | all hname =>
      have hrow : ['[', ']'] = bracketed [[]] := rfl
      refine iff_of_true rfl ?_
      rw [paddedIndex_append hopen, hrow, paddedIndex_bracketed (by simp)]
      simp
  | @element _ rows hname hne hrows =>
      have hdigits : forall row, row ∈ rows -> forall c, c ∈ row -> c.isDigit = true :=
        fun row hrow => (hrows row hrow).digits
      rw [Option.map_some, Option.getD_some, text_element, List.map_map]
      constructor
      · intro htext
        rw [← htext, paddedIndex_append hopen, paddedIndex_bracketed]
        · rintro ⟨row, hrow, c, rest, hpadded⟩
          rcases List.mem_map.mp hrow with ⟨written, _, rfl⟩
          exact Text.decimalDigits_ne_padded _ c rest hpadded
        · intro row hrow c hc
          rcases List.mem_map.mp hrow with ⟨written, _, rfl⟩
          exact isDigit_of_mem_decimalDigits hc
      · intro hpadded
        rw [paddedIndex_append hopen, paddedIndex_bracketed hdigits] at hpadded
        have hrows' : rows.map (Text.decimalDigits ∘ Text.ofDecimalDigits) = rows := by
          refine (List.map_congr_left ?_).trans (List.map_id rows)
          intro row hrow
          refine Text.decimalDigits_ofDecimalDigits (hrows row hrow).ne_nil (hdigits row hrow) ?_
          intro c rest hrow'
          exact hpadded ⟨row, hrow, c, rest, hrow'⟩
        rw [hrows']

theorem Spans.texts_eq_iff {offset : Nat} {parts : List (List Char)} {path : Path}
    (h : Spans offset parts path) :
    path.map Segment.text = parts <-> forall part, part ∈ parts -> ¬ PaddedIndex part := by
  induction h with
  | nil =>
      exact iff_of_true rfl (List.forall_mem_nil _)
  | cons hwritten _ _ ih =>
      rw [List.map_cons, List.cons.injEq, List.forall_mem_cons, hwritten.text_eq_iff, ih]

theorem text_eq_iff {text : String} {path : Path} (h : Path.read text = .ok path) :
    path.text = text <-> ¬ PaddedIndex text.toList := by
  have hspans := readSegments_eq_ok.mp (read_eq_ok.mp h)
  have htexts : path.text = text <-> path.map Segment.text = Text.pieces '.' text.toList := by
    constructor
    · intro htext
      rw [← htext]
      unfold Path.text
      rw [String.toList_ofList, pieces_chars (read_ne_nil h) (spelled_of_read h).left]
    · intro htexts
      unfold Path.text Path.chars
      rw [htexts, Text.intercalate_pieces, String.ofList_toList]
  rw [htexts, hspans.texts_eq_iff, paddedIndex_iff_pieces]
  simp only [not_exists, not_and]

/-- The text of a path that can be written is read as the path. A path that has been read can be
written, and is written as the text from which it was read exactly if no index has zeros in
front there. -/
theorem read_text_inverse :
    (forall path : Path, path ≠ [] -> path.Spelled -> path.InLimits ->
      exists again, Path.read path.text = .ok again ∧ again.Alike path) ∧
    forall text path, Path.read text = .ok path ->
      (exists again, Path.read path.text = .ok again ∧ again.Alike path ∧
        again.text = path.text) ∧
      (path.text = text <-> ¬ PaddedIndex text.toList) := by
  have hread : forall path : Path, path ≠ [] -> path.Spelled -> path.InLimits ->
      exists again, Path.read path.text = .ok again ∧ again.Alike path := by
    intro path hne hspelled hlimits
    exact ⟨_, (read_text hne hspelled).mpr ⟨hlimits, rfl⟩, alike_spannedFrom path 0⟩
  refine ⟨hread, ?_⟩
  intro text path h
  rcases spelled_of_read h with ⟨hspelled, hlimits⟩
  rcases hread path (read_ne_nil h) hspelled hlimits with ⟨again, hagain, halike⟩
  exact ⟨⟨again, hagain, halike, halike.text_eq⟩, text_eq_iff h⟩

/-- An index with zeros in front is read, and printed without them. -/
theorem read_text_inverse_data :
    let path : Path := [{ name := "Data", index := some (.element [7])
                          span := { offset := 0, length := 9 } }]
    (exists again, Path.read "Data[7]" = .ok again ∧ again.Alike path) ∧
      Path.read "Data[007]" = .ok path ∧ path.text = "Data[7]" ∧
      PaddedIndex "Data[007]".toList := by
  intro path
  rcases read_text_inverse with ⟨hwritten, hagain⟩
  have hread : Path.read "Data[007]" = .ok path := by decide
  have htext : path.text = "Data[7]" := by decide
  have hspelled : path.Spelled :=
    List.forall_mem_singleton.mpr ⟨by decide, by decide⟩
  have hlimits : path.InLimits := by
    refine List.forall_mem_singleton.mpr ?_
    intro indexes hindexes i hi
    cases hindexes
    rw [List.mem_singleton.mp hi]
    decide
  refine ⟨htext ▸ hwritten path (List.cons_ne_nil _ _) hspelled hlimits, hread, htext, ?_⟩
  by_contra hpadded
  have hsame := (hagain _ _ hread).right.mpr hpadded
  rw [htext] at hsame
  exact absurd hsame (by decide)

end Path
end VideoConfig
