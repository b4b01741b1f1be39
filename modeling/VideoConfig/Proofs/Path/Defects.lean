import VideoConfig.Proofs.Path.Grammar

/-!
# Texts that are not read

The first part of a text that is not of the grammar decides what is told. The range of the
error lies in this part and is not empty; for an empty part, which has no bytes, it is the one
byte behind. Nothing is told over a part that opens with a character outside ASCII.
-/

namespace VideoConfig

namespace Text

theorem length_le_byteLength (text : List Char) : text.length ≤ byteLength text := by
  induction text with
  | nil =>
      exact Nat.le_refl 0
  | cons c rest ih =>
      have hc := c.utf8Size_pos
      rw [List.length_cons, byteLength_cons]
      omega

theorem byteLength_pos {text : List Char} (h : text ≠ []) : 0 < byteLength text :=
  Nat.lt_of_lt_of_le (List.length_pos_of_ne_nil h) (length_le_byteLength text)

def startBehind : List (List Char) -> Nat
  | [] => 0
  | part :: before => byteLength part + 1 + startBehind before

@[simp] theorem startBehind_nil : startBehind [] = 0 := rfl

@[simp] theorem startBehind_cons (part : List Char) (before : List (List Char)) :
    startBehind (part :: before) = byteLength part + 1 + startBehind before := rfl

end Text

namespace Path

/-!
## Ranges of errors
-/

structure Within (start length : Nat) (span : Span) : Prop where
  from_start : start ≤ span.offset
  pos : 1 ≤ span.length
  to_stop : span.offset + span.length ≤ start + length

theorem Within.mono {start start' length length' : Nat} {span : Span}
    (h : Within start length span) (hstart : start' ≤ start)
    (hstop : start + length ≤ start' + length') : Within start' length' span where
  from_start := Nat.le_trans hstart h.from_start
  pos := h.pos
  to_stop := Nat.le_trans h.to_stop hstop

def ToldWithin (start length : Nat) (failure : Failure ReadError) : Prop :=
  exists error, failure = .refused error ∧ Within start length error.span

theorem ToldWithin.mono {start start' length length' : Nat} {failure : Failure ReadError}
    (h : ToldWithin start length failure) (hstart : start' ≤ start)
    (hstop : start + length ≤ start' + length') : ToldWithin start' length' failure := by
  rcases h with ⟨error, hfailure, hwithin⟩
  exact ⟨error, hfailure, hwithin.mono hstart hstop⟩

theorem toldWithin_of_refuse {result : Type} {defect : Defect} {start length offset size : Nat}
    {failure : Failure ReadError}
    (h : (refuse defect offset size : Attempt ReadError result) = .error failure)
    (hstart : start ≤ offset) (hpos : 1 ≤ size) (hstop : offset + size ≤ start + length) :
    ToldWithin start length failure := by
  cases h
  exact ⟨_, rfl, hstart, hpos, hstop⟩

theorem readIndex_told {offset : Nat} {row : List Char} {failure : Failure ReadError}
    (h : readIndex offset row = .error failure) :
    ToldWithin (offset + 1) (Text.byteLength row) failure := by
  unfold readIndex at h
  split at h
  · cases h
  · next hne =>
      have hlength := Text.length_le_byteLength row
      have hpos := List.length_pos_of_ne_nil hne
      split at h
      · dsimp only at h
        split at h
        · cases h
        · exact toldWithin_of_refuse h (Nat.le_refl _) (by omega) (by omega)
      · exact toldWithin_of_refuse h (Nat.le_refl _) (by omega) (by omega)

theorem readBrackets_told {position : Nat} {text : List Char} {failure : Failure ReadError}
    (h : readBrackets position .outside text = .error failure) :
    ToldWithin position (Text.byteLength text) failure := by
  induction shape text generalizing position with
  | nil =>
      cases h
  | @stray c rest hopen =>
      have hc := c.utf8Size_pos
      rw [readBrackets_stray hopen] at h
      refine toldWithin_of_refuse h (Nat.le_refl _) (Nat.le_refl _) ?_
      rw [Text.byteLength_cons]
      omega
  | @unclosed rest hclose =>
      have hbracket : '['.utf8Size = 1 := rfl
      rw [readBrackets_unclosed hclose] at h
      refine toldWithin_of_refuse h (Nat.le_refl _) (by omega) ?_
      rw [Text.byteLength_cons]
      omega
  | @closed row rest hclose _ ih =>
      have hopen : '['.utf8Size = 1 := rfl
      have hshut : ']'.utf8Size = 1 := rfl
      rw [readBrackets_closed hclose] at h
      rcases bind_eq_error.mp h with hrow | ⟨index, _, h⟩
      · refine (readIndex_told hrow).mono (by omega) ?_
        simp only [Text.byteLength_cons, Text.byteLength_append]
        omega
      · rcases bind_eq_error.mp h with hothers | ⟨others, _, hpure⟩
        · refine (ih hothers).mono (by omega) ?_
          simp only [Text.byteLength_cons, Text.byteLength_append]
          omega
        · cases hpure

/-!
## Parts that are not of the grammar

Over a part without result nothing is told if it opens with a character outside ASCII, and
otherwise an error in the part.
-/

/-- A part over which no error can be told: it opens with a character outside ASCII. -/
def Unreportable (part : List Char) : Prop :=
  exists c rest, part = c :: rest ∧ Text.isAscii c = false

/-- Where an error over a part is told: in the part, or at the place of an empty one. -/
structure Localized (start : Nat) (part : List Char) (span : Span) : Prop where
  empty : part = [] -> span = { offset := start, length := 1 }
  inside : part ≠ [] -> Within start (Text.byteLength part) span

theorem isAscii_of_isNameStart {c : Char} (h : isNameStart c = true) :
    Text.isAscii c = true := by
  unfold isNameStart at h
  rw [Bool.or_eq_true] at h
  rcases h with hletter | hunderscore
  · unfold Char.isAlpha Char.isUpper Char.isLower at hletter
    simp only [Bool.or_eq_true, Bool.and_eq_true, decide_eq_true_eq, ge_iff_le,
      UInt32.le_iff_toNat_le] at hletter
    simp only [Text.isAscii, decide_eq_true_eq, Char.toNat]
    have hupper : 'Z'.val.toNat = 90 := rfl
    have hlower : 'z'.val.toNat = 122 := rfl
    omega
  · rw [eq_of_beq hunderscore]
    rfl

theorem readSegment_unreportable {offset : Nat} {part : List Char} (h : Unreportable part) :
    readSegment offset part = .error .abandoned := by
  rcases h with ⟨c, rest, rfl, hascii⟩
  have hstart : isNameStart c = false := by
    rw [Bool.eq_false_iff]
    intro hstart
    rw [isAscii_of_isNameStart hstart] at hascii
    cases hascii
  simp [readSegment, hstart, hascii]

theorem readSegment_failure {offset : Nat} {part : List Char} {failure : Failure ReadError}
    (h : readSegment offset part = .error failure) :
    failure = .abandoned ∧ Unreportable part ∨
      exists error, failure = .refused error ∧ Localized offset part error.span := by
  cases part with
  | nil =>
      cases h
      exact Or.inr ⟨_, rfl, fun _ => rfl, fun hne => absurd rfl hne⟩
  | cons c rest =>
      have hlocalized : ToldWithin offset (Text.byteLength (c :: rest)) failure ->
          exists error, failure = .refused error ∧
            Localized offset (c :: rest) error.span := by
        rintro ⟨error, hfailure, hwithin⟩
        exact ⟨error, hfailure, fun hnil => absurd hnil (List.cons_ne_nil c rest),
          fun _ => hwithin⟩
      have hc := c.utf8Size_pos
      unfold readSegment at h
      dsimp only at h
      split at h
      · split at h
        · refine Or.inr (hlocalized (toldWithin_of_refuse h (Nat.le_refl _) (Nat.le_refl _) ?_))
          rw [Text.byteLength_cons]
          omega
        · next hascii =>
            cases h
            exact Or.inl ⟨rfl, c, rest, rfl, by simpa using hascii⟩
      · -- The errors behind the name stand in what is left of the part.
        have hsplit := List.takeWhile_append_dropWhile (p := isNameChar) (l := c :: rest)
        have hname := Text.length_le_byteLength ((c :: rest).takeWhile isNameChar)
        have hlength : Text.byteLength ((c :: rest).takeWhile isNameChar) +
            Text.byteLength ((c :: rest).dropWhile isNameChar) =
              Text.byteLength (c :: rest) := by
          rw [← Text.byteLength_append, hsplit]
        refine Or.inr (hlocalized ?_)
        rcases bind_eq_error.mp h with hbrackets | ⟨found, hfound, hcombine⟩
        · exact (readBrackets_told hbrackets).mono (by omega) (by omega)
        · split at hcombine
          · cases hcombine
          · next hmixed =>
              have hne : (c :: rest).dropWhile isNameChar ≠ [] := by
                intro hnil
                rw [hnil] at hfound
                cases hfound
                cases hmixed
              have hpos := Text.byteLength_pos hne
              exact toldWithin_of_refuse hcombine (by omega) (by omega) (by omega)

/-!
## Texts that are not of the grammar

The failure over a text is that over its first part that is not of the grammar.
-/

theorem readSegments_eq_error {offset : Nat} {parts : List (List Char)}
    {failure : Failure ReadError} :
    readSegments offset parts = .error failure <->
      exists before part after, parts = before ++ part :: after ∧
        (forall valid, valid ∈ before -> Valid valid) ∧
        readSegment (offset + Text.startBehind before) part = .error failure := by
  constructor
  · intro h
    induction parts generalizing offset with
    | nil =>
        cases h
    | cons first rest ih =>
        rcases bind_eq_error.mp h with hfirst | ⟨segment, hsegment, h⟩
        · exact ⟨[], first, rest, rfl, List.forall_mem_nil _, hfirst⟩
        · rcases bind_eq_error.mp h with hothers | ⟨others, _, hpure⟩
          · rcases ih hothers with ⟨before, part, after, rfl, hbefore, hpart⟩
            have hfirst : Valid first := exists_readSegment_iff.mp ⟨segment, hsegment⟩
            refine ⟨first :: before, part, after, rfl,
              List.forall_mem_cons.mpr ⟨hfirst, hbefore⟩, ?_⟩
            rw [Text.startBehind_cons, ← Nat.add_assoc, ← Nat.add_assoc]
            exact hpart
          · cases hpure
  · rintro ⟨before, part, after, rfl, hbefore, hpart⟩
    induction before generalizing offset with
    | nil =>
        exact bind_eq_error.mpr (Or.inl hpart)
    | cons first before ih =>
        rcases List.forall_mem_cons.mp hbefore with ⟨hfirst, hbefore⟩
        rcases exists_readSegment_iff.mpr hfirst with ⟨segment, hsegment⟩
        rw [Text.startBehind_cons, ← Nat.add_assoc, ← Nat.add_assoc] at hpart
        exact bind_eq_error.mpr (Or.inr ⟨segment, hsegment,
          bind_eq_error.mpr (Or.inl (ih hbefore hpart))⟩)

theorem part_of_empty {before after : List (List Char)} {part : List Char}
    (h : Text.pieces '.' "".toList = before ++ part :: after) : before = [] ∧ part = [] := by
  have hpieces : Text.pieces '.' "".toList = [[]] := rfl
  rw [hpieces] at h
  cases before with
  | nil =>
      cases h
      exact ⟨rfl, rfl⟩
  | cons first before =>
      have hlength := congrArg List.length h
      simp at hlength

theorem read_of_ne_empty {text : String} (h : text ≠ "") :
    Path.read text = readSegments 0 (Text.pieces '.' text.toList) := by
  unfold Path.read ofChars
  rw [if_neg fun hnil => h (String.toList_eq_nil_iff.mp hnil)]

/-- A text over which nothing can be told: its first part that is not of the grammar opens
with a character outside ASCII. -/
def Untold (text : String) : Prop :=
  exists before part after, Text.pieces '.' text.toList = before ++ part :: after ∧
    (forall valid, valid ∈ before -> Valid valid) ∧ Unreportable part

theorem read_eq_abandoned {text : String} :
    Path.read text = .error .abandoned <-> Untold text := by
  constructor
  · intro h
    have hne : text ≠ "" := by
      rintro rfl
      cases h
    rw [read_of_ne_empty hne, readSegments_eq_error] at h
    rcases h with ⟨before, part, after, hsplit, hbefore, hpart⟩
    rcases readSegment_failure hpart with ⟨_, hunreportable⟩ | ⟨error, hrefused, _⟩
    · exact ⟨before, part, after, hsplit, hbefore, hunreportable⟩
    · cases hrefused
  · rintro ⟨before, part, after, hsplit, hbefore, hpart⟩
    have hne : text ≠ "" := by
      rintro rfl
      rcases hpart with ⟨c, rest, hnonempty, _⟩
      rw [(part_of_empty hsplit).right] at hnonempty
      cases hnonempty
    rw [read_of_ne_empty hne, readSegments_eq_error]
    exact ⟨before, part, after, hsplit, hbefore, readSegment_unreportable hpart⟩

theorem read_member_ne_abandoned {text name : String} (hname : isName name.toList = true)
    (h : Path.read text ≠ .error .abandoned) :
    Path.read (text ++ "." ++ name) ≠ .error .abandoned := by
  have hpoint : '.' ∉ name.toList := by
    intro hmem
    exact absurd (isNameChar_of_isName hname hmem) (by decide)
  have hpieces : Text.pieces '.' (text ++ "." ++ name).toList =
      Text.pieces '.' text.toList ++ [name.toList] := by
    rw [String.toList_append, String.toList_append, List.append_assoc,
      ← Text.pieces_of_not_mem hpoint, ← Text.pieces_append_cons]
    rfl
  rw [ne_eq, read_eq_abandoned] at h ⊢
  rintro ⟨before, part, after, hsplit, hbefore, hpart⟩
  rw [hpieces] at hsplit
  rcases List.eq_nil_or_concat after with rfl | ⟨others, last, rfl⟩
  · -- The part in question is the name, over which nothing is wrong.
    rcases List.append_inj' hsplit rfl with ⟨_, hlast⟩
    cases hlast
    have hvalid : Valid name.toList := ⟨name, none, Written.bare hname⟩
    rcases exists_readSegment_iff.mpr hvalid with ⟨segment, hsegment⟩
    cases (@readSegment_unreportable 0 _ hpart).symm.trans hsegment
  · rw [List.concat_eq_append, ← List.cons_append, ← List.append_assoc] at hsplit
    exact h ⟨before, part, others, (List.append_inj' hsplit rfl).left, hbefore, hpart⟩

theorem exists_read_iff {text : String} :
    (exists path, Path.read text = .ok path) <->
      forall part, part ∈ Text.pieces '.' text.toList -> Valid part := by
  simp only [read_eq_ok, readSegments_eq_ok, exists_spans_iff]

/-- A text is read exactly if it is not empty and all of its parts are of the grammar. The
segments then say what is written and tile the text. Otherwise the first part that is not of
the grammar decides: nothing is told if it opens with a character outside ASCII, and else an
error in this part. -/
theorem read_settles (text : String) :
    ((exists path, Path.read text = .ok path) <->
      text ≠ "" ∧ forall part, part ∈ Text.pieces '.' text.toList -> Valid part) ∧
    (forall path, Path.read text = .ok path -> Tiles text path) ∧
    forall before part after, Text.pieces '.' text.toList = before ++ part :: after ->
      (forall valid, valid ∈ before -> Valid valid) -> ¬ Valid part ->
        (Unreportable part -> Path.read text = .error .abandoned) ∧
        (¬ Unreportable part -> exists error, Path.read text = .error (.refused error) ∧
          Localized (Text.startBehind before) part error.span) := by
  refine ⟨?_, ?_, ?_⟩
  · rw [exists_read_iff]
    refine ⟨fun hvalid => ⟨?_, hvalid⟩, And.right⟩
    rintro rfl
    rcases exists_read_iff.mpr hvalid with ⟨path, hpath⟩
    cases hpath
  · intro path hpath
    exact (readSegments_eq_ok.mp (read_eq_ok.mp hpath)).tiles
  · intro before part after hsplit hbefore hinvalid
    refine ⟨fun hpart => read_eq_abandoned.mpr ⟨before, part, after, hsplit, hbefore, hpart⟩, ?_⟩
    intro hreportable
    by_cases hempty : text = ""
    · subst hempty
      rcases part_of_empty hsplit with ⟨rfl, rfl⟩
      exact ⟨_, rfl, fun _ => rfl, fun hne => absurd rfl hne⟩
    · rw [read_of_ne_empty hempty]
      cases hpart : readSegment (0 + Text.startBehind before) part with
      | ok segment =>
          exact absurd (exists_readSegment_iff.mp ⟨segment, hpart⟩) hinvalid
      | error failure =>
          rcases readSegment_failure hpart with ⟨_, hunreportable⟩ | ⟨error, rfl, hlocalized⟩
          · exact absurd hunreportable hreportable
          · rw [Nat.zero_add] at hlocalized
            exact ⟨error, readSegments_eq_error.mpr ⟨before, part, after, hsplit, hbefore, hpart⟩,
              hlocalized⟩

/-- The second part of a text opens with a character outside ASCII, or holds one that is of no
name. -/
theorem read_settles_second :
    let first := "Data[1]".toList
    Valid first ∧ Path.read "Data[1].é" = .error .abandoned ∧
      exists error, Path.read "Data[1].x-y" = .error (.refused error) ∧
        Within 8 3 error.span := by
  intro first
  have hfirst : Valid first := exists_readSegment_iff.mp ⟨_, @rfl _ (readSegment 0 first)⟩
  have hbefore : forall valid, valid ∈ [first] -> Valid valid :=
    List.forall_mem_singleton.mpr hfirst
  have hinvalid : forall part error, readSegment 0 part = .error error -> ¬ Valid part := by
    intro part error herror hvalid
    rcases exists_readSegment_iff.mpr hvalid with ⟨segment, hsegment⟩
    cases herror.symm.trans hsegment
  rcases read_settles "Data[1].é" with ⟨_, _, habandoned⟩
  rcases read_settles "Data[1].x-y" with ⟨_, _, hrefused⟩
  have hunreportable : Unreportable "é".toList := ⟨'é', [], rfl, rfl⟩
  have hreportable : ¬ Unreportable "x-y".toList := by
    rintro ⟨c, rest, hsplit, hascii⟩
    cases hsplit
    cases hascii
  rcases (hrefused [first] "x-y".toList [] rfl hbefore (hinvalid _ _ rfl)).right hreportable with
    ⟨error, herror, hlocalized⟩
  exact ⟨hfirst, (habandoned [first] "é".toList [] rfl hbefore (hinvalid _ _ rfl)).left
    hunreportable, error, herror, hlocalized.inside (List.cons_ne_nil _ _)⟩

end Path
end VideoConfig
