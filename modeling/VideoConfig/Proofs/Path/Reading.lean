import VideoConfig.Proofs.Path.Grammar

/-!
# Reading the text of a path

The text of a path whose segments are spelled with names and indexes is read as this path:
the names and the indexes are found again, and the spans are the ranges of the segments in
the text. It is refused only over an index that is too large. Every path that is read is
spelled in this way.
-/

namespace VideoConfig
namespace Path

/-!
## Numbers in brackets
-/

theorem isDigit_of_mem_decimalDigits {i : Nat} {c : Char} (h : c ∈ Text.decimalDigits i) :
    c.isDigit = true :=
  Nat.isDigit_of_mem_toDigits (by decide) (by decide) h

theorem isIndex_decimalDigits {i : Nat} :
    IsIndex (Text.decimalDigits i) <-> i < indexLimit := by
  constructor
  · intro h
    have hbelow := h.below
    rw [Text.ofDecimalDigits_decimalDigits] at hbelow
    exact hbelow
  · intro h
    refine ⟨Nat.toDigits_ne_nil, fun c => isDigit_of_mem_decimalDigits, ?_⟩
    rw [Text.ofDecimalDigits_decimalDigits]
    exact h

def row (index : Option Nat) : List Char :=
  (index.map Text.decimalDigits).getD []

theorem not_mem_row {c : Char} (h : c.isDigit = false) (index : Option Nat) : c ∉ row index := by
  cases index with
  | none =>
      exact List.not_mem_nil
  | some i =>
      intro hc
      rw [isDigit_of_mem_decimalDigits hc] at h
      cases h

@[simp] theorem number?_row (index : Option Nat) : number? (row index) = index := by
  cases index with
  | none =>
      rfl
  | some i =>
      have hne : Text.decimalDigits i ≠ [] := Nat.toDigits_ne_nil
      have hnumber : number? (row (some i)) = some (Text.ofDecimalDigits (Text.decimalDigits i)) :=
        if_neg hne
      rw [hnumber, Text.ofDecimalDigits_decimalDigits]

theorem row_readable_iff {index : Option Nat} :
    row index = [] ∨ IsIndex (row index) <-> forall i, some i = index -> i < indexLimit := by
  cases index with
  | none =>
      simp [row]
  | some i =>
      have hne : Text.decimalDigits i ≠ [] := Nat.toDigits_ne_nil
      simp [row, hne, isIndex_decimalDigits]

def bracketsText (brackets : List (Option Nat)) : List Char :=
  brackets.flatMap fun index => '[' :: ((index.map Text.decimalDigits).getD [] ++ [']'])

theorem bracketsText_eq (brackets : List (Option Nat)) :
    bracketsText brackets = bracketed (brackets.map row) := by
  unfold bracketed
  rw [List.flatMap_map]
  rfl

theorem readBrackets_bracketsText {position : Nat} {brackets found : List (Option Nat)} :
    readBrackets position .outside (bracketsText brackets) = .ok found <->
      (forall i, some i ∈ brackets -> i < indexLimit) ∧ found = brackets := by
  have hclose : forall text, text ∈ brackets.map row -> ']' ∉ text := by
    intro text htext
    rcases List.mem_map.mp htext with ⟨index, _, rfl⟩
    exact not_mem_row (by decide) index
  rw [bracketsText_eq, readBrackets_bracketed hclose, List.forall_mem_map, List.map_map]
  simp only [row_readable_iff, Function.comp_def, number?_row, List.map_id']
  constructor
  · rintro ⟨hlimits, hfound⟩
    exact ⟨fun i hi => hlimits (some i) hi i rfl, hfound⟩
  · rintro ⟨hlimits, hfound⟩
    exact ⟨fun index hindex i hi => hlimits i (hi ▸ hindex), hfound⟩

theorem point_not_mem_bracketsText (brackets : List (Option Nat)) :
    '.' ∉ bracketsText brackets := by
  simp only [bracketsText, List.mem_flatMap, not_exists, not_and]
  intro index _ hpoint
  rw [List.mem_cons, List.mem_append, List.mem_singleton] at hpoint
  rcases hpoint with hopen | hdigit | hclose
  · exact absurd hopen (by decide)
  · exact not_mem_row (by decide) index hdigit
  · exact absurd hclose (by decide)

theorem head?_bracketsText (brackets : List (Option Nat)) :
    (bracketsText brackets).head?.any isNameChar = false := by
  rw [bracketsText_eq]
  exact head?_bracketed _

/-!
## Indexes
-/

def brackets : Option Index -> List (Option Nat)
  | none => []
  | some .all => [none]
  | some (.element indexes) => indexes.map some

theorem combine?_brackets {index : Option Index} (h : index ≠ some (.element [])) :
    combine? (brackets index) = some index := by
  rw [combine?_eq_some]
  rcases index with _ | (_ | indexes)
  · exact Or.inl ⟨rfl, rfl⟩
  · exact Or.inr (Or.inl ⟨rfl, rfl⟩)
  · refine Or.inr (Or.inr ⟨indexes, ?_, rfl, rfl⟩)
    rintro rfl
    exact h rfl

theorem text_index (index : Option Index) :
    (index.map Index.text).getD [] = bracketsText (brackets index) := by
  rcases index with _ | (_ | indexes)
  · rfl
  · rfl
  · unfold bracketsText brackets
    rw [List.flatMap_map]
    rfl

theorem point_not_mem_index (index : Index) : '.' ∉ index.text := by
  have htext : index.text = bracketsText (brackets (some index)) := text_index (some index)
  rw [htext]
  exact point_not_mem_bracketsText _

end Path

/-!
## Segments

No point stands in the text of a segment.
-/

namespace Segment

/-- Whether a segment can be written: it has a name, and an index for an element is not
empty. -/
structure Spelled (segment : Segment) : Prop where
  name : Path.isName segment.name.toList = true
  index : segment.index ≠ some (.element [])

def InLimits (segment : Segment) : Prop :=
  forall indexes, segment.index = some (.element indexes) ->
    forall i, i ∈ indexes -> i < Path.indexLimit

def suffix (segment : Segment) : List Char :=
  (segment.index.map Index.text).getD []

theorem text_eq (segment : Segment) : segment.text = segment.name.toList ++ segment.suffix :=
  rfl

theorem suffix_eq (segment : Segment) :
    segment.suffix = Path.bracketsText (Path.brackets segment.index) :=
  Path.text_index segment.index

theorem head?_suffix (segment : Segment) :
    segment.suffix.head?.any Path.isNameChar = false := by
  rw [suffix_eq]
  exact Path.head?_bracketsText _

theorem takeWhile_text {segment : Segment} (h : segment.Spelled) :
    segment.text.takeWhile Path.isNameChar = segment.name.toList :=
  Path.takeWhile_name h.name (head?_suffix segment)

theorem dropWhile_text {segment : Segment} (h : segment.Spelled) :
    segment.text.dropWhile Path.isNameChar = segment.suffix :=
  Path.dropWhile_name h.name (head?_suffix segment)

theorem point_not_mem_text {segment : Segment} (h : segment.Spelled) :
    '.' ∉ segment.text := by
  rw [text_eq, List.mem_append, not_or]
  constructor
  · intro hpoint
    exact absurd (Path.isNameChar_of_isName h.name hpoint) (by decide)
  · rw [suffix_eq]
    exact Path.point_not_mem_bracketsText _

def spanned (segment : Segment) (offset : Nat) : Segment :=
  { segment with span := { offset, length := Text.byteLength segment.text } }

end Segment

namespace Path

theorem readBrackets_suffix {segment : Segment} {position : Nat}
    {found : List (Option Nat)} :
    readBrackets position .outside segment.suffix = .ok found <->
      segment.InLimits ∧ found = brackets segment.index := by
  rw [Segment.suffix_eq, readBrackets_bracketsText]
  unfold Segment.InLimits
  rcases segment.index with _ | (_ | indexes) <;> simp [brackets]

theorem readSegment_text {segment read : Segment} (h : segment.Spelled) {offset : Nat} :
    readSegment offset segment.text = .ok read <->
      segment.InLimits ∧ read = segment.spanned offset := by
  have hstart : segment.text.head?.any isNameStart = true := head?_of_isName h.name _
  rw [readSegment_eq_ok, Segment.takeWhile_text h, Segment.dropWhile_text h,
    String.ofList_toList]
  constructor
  · rintro ⟨_, found, index, hfound, hindex, rfl⟩
    rcases readBrackets_suffix.mp hfound with ⟨hlimits, rfl⟩
    rw [combine?_brackets h.index] at hindex
    cases hindex
    exact ⟨hlimits, rfl⟩
  · rintro ⟨hlimits, rfl⟩
    exact ⟨hstart, brackets segment.index, segment.index,
      readBrackets_suffix.mpr ⟨hlimits, rfl⟩, combine?_brackets h.index, rfl⟩

theorem Written.spelled {part : List Char} {segment : Segment}
    (h : Written part segment.name segment.index) : segment.Spelled ∧ segment.InLimits := by
  rcases segment with ⟨name, index, span⟩
  cases h with
  | bare hname =>
      exact ⟨⟨hname, nofun⟩, nofun⟩
  | all hname =>
      exact ⟨⟨hname, nofun⟩, nofun⟩
  | element hname hne hrows =>
      refine ⟨⟨hname, by simpa using hne⟩, ?_⟩
      intro indexes hindexes i hi
      cases hindexes
      rcases List.mem_map.mp hi with ⟨row, hrow, rfl⟩
      exact (hrows row hrow).below

theorem spelled_of_readSegment {offset : Nat} {text : List Char} {segment : Segment}
    (h : readSegment offset text = .ok segment) : segment.Spelled ∧ segment.InLimits :=
  (readSegment_eq_ok_iff_written.mp h).left.spelled

/-!
## Whole paths

The text of a path is cut into the texts of its segments again.
-/

def spannedFrom (offset : Nat) : Path -> Path
  | [] => []
  | segment :: rest =>
      segment.spanned offset :: spannedFrom (offset + Text.byteLength segment.text + 1) rest

def Spelled (path : Path) : Prop :=
  forall segment, segment ∈ path -> segment.Spelled

def InLimits (path : Path) : Prop :=
  forall segment, segment ∈ path -> segment.InLimits

theorem readSegments_text {path read : Path} (h : path.Spelled) {offset : Nat} :
    readSegments offset (path.map Segment.text) = .ok read <->
      path.InLimits ∧ read = path.spannedFrom offset := by
  induction path generalizing offset read with
  | nil =>
      simp [readSegments, InLimits, spannedFrom, eq_comm]
  | cons segment rest ih =>
      rcases List.forall_mem_cons.mp h with ⟨hsegment, hrest⟩
      rw [List.map_cons, readSegments]
      constructor
      · intro h
        rcases bind_eq_ok.mp h with ⟨first, hfirst, h⟩
        rcases bind_eq_ok.mp h with ⟨others, hothers, hpure⟩
        rcases (readSegment_text hsegment).mp hfirst with ⟨hlimits, rfl⟩
        rcases (ih hrest).mp hothers with ⟨hlimits', rfl⟩
        rw [← pure_eq_ok.mp hpure]
        exact ⟨List.forall_mem_cons.mpr ⟨hlimits, hlimits'⟩, rfl⟩
      · rintro ⟨hlimits, rfl⟩
        rcases List.forall_mem_cons.mp hlimits with ⟨hlimits, hlimits'⟩
        refine bind_eq_ok.mpr ⟨_, (readSegment_text hsegment).mpr ⟨hlimits, rfl⟩, ?_⟩
        exact bind_eq_ok.mpr ⟨_, (ih hrest).mpr ⟨hlimits', rfl⟩, rfl⟩

theorem chars_ne_nil {path : Path} (hne : path ≠ []) (h : path.Spelled) : path.chars ≠ [] := by
  intro hnil
  cases path with
  | nil =>
      exact hne rfl
  | cons segment rest =>
      have hname := (h segment List.mem_cons_self).name
      have htext : segment.text = [] := by
        cases rest with
        | nil =>
            simpa [Path.chars, List.intercalate_singleton] using hnil
        | cons next others =>
            simp [Path.chars, List.intercalate_cons_cons] at hnil
      rw [Segment.text_eq, List.append_eq_nil_iff] at htext
      rw [htext.left] at hname
      cases hname

theorem pieces_chars {path : Path} (hne : path ≠ []) (h : path.Spelled) :
    Text.pieces '.' path.chars = path.map Segment.text := by
  refine Text.pieces_intercalate (by simpa using hne) ?_
  intro part hpart
  rcases List.mem_map.mp hpart with ⟨segment, hsegment, rfl⟩
  exact Segment.point_not_mem_text (h segment hsegment)

theorem read_text {path read : Path} (hne : path ≠ []) (h : path.Spelled) :
    Path.read path.text = .ok read <-> path.InLimits ∧ read = path.spannedFrom 0 := by
  unfold text
  rw [read_eq_ok, String.toList_ofList, pieces_chars hne h]
  exact readSegments_text h

theorem Spans.spelled {offset : Nat} {parts : List (List Char)} {path : Path}
    (h : Spans offset parts path) : path.Spelled ∧ path.InLimits := by
  induction h with
  | nil =>
      exact ⟨List.forall_mem_nil _, List.forall_mem_nil _⟩
  | cons hwritten _ _ ih =>
      rcases hwritten.spelled with ⟨hspelled, hlimits⟩
      rcases ih with ⟨hspelled', hlimits'⟩
      exact ⟨List.forall_mem_cons.mpr ⟨hspelled, hspelled'⟩,
        List.forall_mem_cons.mpr ⟨hlimits, hlimits'⟩⟩

theorem spelled_of_read {text : String} {path : Path} (h : Path.read text = .ok path) :
    path.Spelled ∧ path.InLimits :=
  (readSegments_eq_ok.mp (read_eq_ok.mp h)).spelled

/-!
## Joining texts

Paths with the same text have the same names.
-/

theorem text_singleton (segment : Segment) :
    Path.text [segment] = String.ofList segment.text := by
  simp [Path.text, Path.chars, List.intercalate_singleton]

theorem chars_append {first second : Path} (hfirst : first ≠ []) (hsecond : second ≠ []) :
    Path.chars (first ++ second) = Path.chars first ++ '.' :: Path.chars second := by
  induction first with
  | nil =>
      exact absurd rfl hfirst
  | cons segment rest ih =>
      cases rest with
      | nil =>
          rcases List.exists_cons_of_ne_nil hsecond with ⟨next, others, rfl⟩
          simp [Path.chars, List.intercalate_cons_cons]
      | cons next others =>
          have hrest := ih (List.cons_ne_nil _ _)
          simp only [Path.chars, List.cons_append, List.map_cons, List.intercalate_cons_cons,
            List.append_assoc] at hrest ⊢
          rw [hrest]

theorem text_append {first second : Path} (hfirst : first ≠ []) (hsecond : second ≠ []) :
    Path.text (first ++ second) = Path.text first ++ "." ++ Path.text second := by
  have hpoint : "." = String.ofList ['.'] := rfl
  unfold Path.text
  rw [chars_append hfirst hsecond, hpoint, ← String.ofList_append, ← String.ofList_append,
    List.append_assoc]
  rfl

theorem text_ne_empty {path : Path} (hne : path ≠ []) (h : path.Spelled) :
    path.text.isEmpty = false := by
  rw [Bool.eq_false_iff, ne_eq, String.isEmpty_iff]
  intro hempty
  exact chars_ne_nil hne h (String.ofList_eq_empty_iff.mp hempty)

theorem names_eq_of_text_eq {first second : Path} (hne : first ≠ []) (hne' : second ≠ [])
    (h : first.Spelled) (h' : second.Spelled) (htext : first.text = second.text) :
    first.map Segment.name = second.map Segment.name := by
  have hnames : forall path : Path, path ≠ [] -> path.Spelled ->
      (Text.pieces '.' path.chars).map (fun text => String.ofList (text.takeWhile isNameChar)) =
        path.map Segment.name := by
    intro path hne h
    rw [pieces_chars hne h, List.map_map]
    refine List.map_congr_left ?_
    intro segment hsegment
    rw [Function.comp_apply, Segment.takeWhile_text (h segment hsegment), String.ofList_toList]
  have hchars : first.chars = second.chars := String.ofList_injective htext
  rw [← hnames first hne h, ← hnames second hne' h', hchars]

end Path
end VideoConfig
