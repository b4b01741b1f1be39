import Mathlib.Data.List.Forall2
import VideoConfig.Proofs.Path.Scanning

/-!
# The grammar of paths

A part of a path is a name with nothing behind it, with empty brackets, or with rows of digits
in brackets that are numbers of indexes. The reader accepts exactly the texts whose parts are
of this form, and it reads the names and the indexes that are written. The ranges of the
segments are those of the parts: the first starts the text, each other one starts behind the
point that ends the one before, and the last ends the text.
-/

namespace VideoConfig

theorem Text.utf8ByteSize_ofList (text : List Char) :
    (String.ofList text).utf8ByteSize = Text.byteLength text := by
  induction text with
  | nil =>
      rfl
  | cons c rest ih =>
      rw [String.ofList_cons, String.utf8ByteSize_append, String.utf8ByteSize_singleton, ih]
      rfl

namespace Path

/-!
## Parts of the grammar
-/

structure IsIndex (row : List Char) : Prop where
  ne_nil : row ≠ []
  digits : forall c, c ∈ row -> c.isDigit = true
  below : Text.ofDecimalDigits row < indexLimit

def bracketed (rows : List (List Char)) : List Char :=
  rows.flatMap fun row => '[' :: (row ++ [']'])

/-- The grammar of a part, with the name and the index that are written in it. -/
inductive Written : List Char -> String -> Option Index -> Prop where
  | bare {name : String} :
      isName name.toList = true -> Written name.toList name none
  | all {name : String} :
      isName name.toList = true -> Written (name.toList ++ ['[', ']']) name (some .all)
  | element {name : String} {rows : List (List Char)} :
      isName name.toList = true -> rows ≠ [] -> (forall row, row ∈ rows -> IsIndex row) ->
      Written (name.toList ++ bracketed rows) name
        (some (.element (rows.map Text.ofDecimalDigits)))

def Valid (part : List Char) : Prop :=
  exists name index, Written part name index

@[simp] theorem bracketed_nil : bracketed [] = [] := rfl

theorem bracketed_cons (row : List Char) (rows : List (List Char)) :
    bracketed (row :: rows) = '[' :: (row ++ ']' :: bracketed rows) := by
  simp [bracketed]

theorem IsIndex.close_not_mem {row : List Char} (h : IsIndex row) : ']' ∉ row := by
  intro hclose
  exact absurd (h.digits _ hclose) (by decide)

/-!
## Texts behind a name

Those that are read are rows in brackets, each empty or the number of an index, and what is
read does not depend on where they stand. Inside of brackets that are not closed the reader
goes on to the end.
-/

/-- The shapes of a text behind a name: it is empty, it does not go on with a bracket, its
first bracket is not closed, or its first bracket is closed in front of another such text. -/
inductive Shape : List Char -> Prop where
  | nil : Shape []
  | stray {c : Char} {rest : List Char} : c ≠ '[' -> Shape (c :: rest)
  | unclosed {rest : List Char} : ']' ∉ rest -> Shape ('[' :: rest)
  | closed {row rest : List Char} :
      ']' ∉ row -> Shape rest -> Shape ('[' :: (row ++ ']' :: rest))

theorem shape : forall text, Shape text
  | [] => Shape.nil
  | c :: rest => by
      by_cases hopen : c = '['
      · subst hopen
        by_cases hclose : ']' ∈ rest
        · rcases List.eq_append_cons_of_mem hclose with ⟨row, behind, hsplit, hrow⟩
          have hshorter : behind.length < ('[' :: rest).length := by
            simp [hsplit]
            omega
          rw [hsplit]
          exact Shape.closed hrow (shape behind)
        · exact Shape.unclosed hclose
      · exact Shape.stray hopen
termination_by text => text.length

theorem readBrackets_stray {position : Nat} {c : Char} {rest : List Char} (h : c ≠ '[') :
    readBrackets position .outside (c :: rest) =
      refuse (.unexpected (firstByte c)) position 1 := by
  unfold readBrackets
  rw [if_neg h]

theorem readBrackets_inside_unclosed {position start : Nat} {read rest : List Char}
    (h : ']' ∉ rest) :
    readBrackets position (.inside start read) rest =
      refuse .unclosedBracket start (position + Text.byteLength rest - start) := by
  induction rest generalizing position read with
  | nil =>
      rfl
  | cons c rest ih =>
      rw [List.mem_cons, not_or] at h
      unfold readBrackets
      rw [if_neg (Ne.symm h.left), ih h.right, Text.byteLength_cons, Nat.add_assoc]

theorem readBrackets_unclosed {position : Nat} {rest : List Char} (h : ']' ∉ rest) :
    readBrackets position .outside ('[' :: rest) =
      refuse .unclosedBracket position (1 + Text.byteLength rest) := by
  unfold readBrackets
  rw [if_pos rfl, readBrackets_inside_unclosed h, Nat.add_assoc, Nat.add_sub_cancel_left]

theorem readBrackets_closed {position : Nat} {row rest : List Char} (h : ']' ∉ row) :
    readBrackets position .outside ('[' :: (row ++ ']' :: rest)) = do
      let index ← readIndex position row
      let others ← readBrackets (position + 1 + Text.byteLength row + 1) .outside rest
      return index :: others := by
  rw [readBrackets, if_pos rfl, readBrackets_inside h]
  rfl

def number? (row : List Char) : Option Nat :=
  if row = [] then none else some (Text.ofDecimalDigits row)

@[simp] theorem number?_nil : number? [] = none := rfl

theorem IsIndex.number? {row : List Char} (h : IsIndex row) :
    number? row = some (Text.ofDecimalDigits row) := if_neg h.ne_nil

theorem readIndex_eq_ok {offset : Nat} {row : List Char} {index : Option Nat} :
    readIndex offset row = .ok index <->
      (row = [] ∨ IsIndex row) ∧ index = number? row := by
  unfold readIndex
  by_cases hnil : row = []
  · simp [hnil, eq_comm]
  · by_cases hdigits : row.all Char.isDigit = true
    · by_cases hbelow : Text.ofDecimalDigits row < indexLimit
      · have hindex : IsIndex row := ⟨hnil, List.all_eq_true.mp hdigits, hbelow⟩
        simp [hnil, hdigits, hbelow, hindex, hindex.number?, eq_comm]
      · have hindex : ¬ IsIndex row := fun h => hbelow h.below
        simp [hnil, hdigits, hbelow, hindex, refuse]
    · have hindex : ¬ IsIndex row := fun h => hdigits (List.all_eq_true.mpr h.digits)
      simp [hnil, hdigits, hindex, refuse]

theorem readBrackets_bracketed {position : Nat} {rows : List (List Char)}
    {found : List (Option Nat)} (hclose : forall row, row ∈ rows -> ']' ∉ row) :
    readBrackets position .outside (bracketed rows) = .ok found <->
      (forall row, row ∈ rows -> row = [] ∨ IsIndex row) ∧ found = rows.map number? := by
  induction rows generalizing position found with
  | nil =>
      simp [readBrackets, eq_comm]
  | cons row rows ih =>
      rcases List.forall_mem_cons.mp hclose with ⟨hrow, hrows⟩
      rw [bracketed_cons, readBrackets_closed hrow, List.forall_mem_cons]
      simp only [bind_eq_ok, pure_eq_ok, readIndex_eq_ok, ih hrows]
      constructor
      · rintro ⟨_, ⟨hindex, rfl⟩, _, ⟨hindexes, rfl⟩, rfl⟩
        exact ⟨⟨hindex, hindexes⟩, rfl⟩
      · rintro ⟨⟨hindex, hindexes⟩, rfl⟩
        exact ⟨_, ⟨hindex, rfl⟩, _, ⟨hindexes, rfl⟩, rfl⟩

theorem readBrackets_eq_ok {position : Nat} {text : List Char} {found : List (Option Nat)} :
    readBrackets position .outside text = .ok found <->
      exists rows, text = bracketed rows ∧ (forall row, row ∈ rows -> row = [] ∨ IsIndex row) ∧
        found = rows.map number? := by
  constructor
  · intro h
    induction shape text generalizing position found with
    | nil =>
        cases h
        exact ⟨[], rfl, List.forall_mem_nil _, rfl⟩
    | stray hopen =>
        rw [readBrackets_stray hopen] at h
        cases h
    | unclosed hclose =>
        rw [readBrackets_unclosed hclose] at h
        cases h
    | closed hclose _ ih =>
        rw [readBrackets_closed hclose] at h
        rcases bind_eq_ok.mp h with ⟨index, hindex, h⟩
        rcases bind_eq_ok.mp h with ⟨others, hothers, hpure⟩
        rcases readIndex_eq_ok.mp hindex with ⟨hrow, rfl⟩
        rcases ih hothers with ⟨rows, rfl, hrows, rfl⟩
        rw [← pure_eq_ok.mp hpure]
        exact ⟨_ :: rows, (bracketed_cons _ rows).symm, List.forall_mem_cons.mpr ⟨hrow, hrows⟩,
          rfl⟩
  · rintro ⟨rows, rfl, hrows, rfl⟩
    refine (readBrackets_bracketed ?_).mpr ⟨hrows, rfl⟩
    intro row hrow
    rcases hrows row hrow with rfl | hindex
    · exact List.not_mem_nil
    · exact hindex.close_not_mem

theorem readBrackets_shift (position : Nat) {position' : Nat} {text : List Char}
    {found : List (Option Nat)} (h : readBrackets position' .outside text = .ok found) :
    readBrackets position .outside text = .ok found :=
  readBrackets_eq_ok.mpr (readBrackets_eq_ok.mp h)

/-!
## Parts that are read

The parts that are written are names with brackets behind them that make an index, and
exactly these are read.
-/

theorem isIndex_of_map_number? {rows : List (List Char)} {indexes : List Nat}
    (hrows : forall row, row ∈ rows -> row = [] ∨ IsIndex row)
    (h : rows.map number? = indexes.map some) :
    (forall row, row ∈ rows -> IsIndex row) ∧ indexes = rows.map Text.ofDecimalDigits := by
  induction rows generalizing indexes with
  | nil =>
      exact ⟨List.forall_mem_nil _, by simpa using h.symm⟩
  | cons row rows ih =>
      rcases List.forall_mem_cons.mp hrows with ⟨hrow, hrows⟩
      cases indexes with
      | nil =>
          cases h
      | cons i indexes =>
          rw [List.map_cons, List.map_cons, List.cons.injEq] at h
          rcases ih hrows h.right with ⟨hindexes, rfl⟩
          rcases hrow with rfl | hindex
          · cases h.left
          · have hi := hindex.number?.symm.trans h.left
            cases hi
            exact ⟨List.forall_mem_cons.mpr ⟨hindex, hindexes⟩, rfl⟩

theorem written_iff {part : List Char} {name : String} {index : Option Index} :
    Written part name index <->
      isName name.toList = true ∧ exists rows, part = name.toList ++ bracketed rows ∧
        (forall row, row ∈ rows -> row = [] ∨ IsIndex row) ∧
        combine? (rows.map number?) = some index := by
  constructor
  · intro h
    cases h with
    | bare hname =>
        exact ⟨hname, [], (List.append_nil _).symm, List.forall_mem_nil _, rfl⟩
    | all hname =>
        exact ⟨hname, [[]], rfl, List.forall_mem_singleton.mpr (Or.inl rfl), rfl⟩
    | @element _ rows hname hne hrows =>
        refine ⟨hname, rows, rfl, fun row hrow => Or.inr (hrows row hrow), ?_⟩
        refine combine?_eq_some.mpr (Or.inr (Or.inr ⟨_, ?_, ?_, rfl⟩))
        · simpa using hne
        · rw [List.map_map]
          exact List.map_congr_left fun row hrow => (hrows row hrow).number?
  · rintro ⟨hname, rows, rfl, hrows, hcombine⟩
    rcases combine?_eq_some.mp hcombine with
      ⟨hnil, rfl⟩ | ⟨hall, rfl⟩ | ⟨indexes, hne, hmap, rfl⟩
    · rw [List.map_eq_nil_iff.mp hnil, bracketed_nil, List.append_nil]
      exact Written.bare hname
    · rcases List.map_eq_singleton_iff.mp hall with ⟨row, rfl, hnone⟩
      rcases hrows row (List.mem_singleton_self row) with rfl | hindex
      · exact Written.all hname
      · rw [hindex.number?] at hnone
        cases hnone
    · rcases isIndex_of_map_number? hrows hmap with ⟨hindexes, rfl⟩
      refine Written.element hname ?_ hindexes
      rintro rfl
      exact hne rfl

theorem head?_bracketed (rows : List (List Char)) :
    (bracketed rows).head?.any isNameChar = false := by
  cases rows with
  | nil =>
      rfl
  | cons row rows =>
      rw [bracketed_cons]
      rfl

theorem readSegment_eq_ok_iff_written {offset : Nat} {part : List Char} {segment : Segment} :
    readSegment offset part = .ok segment <->
      Written part segment.name segment.index ∧
        segment.span = { offset, length := Text.byteLength part } := by
  rw [readSegment_eq_ok, written_iff]
  constructor
  · rintro ⟨hstart, found, index, hfound, hcombine, rfl⟩
    rcases readBrackets_eq_ok.mp hfound with ⟨rows, hsuffix, hrows, rfl⟩
    dsimp only
    rw [String.toList_ofList]
    refine ⟨⟨isName_takeWhile hstart, rows, ?_, hrows, hcombine⟩, rfl⟩
    rw [← hsuffix, List.takeWhile_append_dropWhile]
  · rintro ⟨⟨hname, rows, rfl, hrows, hcombine⟩, hspan⟩
    rw [takeWhile_name hname (head?_bracketed rows), dropWhile_name hname (head?_bracketed rows)]
    refine ⟨head?_of_isName hname _, rows.map number?, segment.index, ?_, hcombine, ?_⟩
    · exact readBrackets_eq_ok.mpr ⟨rows, rfl, hrows, rfl⟩
    · rw [← hspan, String.ofList_toList]

theorem exists_readSegment_iff {offset : Nat} {part : List Char} :
    (exists segment, readSegment offset part = .ok segment) <-> Valid part := by
  constructor
  · rintro ⟨segment, h⟩
    exact ⟨_, _, (readSegment_eq_ok_iff_written.mp h).left⟩
  · rintro ⟨name, index, h⟩
    exact ⟨{ name, index, span := { offset, length := Text.byteLength part } },
      readSegment_eq_ok_iff_written.mpr ⟨h, rfl⟩⟩

/-!
## Texts that are read
-/

inductive Spans : (offset : Nat) -> List (List Char) -> Path -> Prop where
  | nil {offset : Nat} : Spans offset [] []
  | cons {offset : Nat} {part : List Char} {rest : List (List Char)} {segment : Segment}
      {others : Path} :
      Written part segment.name segment.index ->
      segment.span = { offset, length := Text.byteLength part } ->
      Spans (offset + Text.byteLength part + 1) rest others ->
      Spans offset (part :: rest) (segment :: others)

theorem readSegments_eq_ok {offset : Nat} {parts : List (List Char)} {path : Path} :
    readSegments offset parts = .ok path <-> Spans offset parts path := by
  induction parts generalizing offset path with
  | nil =>
      constructor
      · intro h
        cases h
        exact Spans.nil
      · intro h
        cases h
        rfl
  | cons part rest ih =>
      constructor
      · intro h
        rcases bind_eq_ok.mp h with ⟨segment, hsegment, h⟩
        rcases bind_eq_ok.mp h with ⟨others, hothers, hpure⟩
        rcases readSegment_eq_ok_iff_written.mp hsegment with ⟨hwritten, hspan⟩
        rw [← pure_eq_ok.mp hpure]
        exact Spans.cons hwritten hspan (ih.mp hothers)
      · intro h
        cases h with
        | cons hwritten hspan hothers =>
            refine bind_eq_ok.mpr ⟨_, readSegment_eq_ok_iff_written.mpr ⟨hwritten, hspan⟩, ?_⟩
            exact bind_eq_ok.mpr ⟨_, ih.mpr hothers, rfl⟩

theorem exists_spans_iff {offset : Nat} {parts : List (List Char)} :
    (exists path, Spans offset parts path) <-> forall part, part ∈ parts -> Valid part := by
  induction parts generalizing offset with
  | nil =>
      exact iff_of_true ⟨[], Spans.nil⟩ (List.forall_mem_nil _)
  | cons part rest ih =>
      rw [List.forall_mem_cons, ← @ih (offset + Text.byteLength part + 1)]
      constructor
      · rintro ⟨path, h⟩
        cases h with
        | cons hwritten _ hothers =>
            exact ⟨⟨_, _, hwritten⟩, ⟨_, hothers⟩⟩
      · rintro ⟨⟨name, index, hwritten⟩, ⟨others, hothers⟩⟩
        let segment : Segment :=
          { name, index, span := { offset, length := Text.byteLength part } }
        exact ⟨segment :: others, Spans.cons hwritten rfl hothers⟩

/-- The ranges of the segments of a path tile a text, and each segment says what is written in
its part of the text. -/
structure Tiles (text : String) (path : Path) : Prop where
  written : List.Forall₂
    (fun part segment => Written part segment.name segment.index ∧
      segment.span.length = Text.byteLength part)
    (Text.pieces '.' text.toList) path
  first : forall segment rest, path = segment :: rest -> segment.span.offset = 0
  next : forall before segment other after, path = before ++ segment :: other :: after ->
    other.span.offset = segment.span.offset + segment.span.length + 1
  last : forall before segment, path = before ++ [segment] ->
    segment.span.offset + segment.span.length = text.utf8ByteSize

theorem Spans.written {offset : Nat} {parts : List (List Char)} {path : Path}
    (h : Spans offset parts path) :
    List.Forall₂ (fun part segment => Written part segment.name segment.index ∧
      segment.span.length = Text.byteLength part) parts path := by
  induction h with
  | nil =>
      exact List.Forall₂.nil
  | cons hwritten hspan _ ih =>
      exact ih.cons ⟨hwritten, by rw [hspan]⟩

theorem Spans.first {offset : Nat} {parts : List (List Char)} {segment : Segment} {rest : Path}
    (h : Spans offset parts (segment :: rest)) : segment.span.offset = offset := by
  cases h with
  | cons _ hspan _ =>
      rw [hspan]

theorem Spans.next {offset : Nat} {parts : List (List Char)} {before after : Path}
    {segment other : Segment} (h : Spans offset parts (before ++ segment :: other :: after)) :
    other.span.offset = segment.span.offset + segment.span.length + 1 := by
  induction before generalizing offset parts with
  | nil =>
      cases h with
      | cons _ hspan hrest =>
          rw [hrest.first, hspan]
  | cons first before ih =>
      cases h with
      | cons _ _ hrest =>
          exact ih hrest

theorem Spans.last {offset : Nat} {parts : List (List Char)} {before : Path}
    {segment : Segment} (h : Spans offset parts (before ++ [segment])) :
    segment.span.offset + segment.span.length =
      offset + Text.byteLength (['.'].intercalate parts) := by
  induction before generalizing offset parts with
  | nil =>
      cases h with
      | cons _ hspan hrest =>
          cases hrest
          rw [hspan, List.intercalate_singleton]
  | cons first before ih =>
      cases h with
      | @cons _ part rest _ _ _ _ hrest =>
          cases rest with
          | nil =>
              cases before <;> cases hrest
          | cons next rest =>
              have hpoint : Text.byteLength ['.'] = 1 := rfl
              rw [ih hrest, List.intercalate_cons_cons, Text.byteLength_append,
                Text.byteLength_append, hpoint]
              omega

theorem Spans.tiles {text : String} {path : Path}
    (h : Spans 0 (Text.pieces '.' text.toList) path) : Tiles text path where
  written := h.written
  first := by
    rintro segment rest rfl
    exact h.first
  next := by
    rintro before segment other after rfl
    exact h.next
  last := by
    rintro before segment rfl
    rw [h.last, Text.intercalate_pieces, ← Text.utf8ByteSize_ofList, String.ofList_toList,
      Nat.zero_add]

end Path
end VideoConfig
