import VideoConfig.Proofs.Path.Reading

/-!
# Texts with other indexes

What a part of a text is read as does not depend on where the part stands. So a text in
which the indexes of one segment are replaced is read as the path with these indexes there,
and differs elsewhere at most in the ranges of its segments.
-/

namespace VideoConfig

structure Segment.Alike (first second : Segment) : Prop where
  name : first.name = second.name
  index : first.index = second.index

def Path.Alike (first second : Path) : Prop :=
  List.Forall₂ Segment.Alike first second

namespace Path

theorem Alike.refl (path : Path) : path.Alike path := by
  induction path with
  | nil =>
      exact List.Forall₂.nil
  | cons segment rest ih =>
      exact List.Forall₂.cons ⟨rfl, rfl⟩ ih

theorem Alike.symm {first second : Path} (h : first.Alike second) : second.Alike first := by
  induction h with
  | nil =>
      exact List.Forall₂.nil
  | cons hsegment _ ih =>
      exact List.Forall₂.cons ⟨hsegment.name.symm, hsegment.index.symm⟩ ih

theorem Alike.append {first second first' second' : Path} (h : first.Alike first')
    (h' : second.Alike second') : (first ++ second).Alike (first' ++ second') := by
  induction h with
  | nil =>
      exact h'
  | cons hsegment _ ih =>
      exact List.Forall₂.cons hsegment ih

theorem Alike.eq_nil_iff {first second : Path} (h : first.Alike second) :
    first = [] <-> second = [] := by
  cases h <;> simp

theorem alike_spannedFrom (path : Path) (offset : Nat) : (path.spannedFrom offset).Alike path := by
  induction path generalizing offset with
  | nil =>
      exact List.Forall₂.nil
  | cons segment rest ih =>
      exact List.Forall₂.cons ⟨rfl, rfl⟩ (ih _)

/-!
## Parts of a text
-/

theorem readSegment_shift {offset : Nat} {text : List Char} {segment : Segment}
    (h : readSegment offset text = .ok segment) (offset' : Nat) :
    exists segment', readSegment offset' text = .ok segment' ∧ segment'.Alike segment := by
  rcases readSegment_eq_ok_iff_written.mp h with ⟨hwritten, _⟩
  exact ⟨{ segment with span := { offset := offset', length := Text.byteLength text } },
    readSegment_eq_ok_iff_written.mpr ⟨hwritten, rfl⟩, ⟨rfl, rfl⟩⟩

def ReadsAs (part : List Char) (segment : Segment) : Prop :=
  forall offset, exists segment', readSegment offset part = .ok segment' ∧ segment'.Alike segment

theorem readsAs_of_readSegments {offset : Nat} {parts : List (List Char)} {path : Path}
    (h : readSegments offset parts = .ok path) : List.Forall₂ ReadsAs parts path := by
  induction parts generalizing offset path with
  | nil =>
      cases h
      exact List.Forall₂.nil
  | cons part rest ih =>
      rcases bind_eq_ok.mp h with ⟨segment, hsegment, h⟩
      rcases bind_eq_ok.mp h with ⟨others, hothers, hpure⟩
      rw [← pure_eq_ok.mp hpure]
      exact List.Forall₂.cons (readSegment_shift hsegment) (ih hothers)

theorem exists_readSegments {offset : Nat} {parts : List (List Char)} {path : Path}
    (h : List.Forall₂ ReadsAs parts path) :
    exists read, readSegments offset parts = .ok read ∧ read.Alike path := by
  induction h generalizing offset with
  | nil =>
      exact ⟨[], rfl, List.Forall₂.nil⟩
  | @cons part segment rest others hpart _ ih =>
      rcases hpart offset with ⟨first, hfirst, halike⟩
      rcases @ih (offset + Text.byteLength part + 1) with ⟨read, hread, halikes⟩
      exact ⟨first :: read, bind_eq_ok.mpr ⟨first, hfirst, bind_eq_ok.mpr ⟨read, hread, rfl⟩⟩,
        List.Forall₂.cons halike halikes⟩

/-!
## Replacing indexes

With other indexes behind its name a part is read as the segment with these, if they are not
too large.
-/

def reindexedPart (indexes : List Nat) (part : List Char) : List Char :=
  part.takeWhile isNameChar ++ Index.text (.element indexes)

def reindexed (text : String) (position : Nat) (indexes : List Nat) : String :=
  String.ofList (['.'].intercalate
    ((Text.pieces '.' text.toList).modify position (reindexedPart indexes)))

theorem point_not_mem_reindexedPart (indexes : List Nat) (part : List Char) :
    '.' ∉ reindexedPart indexes part := by
  unfold reindexedPart
  rw [List.mem_append, not_or]
  constructor
  · intro hpoint
    exact absurd (List.all_eq_true.mp List.all_takeWhile '.' hpoint) (by decide)
  · exact point_not_mem_index _

theorem pieces_reindexed (text : String) (position : Nat) (indexes : List Nat) :
    Text.pieces '.' (reindexed text position indexes).toList =
      (Text.pieces '.' text.toList).modify position (reindexedPart indexes) := by
  unfold reindexed
  rw [String.toList_ofList]
  exact Text.pieces_modify (fun part _ => point_not_mem_reindexedPart indexes part) _ position

theorem exists_reindexedPart {part : List Char} {segment : Segment} {indexes : List Nat}
    (h : ReadsAs part segment) (hne : indexes ≠ []) :
    exists replaced : Segment, reindexedPart indexes part = replaced.text ∧ replaced.Spelled ∧
      replaced.Alike { segment with index := some (.element indexes) } := by
  rcases h 0 with ⟨read, hread, halike⟩
  refine ⟨{ read with index := some (.element indexes) }, ?_, ⟨?_, ?_⟩, halike.name, rfl⟩
  · rcases readSegment_eq_ok.mp hread with ⟨_, _, _, _, _, rfl⟩
    simp [reindexedPart, Segment.text]
  · exact (spelled_of_readSegment hread).left.name
  · simpa using hne

theorem readsAs_modify {parts : List (List Char)} {ahead after : Path} {segment : Segment}
    {indexes : List Nat} (h : List.Forall₂ ReadsAs parts (ahead ++ segment :: after))
    (hne : indexes ≠ []) (hlimits : forall i, i ∈ indexes -> i < indexLimit) :
    List.Forall₂ ReadsAs (parts.modify ahead.length (reindexedPart indexes))
      (ahead ++ { segment with index := some (.element indexes) } :: after) := by
  induction ahead generalizing parts with
  | nil =>
      rcases List.forall₂_cons_right_iff.mp h with ⟨part, rest, hpart, hrest, rfl⟩
      rcases exists_reindexedPart hpart hne with ⟨replaced, htext, hspelled, halike⟩
      rw [List.length_nil, List.modify_zero_cons]
      refine List.Forall₂.cons ?_ hrest
      intro offset
      have hinLimits : replaced.InLimits := by
        intro indexes' heq
        cases halike.index.symm.trans heq
        exact hlimits
      rw [htext]
      exact ⟨replaced.spanned offset, (readSegment_text hspelled).mpr ⟨hinLimits, rfl⟩,
        halike.name, halike.index⟩
  | cons first others ih =>
      rcases List.forall₂_cons_right_iff.mp h with ⟨part, rest, hpart, hrest, rfl⟩
      rw [List.length_cons, List.modify_succ_cons]
      exact List.Forall₂.cons hpart (ih hrest)

theorem limits_of_readSegments_modify {parts : List (List Char)} {ahead after read : Path}
    {segment : Segment} {indexes : List Nat} {offset : Nat}
    (h : List.Forall₂ ReadsAs parts (ahead ++ segment :: after)) (hne : indexes ≠ [])
    (hread : readSegments offset (parts.modify ahead.length (reindexedPart indexes)) = .ok read) :
    forall i, i ∈ indexes -> i < indexLimit := by
  induction ahead generalizing parts offset read with
  | nil =>
      rcases List.forall₂_cons_right_iff.mp h with ⟨part, rest, hpart, _, rfl⟩
      rcases exists_reindexedPart hpart hne with ⟨replaced, htext, hspelled, halike⟩
      rw [List.length_nil, List.modify_zero_cons, htext] at hread
      rcases bind_eq_ok.mp hread with ⟨first, hfirst, _⟩
      exact ((readSegment_text hspelled).mp hfirst).left indexes halike.index
  | cons first others ih =>
      rcases List.forall₂_cons_right_iff.mp h with ⟨part, rest, _, hrest, rfl⟩
      rw [List.length_cons, List.modify_succ_cons] at hread
      rcases bind_eq_ok.mp hread with ⟨_, _, hread⟩
      rcases bind_eq_ok.mp hread with ⟨_, hothers, _⟩
      exact ih hrest hothers

/-- A text with other indexes is read exactly if these are not too large, and then as the
path with these indexes. -/
theorem read_reindexed {text : String} {ahead after : Path} {segment : Segment}
    {indexes : List Nat} (h : Path.read text = .ok (ahead ++ segment :: after))
    (hne : indexes ≠ []) :
    (forall read, Path.read (reindexed text ahead.length indexes) = .ok read ->
        forall i, i ∈ indexes -> i < indexLimit) ∧
      ((forall i, i ∈ indexes -> i < indexLimit) ->
        exists read, Path.read (reindexed text ahead.length indexes) = .ok read ∧
          read.Alike (ahead ++ { segment with index := some (.element indexes) } :: after)) := by
  have hparts := readsAs_of_readSegments (read_eq_ok.mp h)
  simp only [read_eq_ok, pieces_reindexed]
  constructor
  · intro read hread
    exact limits_of_readSegments_modify hparts hne hread
  · intro hlimits
    exact exists_readSegments (readsAs_modify hparts hne hlimits)

end Path
end VideoConfig
