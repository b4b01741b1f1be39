import VideoConfig.Proofs.Outcome
import VideoConfig.Proofs.Path.Defects
import VideoConfig.Proofs.Path.Indexing

/-!
# Parts of a path

A path is read part by part, and what a part comes to depends on its characters alone.
Without the ranges of its segments and the causes of refusals, the path that a text is read
as is the list of what its parts are read as. So texts that agree in a part agree there
in what is read.
-/

namespace VideoConfig

def Segment.unplaced (segment : Segment) : Segment :=
  { segment with span := { offset := 0, length := 0 } }

def Segment.plain (name : List Char) (index : Option Index) : Segment :=
  { name := String.ofList name, index, span := { offset := 0, length := 0 } }

namespace Text

theorem intercalate_append (separator : Char) (before : List (List Char))
    (last next : List Char) (rest : List (List Char)) :
    [separator].intercalate (before ++ [last]) ++ [separator].intercalate (next :: rest) =
      [separator].intercalate (before ++ (last ++ next) :: rest) := by
  induction before with
  | nil =>
      cases rest <;> simp [List.intercalate_cons_cons]
  | cons first before ih =>
      rcases List.exists_cons_of_ne_nil (List.append_ne_nil_of_right_ne_nil before
        (List.cons_ne_nil last [])) with ⟨second, others, hsplit⟩
      rcases List.exists_cons_of_ne_nil (List.append_ne_nil_of_right_ne_nil before
        (List.cons_ne_nil (last ++ next) rest)) with ⟨second', others', hsplit'⟩
      rw [hsplit, hsplit'] at ih
      rw [List.cons_append, List.cons_append, hsplit, hsplit', List.intercalate_cons_cons,
        List.intercalate_cons_cons, ← ih, List.append_assoc, List.append_assoc]

theorem pieces_append {separator : Char} {text other last next : List Char}
    {before rest : List (List Char)} (h : pieces separator text = before ++ [last])
    (h' : pieces separator other = next :: rest) :
    pieces separator (text ++ other) = before ++ (last ++ next) :: rest := by
  have hparts : forall part, part ∈ before ++ [last] -> separator ∉ part := by
    rw [← h]
    exact fun part => not_mem_of_mem_pieces
  have hparts' : forall part, part ∈ next :: rest -> separator ∉ part := by
    rw [← h']
    exact fun part => not_mem_of_mem_pieces
  rw [← intercalate_pieces separator text, ← intercalate_pieces separator other, h, h',
    intercalate_append]
  refine pieces_intercalate (by simp) ?_
  intro part hpart
  rcases List.mem_append.mp hpart with hpart | hpart
  · exact hparts part (List.mem_append_left _ hpart)
  · rcases List.mem_cons.mp hpart with rfl | hpart
    · rw [List.mem_append, not_or]
      exact ⟨hparts last (by simp), hparts' next List.mem_cons_self⟩
    · exact hparts' part (List.mem_cons_of_mem _ hpart)

end Text

namespace Path

/-!
## What a part comes to

The outcome of a part that opens with a name is that of the brackets behind it, wherever the
part stands.
-/

def readSuffix (suffix : List Char) : Attempt Unit (Option Index) := do
  let found ← outcome (readBrackets 0 .outside suffix)
  match combine? found with
  | some index => return index
  | none => throw (.refused ())

def readPart (part : List Char) : Attempt Unit Segment :=
  (outcome (readSegment 0 part)).map Segment.unplaced

theorem readBrackets_ne_abandoned (position : Nat) (text : List Char) :
    readBrackets position .outside text ≠ .error .abandoned := by
  intro h
  rcases readBrackets_told h with ⟨error, hrefused, _⟩
  cases hrefused

theorem outcome_readBrackets (position : Nat) (text : List Char) :
    outcome (readBrackets position .outside text) =
      outcome (readBrackets 0 .outside text) := by
  refine outcome_congr ?_ ?_
  · intro found
    constructor
    · exact readBrackets_shift 0
    · exact readBrackets_shift position
  · constructor
    · intro h
      exact absurd h (readBrackets_ne_abandoned _ _)
    · intro h
      exact absurd h (readBrackets_ne_abandoned _ _)

theorem outcome_readSegment_name {name suffix : List Char} (hname : isName name = true)
    (hsuffix : suffix.head?.any isNameChar = false) (offset : Nat) :
    (outcome (readSegment offset (name ++ suffix))).map Segment.unplaced =
      (readSuffix suffix).map (Segment.plain name) := by
  have htake := takeWhile_name hname hsuffix
  have hdrop := dropWhile_name hname hsuffix
  cases name with
  | nil =>
      cases hname
  | cons c rest =>
      rw [List.cons_append] at htake hdrop ⊢
      unfold readSegment readSuffix
      dsimp only
      rw [(isName_cons.mp hname).left, htake, hdrop]
      simp only [Bool.not_true, Bool.false_eq_true, if_false]
      rw [outcome_bind, outcome_readBrackets]
      cases outcome (readBrackets 0 .outside suffix) with
      | error failure =>
          rfl
      | ok found =>
          simp only [bind, Except.bind]
          cases combine? found <;> rfl

theorem readPart_name {name suffix : List Char} (hname : isName name = true)
    (hsuffix : suffix.head?.any isNameChar = false) :
    readPart (name ++ suffix) = (readSuffix suffix).map (Segment.plain name) :=
  outcome_readSegment_name hname hsuffix 0

theorem head?_dropWhile (part : List Char) :
    (part.dropWhile isNameChar).head?.any isNameChar = false := by
  induction part with
  | nil =>
      rfl
  | cons c rest ih =>
      rw [List.dropWhile_cons]
      split
      · exact ih
      · next hc =>
          simpa using hc

theorem outcome_readSegment (offset : Nat) (part : List Char) :
    (outcome (readSegment offset part)).map Segment.unplaced = readPart part := by
  cases part with
  | nil =>
      rfl
  | cons c rest =>
      cases hstart : isNameStart c with
      | false =>
          unfold readPart readSegment
          dsimp only
          rw [hstart]
          simp only [Bool.not_false, if_true]
          split <;> rfl
      | true =>
          have hname : isName ((c :: rest).takeWhile isNameChar) = true :=
            isName_takeWhile hstart
          rw [← List.takeWhile_append_dropWhile (p := isNameChar) (l := c :: rest),
            outcome_readSegment_name hname (head?_dropWhile _),
            readPart_name hname (head?_dropWhile _)]

theorem outcome_readSegments (offset : Nat) (parts : List (List Char)) :
    (outcome (readSegments offset parts)).map (List.map Segment.unplaced) =
      parts.mapM readPart := by
  induction parts generalizing offset with
  | nil =>
      rfl
  | cons part rest ih =>
      rw [List.mapM_cons, ← ih (offset + Text.byteLength part + 1), ← outcome_readSegment offset,
        readSegments, outcome_bind]
      cases outcome (readSegment offset part) with
      | error failure =>
          rfl
      | ok segment =>
          simp only [bind, Except.bind, Except.map]
          rcases readSegments (offset + Text.byteLength part + 1) rest with (_ | _) | _ <;> rfl

theorem outcome_read (text : String) :
    (outcome (Path.read text)).map (List.map Segment.unplaced) =
      (Text.pieces '.' text.toList).mapM readPart := by
  unfold Path.read ofChars
  split
  · next hnil =>
      rw [hnil]
      rfl
  · exact outcome_readSegments 0 _

/-!
## Parts without index

Only a part without brackets is read as a segment without index, so a text ends in a name if
its path ends in such a segment.
-/

theorem Written.eq_name {part : List Char} {name : String} (h : Written part name none) :
    part = name.toList ∧ isName part = true := by
  cases h with
  | bare hname =>
      exact ⟨rfl, hname⟩

theorem eq_name_of_readSegment {offset : Nat} {part : List Char} {segment : Segment}
    (h : readSegment offset part = .ok segment) (hindex : segment.index = none) :
    part = segment.name.toList ∧ isName part = true := by
  have hwritten := (readSegment_eq_ok_iff_written.mp h).left
  rw [hindex] at hwritten
  exact hwritten.eq_name

theorem readPart_bare {name : List Char} (hname : isName name = true) :
    readPart name = .ok (Segment.plain name none) := by
  have h : readPart (name ++ []) = (readSuffix []).map (Segment.plain name) :=
    readPart_name hname rfl
  rw [List.append_nil] at h
  exact h

theorem eq_name_of_readPart {part : List Char} {segment : Segment}
    (h : readPart part = .ok segment) (hindex : segment.index = none) :
    part = segment.name.toList ∧ isName part = true := by
  rcases map_eq_ok.mp h with ⟨read, hread, rfl⟩
  have hname := eq_name_of_readSegment (outcome_eq_ok.mp hread) hindex
  exact hname

theorem ne_nil_of_mapM_readPart {parts : List (List Char)} {path : Path}
    (h : parts.mapM readPart = .ok path) (hne : parts ≠ []) : path ≠ [] := by
  rintro rfl
  exact hne (List.forall₂_nil_right_iff.mp (mapM_eq_ok_iff.mp h))

theorem mapM_readPart_of_read {text : String} {path : Path} (h : Path.read text = .ok path) :
    (Text.pieces '.' text.toList).mapM readPart = .ok (path.map Segment.unplaced) := by
  rw [← outcome_read, h]
  rfl

theorem read_ne_nil {text : String} {path : Path} (h : Path.read text = .ok path) :
    path ≠ [] := by
  have hne := ne_nil_of_mapM_readPart (mapM_readPart_of_read h) (Text.pieces_ne_nil _ _)
  exact fun hnil => hne (congrArg (List.map Segment.unplaced) hnil)

theorem mapM_readPart_append {first second : List (List Char)} {path : Path} :
    (first ++ second).mapM readPart = .ok path <->
      exists before after, first.mapM readPart = .ok before ∧
        second.mapM readPart = .ok after ∧ path = before ++ after := by
  rw [List.mapM_append]
  constructor
  · intro h
    rcases bind_eq_ok.mp h with ⟨before, hbefore, h⟩
    rcases bind_eq_ok.mp h with ⟨after, hafter, hpure⟩
    exact ⟨before, after, hbefore, hafter, (pure_eq_ok.mp hpure).symm⟩
  · rintro ⟨before, after, hbefore, hafter, rfl⟩
    exact bind_eq_ok.mpr ⟨before, hbefore, bind_eq_ok.mpr ⟨after, hafter, rfl⟩⟩

theorem exists_parts_of_read {text : String} {before : Path} {last : Segment}
    (h : Path.read text = .ok (before ++ [last])) (hindex : last.index = none) :
    exists names, Text.pieces '.' text.toList = names ++ [last.name.toList] ∧
      names.mapM readPart = .ok (before.map Segment.unplaced) ∧
      isName last.name.toList = true := by
  have hread := mapM_readPart_of_read h
  rcases List.eq_nil_or_concat (Text.pieces '.' text.toList) with hnil | ⟨names, part, hparts⟩
  · exact absurd hnil (Text.pieces_ne_nil _ _)
  · rw [List.concat_eq_append] at hparts
    rw [hparts] at hread ⊢
    rcases mapM_readPart_append.mp hread with ⟨front, back, hfront, hback, hsplit⟩
    rw [List.mapM_cons] at hback
    rcases bind_eq_ok.mp hback with ⟨segment, hsegment, hback⟩
    cases hback
    rw [List.map_append, List.map_singleton] at hsplit
    rcases List.append_inj' hsplit rfl with ⟨rfl, hlast⟩
    cases hlast
    rcases eq_name_of_readPart hsegment hindex with ⟨hpart, hname⟩
    rw [hpart] at hname ⊢
    exact ⟨names, rfl, hfront, hname⟩

end Path
end VideoConfig
