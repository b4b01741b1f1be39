import VideoConfig.Path.Reader
import VideoConfig.Proofs.Attempt
import VideoConfig.Proofs.Text.Pieces

/-!
# Scanning the text of a path

A text is cut at its points into parts, and joined again from them. In a part the characters of
a name are taken first, and behind them brackets one by one. What is found between the brackets
makes an index if it is nothing, one empty pair, or numbers.
-/

namespace VideoConfig

namespace Path

/-!
## Names
-/

def isName (text : List Char) : Bool :=
  text.head?.any isNameStart && text.all isNameChar

theorem isNameChar_of_isNameStart {c : Char} (h : isNameStart c = true) :
    isNameChar c = true := by
  unfold isNameStart at h
  unfold isNameChar Char.isAlphanum
  rw [Bool.or_eq_true] at h ⊢
  rcases h with halpha | hunderscore
  · rw [halpha]
    exact Or.inl rfl
  · exact Or.inr hunderscore

theorem isName_cons {c : Char} {rest : List Char} :
    isName (c :: rest) = true <->
      isNameStart c = true ∧ forall d, d ∈ rest -> isNameChar d = true := by
  constructor
  · intro h
    simp only [isName, List.head?_cons, Option.any_some, List.all_cons, Bool.and_eq_true,
      List.all_eq_true] at h
    exact ⟨h.left, h.right.right⟩
  · rintro ⟨hstart, hrest⟩
    simp only [isName, List.head?_cons, Option.any_some, List.all_cons, Bool.and_eq_true,
      List.all_eq_true]
    exact ⟨hstart, isNameChar_of_isNameStart hstart, hrest⟩

theorem isNameChar_of_isName {text : List Char} (h : isName text = true) {c : Char}
    (hc : c ∈ text) : isNameChar c = true := by
  unfold isName at h
  rw [Bool.and_eq_true] at h
  exact List.all_eq_true.mp h.right c hc

theorem head?_of_isName {name : List Char} (h : isName name = true) (rest : List Char) :
    (name ++ rest).head?.any isNameStart = true := by
  cases name with
  | nil =>
      cases h
  | cons c name =>
      exact (isName_cons.mp h).left

theorem isName_takeWhile {text : List Char} (h : text.head?.any isNameStart = true) :
    isName (text.takeWhile isNameChar) = true := by
  cases text with
  | nil =>
      cases h
  | cons c rest =>
      have hc : isNameStart c = true := h
      rw [List.takeWhile_cons_of_pos (isNameChar_of_isNameStart hc)]
      exact isName_cons.mpr ⟨hc, List.all_eq_true.mp List.all_takeWhile⟩

theorem takeWhile_name {name rest : List Char} (hname : isName name = true)
    (hrest : rest.head?.any isNameChar = false) :
    (name ++ rest).takeWhile isNameChar = name := by
  rw [List.takeWhile_append_of_pos fun c hc => isNameChar_of_isName hname hc]
  cases rest with
  | nil =>
      simp
  | cons c rest =>
      rw [List.takeWhile_cons_of_neg (by simpa using hrest), List.append_nil]

theorem dropWhile_name {name rest : List Char} (hname : isName name = true)
    (hrest : rest.head?.any isNameChar = false) :
    (name ++ rest).dropWhile isNameChar = rest := by
  rw [List.dropWhile_append_of_pos fun c hc => isNameChar_of_isName hname hc]
  cases rest with
  | nil =>
      rfl
  | cons c rest =>
      rw [List.dropWhile_cons_of_neg (by simpa using hrest)]

/-!
## Brackets

They make an index if there are none, if there is one empty pair, or if every pair holds a
number.
-/

theorem readBrackets_inside {position start : Nat} {read inner rest : List Char}
    (h : ']' ∉ inner) :
    readBrackets position (.inside start read) (inner ++ ']' :: rest) = do
      let index ← readIndex start (read.reverse ++ inner)
      let others ← readBrackets (position + Text.byteLength inner + 1) .outside rest
      return index :: others := by
  induction inner generalizing position read with
  | nil =>
      simp [readBrackets]
  | cons c inner ih =>
      rw [List.mem_cons, not_or] at h
      rw [List.cons_append, readBrackets, if_neg (Ne.symm h.left), ih h.right]
      simp [Nat.add_assoc]

theorem mapM_id_eq_some {options : List (Option Nat)} {indexes : List Nat} :
    options.mapM id = some indexes <-> options = indexes.map some := by
  induction options generalizing indexes with
  | nil =>
      cases indexes <;> simp
  | cons option rest ih =>
      rw [List.mapM_cons]
      simp only [Option.bind_eq_bind, Option.bind_eq_some_iff, id_eq]
      constructor
      · rintro ⟨i, rfl, others, hothers, hpure⟩
        cases hpure
        rw [ih.mp hothers]
        rfl
      · intro h
        cases indexes with
        | nil =>
            cases h
        | cons i others =>
            rw [List.map_cons, List.cons.injEq] at h
            exact ⟨i, h.left, others, ih.mpr h.right, rfl⟩

theorem combine?_eq_some {brackets : List (Option Nat)} {index : Option Index} :
    combine? brackets = some index <->
      brackets = [] ∧ index = none ∨ brackets = [none] ∧ index = some .all ∨
        exists indexes, indexes ≠ [] ∧ brackets = indexes.map some ∧
          index = some (.element indexes) := by
  unfold combine?
  split
  · constructor
    · intro h
      cases h
      exact Or.inl ⟨rfl, rfl⟩
    · rintro (⟨_, rfl⟩ | ⟨h, _⟩ | ⟨indexes, hne, h, _⟩)
      · rfl
      · cases h
      · exact absurd (List.map_eq_nil_iff.mp h.symm) hne
  · constructor
    · intro h
      cases h
      exact Or.inr (Or.inl ⟨rfl, rfl⟩)
    · rintro (⟨h, _⟩ | ⟨_, rfl⟩ | ⟨indexes, _, h, _⟩)
      · cases h
      · rfl
      · cases indexes with
        | nil =>
            cases h
        | cons i rest =>
            rw [List.map_cons, List.cons.injEq] at h
            cases h.left
  · next hnil hnone =>
      rw [Option.map_eq_some_iff]
      constructor
      · rintro ⟨indexes, hindexes, rfl⟩
        have hbrackets := mapM_id_eq_some.mp hindexes
        refine Or.inr (Or.inr ⟨indexes, ?_, hbrackets, rfl⟩)
        rintro rfl
        exact hnil hbrackets
      · rintro (⟨h, _⟩ | ⟨h, _⟩ | ⟨indexes, _, h, rfl⟩)
        · exact absurd h hnil
        · exact absurd h hnone
        · exact ⟨indexes, mapM_id_eq_some.mpr h, rfl⟩

/-!
## Parts and texts
-/

theorem readSegment_eq_ok {offset : Nat} {text : List Char} {segment : Segment} :
    readSegment offset text = .ok segment <->
      text.head?.any isNameStart = true ∧
        exists found index,
          readBrackets (offset + (text.takeWhile isNameChar).length) .outside
            (text.dropWhile isNameChar) = .ok found ∧
          combine? found = some index ∧
          segment = {
            name := String.ofList (text.takeWhile isNameChar), index
            span := { offset, length := Text.byteLength text } } := by
  cases text with
  | nil =>
      simp [readSegment, refuse]
  | cons c rest =>
      unfold readSegment
      rw [List.head?_cons, Option.any_some]
      dsimp only
      cases hstart : isNameStart c with
      | false =>
          simp only [Bool.not_false, if_true, Bool.false_eq_true, false_and, iff_false]
          split
          · intro h
            cases h
          · intro h
            cases h
      | true =>
          simp only [Bool.not_true, Bool.false_eq_true, if_false, true_and]
          rw [bind_eq_ok]
          constructor
          · rintro ⟨found, hfound, h⟩
            split at h
            · next index hindex =>
                exact ⟨found, index, hfound, hindex, (pure_eq_ok.mp h).symm⟩
            · cases h
          · rintro ⟨found, index, hfound, hindex, rfl⟩
            refine ⟨found, hfound, ?_⟩
            rw [hindex]
            rfl

theorem read_eq_ok {text : String} {path : Path} :
    Path.read text = .ok path <-> readSegments 0 (Text.pieces '.' text.toList) = .ok path := by
  unfold Path.read ofChars
  split
  · next hnil =>
      rw [hnil]
      constructor <;> intro h <;> cases h
  · exact Iff.rfl

end Path
end VideoConfig
