import VideoConfig.Text.Pieces

/-!
# Texts cut at separators

A text is cut at a character into the parts that lie between its occurrences, and joined again
from them. Parts without the separator are what a text joined from them is cut into.
-/

namespace VideoConfig
namespace Text

theorem pieces_of_not_mem {separator : Char} {text : List Char} (h : separator ∉ text) :
    pieces separator text = [text] := by
  induction text with
  | nil =>
      rfl
  | cons c rest ih =>
      rw [List.mem_cons, not_or] at h
      unfold pieces
      rw [if_neg (Ne.symm h.left), ih h.right]

theorem pieces_append_cons (separator : Char) (text rest : List Char) :
    pieces separator (text ++ separator :: rest) =
      pieces separator text ++ pieces separator rest := by
  induction text with
  | nil =>
      simp [pieces]
  | cons c text ih =>
      rw [List.cons_append, pieces, pieces, ih]
      split
      · rfl
      · cases hpieces : pieces separator text with
        | nil =>
            exact absurd hpieces (pieces_ne_nil separator text)
        | cons first others =>
            rfl

theorem pieces_intercalate {separator : Char} {parts : List (List Char)} (hne : parts ≠ [])
    (h : forall part, part ∈ parts -> separator ∉ part) :
    pieces separator ([separator].intercalate parts) = parts := by
  induction parts with
  | nil =>
      exact absurd rfl hne
  | cons first rest ih =>
      have hfirst := pieces_of_not_mem (h first List.mem_cons_self)
      cases rest with
      | nil =>
          rw [List.intercalate_singleton]
          exact hfirst
      | cons second others =>
          rw [List.intercalate_cons_cons, List.append_assoc, List.singleton_append,
            pieces_append_cons, hfirst]
          rw [ih (List.cons_ne_nil _ _) fun part hpart => h part (List.mem_cons_of_mem _ hpart)]
          rfl

theorem not_mem_of_mem_pieces {separator : Char} {text part : List Char}
    (h : part ∈ pieces separator text) : separator ∉ part := by
  induction text generalizing part with
  | nil =>
      rw [List.mem_singleton.mp h]
      exact List.not_mem_nil
  | cons c rest ih =>
      unfold pieces at h
      split at h
      · rcases List.mem_cons.mp h with rfl | h
        · exact List.not_mem_nil
        · exact ih h
      · next hne =>
          split at h
          · next hpieces =>
              exact absurd hpieces (pieces_ne_nil separator rest)
          · next first others hpieces =>
              rw [hpieces] at ih
              rcases List.mem_cons.mp h with rfl | h
              · rw [List.mem_cons, not_or]
                exact ⟨Ne.symm hne, ih List.mem_cons_self⟩
              · exact ih (List.mem_cons_of_mem _ h)

theorem intercalate_pieces (separator : Char) (text : List Char) :
    [separator].intercalate (pieces separator text) = text := by
  induction text with
  | nil =>
      rfl
  | cons c rest ih =>
      rcases List.exists_cons_of_ne_nil (pieces_ne_nil separator rest) with
        ⟨first, others, hpieces⟩
      rw [hpieces] at ih
      unfold pieces
      split
      · next heq =>
          rw [hpieces, List.intercalate_cons_cons, ih, heq]
          rfl
      · rw [hpieces]
        dsimp only
        cases others with
        | nil =>
            rw [List.intercalate_singleton] at ih ⊢
            rw [ih]
        | cons second others =>
            rw [List.intercalate_cons_cons] at ih ⊢
            rw [← ih]
            rfl

theorem pieces_modify {separator : Char} {change : List Char -> List Char}
    (h : forall part, separator ∉ part -> separator ∉ change part) (text : List Char)
    (position : Nat) :
    pieces separator ([separator].intercalate ((pieces separator text).modify position change)) =
      (pieces separator text).modify position change := by
  refine pieces_intercalate ?_ ?_
  · rw [ne_eq, List.modify_eq_nil_iff]
    exact pieces_ne_nil _ _
  · intro part hpart
    rcases List.mem_iff_getElem?.mp hpart with ⟨i, hi⟩
    rw [List.getElem?_modify] at hi
    rcases Option.map_eq_some_iff.mp hi with ⟨original, horiginal, hsame⟩
    have hmem := not_mem_of_mem_pieces (List.mem_of_getElem? horiginal)
    split at hsame
    · rw [← hsame]
      exact h original hmem
    · rw [← hsame]
      exact hmem

/-!
## Joined parts

Groups of parts that are joined one by one and then with each other are the parts of all
groups, joined.
-/

theorem intercalate_append_of_ne_nil (separator : List Char) {first second : List (List Char)}
    (hfirst : first ≠ []) (hsecond : second ≠ []) :
    separator.intercalate (first ++ second) =
      separator.intercalate first ++ separator ++ separator.intercalate second := by
  induction first with
  | nil =>
      exact absurd rfl hfirst
  | cons part rest ih =>
      cases rest with
      | nil =>
          rcases List.exists_cons_of_ne_nil hsecond with ⟨next, others, rfl⟩
          rw [List.singleton_append, List.intercalate_cons_cons, List.intercalate_singleton]
      | cons next others =>
          rw [List.cons_append, List.cons_append, List.intercalate_cons_cons,
            List.intercalate_cons_cons, ← List.cons_append, ih (List.cons_ne_nil _ _)]
          simp only [List.append_assoc]

theorem intercalate_flatten (separator : List Char) {groups : List (List (List Char))}
    (h : forall group, group ∈ groups -> group ≠ []) :
    separator.intercalate groups.flatten =
      separator.intercalate (groups.map separator.intercalate) := by
  induction groups with
  | nil =>
      rfl
  | cons group rest ih =>
      have hrest := ih fun other hother => h other (List.mem_cons_of_mem group hother)
      cases rest with
      | nil =>
          rw [List.flatten_singleton, List.map_singleton, List.intercalate_singleton]
      | cons next others =>
          have hbehind : (next :: others).flatten ≠ [] := by
            rw [List.flatten_cons]
            exact List.append_ne_nil_of_left_ne_nil
              (h next (List.mem_cons_of_mem group List.mem_cons_self)) _
          rw [List.flatten_cons,
            intercalate_append_of_ne_nil separator (h group List.mem_cons_self) hbehind,
            hrest, List.map_cons, List.map_cons, List.map_cons, List.intercalate_cons_cons]

end Text
end VideoConfig
