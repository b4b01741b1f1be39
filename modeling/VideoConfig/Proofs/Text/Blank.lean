import VideoConfig.Text.Blank

/-!
# Texts without their outer blanks

Trimming takes blanks from both ends of a text and nothing else, so characters that are not
blank stay, and a text without blanks is as before.
-/

namespace VideoConfig
namespace Text

theorem not_blank_of_isDigit {c : Char} (h : c.isDigit = true) : isBlank c = false := by
  have hrange : 48 ≤ c.toNat ∧ c.toNat ≤ 57 := Char.isDigit_iff_toNat.mp h
  rw [Bool.eq_false_iff]
  intro hblank
  simp [isBlank, blankRanges] at hblank
  omega

theorem trimStart_of_not_blank {text : List Char} (h : forall c, c ∈ text -> isBlank c = false) :
    trimStart text = text := by
  cases text with
  | nil =>
      rfl
  | cons c rest =>
      exact List.dropWhile_cons_of_neg (by rw [h c List.mem_cons_self]; decide)

theorem trim_of_not_blank {text : List Char} (h : forall c, c ∈ text -> isBlank c = false) :
    trim text = text := by
  have hreverse : trimStart text.reverse = text.reverse :=
    trimStart_of_not_blank fun c hc => h c (List.mem_reverse.mp hc)
  unfold trim trimEnd
  rw [trimStart_of_not_blank h]
  unfold trimStart at hreverse
  rw [hreverse, List.reverse_reverse]

theorem mem_trimStart {text : List Char} {c : Char} (hc : c ∈ text) (h : isBlank c = false) :
    c ∈ trimStart text := by
  rw [← List.takeWhile_append_dropWhile (p := isBlank) (l := text)] at hc
  rcases List.mem_append.mp hc with hfront | hrest
  · rw [List.all_eq_true.mp List.all_takeWhile c hfront] at h
    cases h
  · exact hrest

theorem mem_trim {text : List Char} {c : Char} (hc : c ∈ text) (h : isBlank c = false) :
    c ∈ trim text := by
  have hstart : c ∈ (trimStart text).reverse := List.mem_reverse.mpr (mem_trimStart hc h)
  exact List.mem_reverse.mpr (mem_trimStart hstart h)

theorem exists_not_blank {text : List Char} (h : trimStart text ≠ []) :
    exists c, c ∈ text ∧ isBlank c = false := by
  induction text with
  | nil =>
      exact absurd rfl h
  | cons c rest ih =>
      cases hc : isBlank c with
      | false =>
          exact ⟨c, List.mem_cons_self, hc⟩
      | true =>
          rw [trimStart, List.dropWhile_cons_of_pos hc] at h
          rcases ih h with ⟨d, hd, hnot⟩
          exact ⟨d, List.mem_cons_of_mem c hd, hnot⟩

end Text
end VideoConfig
