import Mathlib.Order.Bounds.Basic
import VideoConfig.Layout

/-!
# Alignments

Every alignment is the size of a scalar or the largest of such sizes. There are four
of them, and of any two the smaller divides the larger.
-/

namespace VideoConfig
namespace Layout

def IsAlignment (align : Nat) : Prop :=
  align = 1 ∨ align = 2 ∨ align = 4 ∨ align = 8

namespace IsAlignment

theorem pos {align : Nat} (h : IsAlignment align) : 0 < align := by
  unfold IsAlignment at h
  omega

theorem max {first second : Nat} (hfirst : IsAlignment first)
    (hsecond : IsAlignment second) : IsAlignment (Max.max first second) := by
  rcases Nat.le_total first second with hle | hle
  · rw [Nat.max_eq_right hle]
    exact hsecond
  · rw [Nat.max_eq_left hle]
    exact hfirst

theorem dvd_of_le {small large : Nat} (hsmall : IsAlignment small)
    (hlarge : IsAlignment large) (hle : small ≤ large) : small ∣ large := by
  unfold IsAlignment at hsmall hlarge
  rcases hsmall with rfl | rfl | rfl | rfl <;>
    rcases hlarge with rfl | rfl | rfl | rfl <;>
    omega

end IsAlignment

theorem isAlignment_size (scalar : Scalar) : IsAlignment scalar.size := by
  unfold IsAlignment
  cases scalar with
  | int kind =>
      rcases kind with ⟨signed, width⟩
      cases width <;> simp [Scalar.size, Width.bytes]
  | float format =>
      cases format <;> simp [Scalar.size, Floating.Format.size]
  | char =>
      simp [Scalar.size]

/-!
## The next aligned offset

No multiple of the alignment stands between an offset and the aligned one, and an offset
that is moved by a multiple moves the aligned one along.
-/

theorem dvd_alignUp (offset align : Nat) : align ∣ alignUp offset align :=
  Nat.dvd_mul_left align _

theorem le_alignUp {align : Nat} (offset : Nat) (hpos : 0 < align) :
    offset ≤ alignUp offset align := by
  have hdiv : offset + align - 1 < align * ((offset + align - 1) / align + 1) :=
    Nat.lt_mul_div_succ (offset + align - 1) hpos
  unfold alignUp
  rw [Nat.mul_comm]
  rw [Nat.mul_succ] at hdiv
  omega

theorem alignUp_le {offset align bound : Nat} (hle : offset ≤ bound)
    (hdvd : align ∣ bound) : alignUp offset align ≤ bound := by
  rcases hdvd with ⟨count, rfl⟩
  unfold alignUp
  rcases Nat.eq_zero_or_pos align with rfl | hpos
  · simp
  · have hlt : (offset + align - 1) / align < count + 1 := by
      apply Nat.div_lt_of_lt_mul
      rw [Nat.mul_succ]
      omega
    rw [Nat.mul_comm align count]
    exact Nat.mul_le_mul_right align (Nat.le_of_lt_succ hlt)

theorem isLeast_alignUp {align : Nat} (offset : Nat) (hpos : 0 < align) :
    IsLeast {next | offset ≤ next ∧ align ∣ next} (alignUp offset align) := by
  constructor
  · exact ⟨le_alignUp offset hpos, dvd_alignUp offset align⟩
  · rintro next ⟨hle, hdvd⟩
    exact alignUp_le hle hdvd

theorem alignUp_add {shift align : Nat} (offset : Nat) (hdvd : align ∣ shift) :
    alignUp (shift + offset) align = shift + alignUp offset align := by
  rcases hdvd with ⟨count, rfl⟩
  unfold alignUp
  rcases Nat.eq_zero_or_pos align with rfl | hpos
  · simp
  · have hsum : align * count + offset + align - 1 = offset + align - 1 + align * count := by
      omega
    rw [hsum, Nat.add_mul_div_left _ _ hpos, Nat.add_mul, Nat.mul_comm count align,
      Nat.add_comm]

end Layout
end VideoConfig
