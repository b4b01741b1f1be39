import VideoConfig.Location

/-!
# Regions of a buffer

A path addresses blocks of bytes of one size at equal distances: the elements of a field,
or on the way there the records that hold it. A region is such a row of blocks. To follow a
path is to go to smaller and smaller regions.
-/

namespace VideoConfig

/-!
## Rows of blocks

Block `i` starts `i` strides behind the first one and takes `size` bytes. Regions are spaced
if every block ends before the next one starts, and apart if no block of the one meets a
block of the other; both are kept when regions are refined.
-/

structure Region where
  offset : Nat
  stride : Nat
  count : Nat
  size : Nat
deriving DecidableEq, Repr

namespace Region

def start (region : Region) (i : Nat) : Nat :=
  region.offset + i * region.stride

def stop (region : Region) (i : Nat) : Nat :=
  region.start i + region.size

def Covers (region : Region) (k : Nat) : Prop :=
  exists i, i < region.count ∧ region.start i ≤ k ∧ k < region.stop i

def Spaced (region : Region) : Prop :=
  forall i j, i < j -> j < region.count -> region.stop i ≤ region.start j

/-- The blocks of one region lie in those of another, and are spaced if those are. -/
structure Refines (inner outer : Region) : Prop where
  inside : forall i, i < inner.count -> exists j, j < outer.count ∧
    outer.start j ≤ inner.start i ∧ inner.stop i ≤ outer.stop j
  spaced : outer.Spaced -> inner.Spaced

def Apart (first second : Region) : Prop :=
  forall i j, i < first.count -> j < second.count ->
    first.stop i ≤ second.start j ∨ second.stop j ≤ first.start i

/-- Two blocks of these regions are the same block or do not meet. -/
def Meshes (first second : Region) : Prop :=
  forall i j, i < first.count -> j < second.count ->
    first.start i = second.start j ∨
      first.stop i ≤ second.start j ∨ second.stop j ≤ first.start i

theorem Refines.refl (region : Region) : region.Refines region where
  inside := fun i hi => ⟨i, hi, Nat.le_refl _, Nat.le_refl _⟩
  spaced := fun h => h

theorem Refines.trans {inner middle outer : Region} (hinner : inner.Refines middle)
    (houter : middle.Refines outer) : inner.Refines outer where
  inside := by
    intro i hi
    rcases hinner.inside i hi with ⟨j, hj, hstart, hstop⟩
    rcases houter.inside j hj with ⟨k, hk, hstart', hstop'⟩
    exact ⟨k, hk, Nat.le_trans hstart' hstart, Nat.le_trans hstop hstop'⟩
  spaced := fun h => hinner.spaced (houter.spaced h)

theorem row_stop_le {size i n : Nat} (h : i < n) : size * i + size ≤ size * n := by
  rw [← Nat.mul_succ]
  exact Nat.mul_le_mul_left size h

theorem refines_of_shift {inner outer : Region} (shift : Nat)
    (hoffset : inner.offset = outer.offset + shift) (hstride : inner.stride = outer.stride)
    (hcount : inner.count = outer.count) (hsize : shift + inner.size ≤ outer.size) :
    inner.Refines outer := by
  have hstart : forall i, inner.start i = outer.start i + shift := by
    intro i
    simp only [start, hoffset, hstride]
    omega
  constructor
  · intro i hi
    refine ⟨i, hcount ▸ hi, ?_, ?_⟩
    · rw [hstart i]
      exact Nat.le_add_right _ _
    · simp only [stop, hstart i]
      omega
  · intro hspaced i j hij hj
    have houter := hspaced i j hij (hcount ▸ hj)
    simp only [stop, hstart i, hstart j] at houter ⊢
    omega

theorem refines_of_row {inner outer : Region} (shift : Nat)
    (hoffset : inner.offset = outer.offset + shift) (hstride : inner.stride = inner.size)
    (houter : 0 < outer.count) (hsize : shift + inner.size * inner.count ≤ outer.size) :
    inner.Refines outer := by
  constructor
  · intro i hi
    have hrow : inner.size * i + inner.size ≤ inner.size * inner.count := row_stop_le hi
    refine ⟨0, houter, ?_, ?_⟩
    · simp only [start, hoffset]
      omega
    · simp only [stop, start, hoffset, hstride, Nat.mul_comm i]
      omega
  · intro _ i j hij hj
    have hrow : inner.size * i + inner.size ≤ inner.size * j := row_stop_le hij
    simp only [stop, start, hstride, Nat.mul_comm i, Nat.mul_comm j]
    omega

theorem Apart.refine {first second first' second' : Region} (h : first.Apart second)
    (hfirst : first'.Refines first) (hsecond : second'.Refines second) :
    first'.Apart second' := by
  intro i j hi hj
  rcases hfirst.inside i hi with ⟨i', hi', hstart, hstop⟩
  rcases hsecond.inside j hj with ⟨j', hj', hstart', hstop'⟩
  have hapart := h i' j' hi' hj'
  omega

theorem Apart.not_covers {first second : Region} (h : first.Apart second) {k : Nat}
    (hfirst : first.Covers k) : ¬ second.Covers k := by
  rintro ⟨j, hj, hstart', hstop'⟩
  rcases hfirst with ⟨i, hi, hstart, hstop⟩
  have hapart := h i j hi hj
  omega

end Region

/-!
## Regions of places and locations

The region of a place has the records that stand there, and a part of it the same bytes of
each of them. In the region of a location a text is one block as long as its array.
-/

namespace Location

def Place.region (place : Place) (size : Nat) : Region where
  offset := place.offset
  stride := (place.projection.map Projection.stride).getD 0
  count := (place.projection.map Projection.count).getD 1
  size

def Place.part (place : Place) (shift size : Nat) : Region where
  offset := place.offset + shift
  stride := (place.region size).stride
  count := (place.region size).count
  size

theorem capacity_of_elements {location : Location} (h : location.text = false) :
    location.capacity = location.elementSize := by
  rw [capacity, h]
  rfl

theorem elementSize_le_capacity {location : Location} (h : 0 < location.capacity) :
    location.elementSize ≤ location.capacity := by
  cases htext : location.text with
  | false =>
      exact Nat.le_of_eq (capacity_of_elements htext).symm
  | true =>
      have hcapacity : location.capacity = location.elementSize * location.field.count := by
        rw [capacity, htext]
        rfl
      rw [hcapacity] at h ⊢
      exact Nat.le_mul_of_pos_right _ (Nat.pos_of_mul_pos_left h)

def region (location : Location) : Region where
  offset := location.offset
  stride := location.stride
  count := location.count
  size := location.capacity

end Location
end VideoConfig
