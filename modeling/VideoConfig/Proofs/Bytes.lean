import VideoConfig.Bytes

/-!
# Parts of a buffer

Overwriting a range changes the bytes of that range and no others, so a slice of the same
range is what was written, and a slice of a range beside it is what was there before.
-/

namespace VideoConfig
namespace Bytes

def AgreeOn (first second : Bytes) (offset size : Nat) : Prop :=
  forall k, offset ≤ k -> k < offset + size -> first[k]? = second[k]?

theorem slice?_eq_some {buffer part : Bytes} {offset size : Nat} :
    buffer.slice? offset size = some part <->
      offset + size ≤ buffer.length ∧ (buffer.drop offset).take size = part := by
  unfold slice?
  split
  · next hfits =>
      simp [hfits]
  · next hfits =>
      simp [hfits]

theorem length_of_slice? {buffer part : Bytes} {offset size : Nat}
    (h : buffer.slice? offset size = some part) : part.length = size := by
  rcases slice?_eq_some.mp h with ⟨hle, rfl⟩
  simp only [List.length_take, List.length_drop]
  omega

theorem exists_slice? {buffer : Bytes} {offset size : Nat}
    (h : offset + size ≤ buffer.length) :
    exists part, buffer.slice? offset size = some part ∧ part.length = size := by
  have hslice : buffer.slice? offset size = some ((buffer.drop offset).take size) :=
    slice?_eq_some.mpr ⟨h, rfl⟩
  exact ⟨_, hslice, length_of_slice? hslice⟩

theorem slice?_congr {first second : Bytes} {offset size : Nat}
    (hlength : first.length = second.length) (h : AgreeOn first second offset size) :
    first.slice? offset size = second.slice? offset size := by
  unfold slice?
  rw [hlength]
  have hparts : (first.drop offset).take size = (second.drop offset).take size := by
    refine List.ext_getElem? ?_
    intro k
    rw [List.getElem?_take, List.getElem?_take]
    split
    · next hk =>
        rw [List.getElem?_drop, List.getElem?_drop]
        exact h (offset + k) (Nat.le_add_right _ _) (by omega)
    · rfl
  rw [hparts]

theorem getElem?_overwrite_of_outside {buffer data : Bytes} {offset k : Nat}
    (h : k < offset ∨ offset + data.length ≤ k) :
    (buffer.overwrite offset data)[k]? = buffer[k]? := by
  unfold overwrite
  split
  · next hfits =>
      have htake : (buffer.take offset).length = offset := by
        rw [List.length_take]
        omega
      rcases h with hbefore | hbehind
      · rw [List.getElem?_append_left (by omega), List.getElem?_take, if_pos hbefore]
      · rw [List.getElem?_append_right (by omega), htake,
          List.getElem?_append_right (by omega), List.getElem?_drop]
        congr 1
        omega
  · rfl

theorem slice?_overwrite_same {buffer data : Bytes} {offset : Nat}
    (h : offset + data.length ≤ buffer.length) :
    (buffer.overwrite offset data).slice? offset data.length = some data := by
  refine slice?_eq_some.mpr ⟨by rwa [length_overwrite], ?_⟩
  have htake : (buffer.take offset).length = offset := by
    rw [List.length_take]
    omega
  rw [overwrite, if_pos h, List.drop_append, htake, List.drop_of_length_le (by omega),
    Nat.sub_self, List.drop_zero, List.nil_append, List.take_left']
  rfl

theorem take_overwrite_zero {buffer data : Bytes} (h : data.length ≤ buffer.length) :
    (buffer.overwrite 0 data).take data.length = data := by
  have hslice : (buffer.overwrite 0 data).slice? 0 data.length = some data :=
    slice?_overwrite_same (by simpa using h)
  simpa using (slice?_eq_some.mp hslice).right

theorem take_congr {first second : Bytes} {size : Nat} (h : AgreeOn first second 0 size) :
    first.take size = second.take size := by
  refine List.ext_getElem? ?_
  intro k
  rw [List.getElem?_take, List.getElem?_take]
  split
  · next hk =>
      exact h k (Nat.zero_le k) (by omega)
  · rfl

theorem overwrite_slice {buffer part : Bytes} {offset size : Nat}
    (h : buffer.slice? offset size = some part) : buffer.overwrite offset part = buffer := by
  have hsize := length_of_slice? h
  rcases slice?_eq_some.mp h with ⟨hfits, hpart⟩
  rw [overwrite, hsize, if_pos hfits, ← hpart, ← List.drop_drop, List.take_append_drop,
    List.take_append_drop]

theorem ofNat_toNat (bytes : Bytes) : ofNat bytes.length bytes.toNat = bytes := by
  induction bytes with
  | nil =>
      rfl
  | cons b rest ih =>
      have hb : b.toNat < 256 := b.toNat_lt
      have hlow : (b.toNat + 256 * toNat rest) % 256 = b.toNat := by omega
      have hhigh : (b.toNat + 256 * toNat rest) / 256 = toNat rest := by omega
      rw [List.length_cons, toNat, ofNat, hlow, hhigh, ih, UInt8.ofNat_toNat]

end Bytes
end VideoConfig
