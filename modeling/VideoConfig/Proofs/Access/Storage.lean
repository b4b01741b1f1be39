import VideoConfig.Proofs.Bytes
import VideoConfig.Proofs.Coercion
import VideoConfig.Proofs.Location.Bounds

/-!
# Elements written and read back

A payload is written to the first elements of a location, one after the other. Elements that
do not lie inside of the buffer are passed over; those that do stand in front of them. As the
elements lie apart from each other, each is read back as the value that was written, and no
other byte changes.
-/

namespace VideoConfig
namespace Location

variable {location : Location} {type : RecordType}

/-!
## Elements inside of a buffer

They are the first ones, as many as `fitting` counts: where an element lies inside, so does
every element before it.
-/

def Inside (location : Location) (buffer : Bytes) (i : Nat) : Prop :=
  location.elementOffset i + location.elementSize ≤ buffer.length

instance (location : Location) (buffer : Bytes) (i : Nat) :
    Decidable (location.Inside buffer i) :=
  inferInstanceAs (Decidable (_ ≤ _))

def fitting (location : Location) (buffer : Bytes) : Nat :=
  (List.range location.count).countP fun i => location.Inside buffer i

theorem fitting_le_count (location : Location) (buffer : Bytes) :
    location.fitting buffer ≤ location.count := by
  calc location.fitting buffer
    _ ≤ (List.range location.count).length := List.countP_le_length
    _ = location.count := List.length_range

theorem fitting_congr {first second : Bytes} (h : first.length = second.length) :
    location.fitting first = location.fitting second := by
  unfold fitting
  refine List.countP_congr fun i _ => ?_
  rw [decide_eq_true_eq, decide_eq_true_eq, Inside, Inside, h]

theorem Inside.of_le {buffer : Bytes} {i j : Nat} (h : location.Inside buffer j)
    (hle : i ≤ j) : location.Inside buffer i := by
  have hoffset : i * location.stride ≤ j * location.stride := Nat.mul_le_mul_right _ hle
  unfold Inside elementOffset at h ⊢
  omega

theorem lt_countP_range_iff {p : Nat -> Bool}
    (h : forall i j, p j = true -> i ≤ j -> p i = true) {n i : Nat} (hi : i < n) :
    i < (List.range n).countP p <-> p i = true := by
  induction n with
  | zero =>
      exact absurd hi (Nat.not_lt_zero i)
  | succ n ih =>
      rw [List.range_succ, List.countP_append, List.countP_singleton]
      cases hlast : p n with
      | true =>
          have hall : (List.range n).countP p = n := by
            rw [List.countP_eq_length.mpr, List.length_range]
            intro j hj
            exact h j n hlast (Nat.le_of_lt (List.mem_range.mp hj))
          rw [hall, if_pos rfl]
          exact iff_of_true hi (h i n hlast (Nat.le_of_lt_succ hi))
      | false =>
          rw [if_neg (by decide), Nat.add_zero]
          rcases Nat.lt_succ_iff_lt_or_eq.mp hi with hlt | rfl
          · exact ih hlt
          · have hle : (List.range i).countP p ≤ (List.range i).length := List.countP_le_length
            rw [List.length_range] at hle
            rw [hlast]
            exact iff_of_false (Nat.not_lt.mpr hle) (by decide)

theorem inside_iff_lt_fitting {buffer : Bytes} {i : Nat} (hi : i < location.count) :
    location.Inside buffer i <-> i < location.fitting buffer := by
  have hfirst := lt_countP_range_iff (p := fun i => decide (location.Inside buffer i))
    (fun i j hj hle => by simpa using Inside.of_le (by simpa using hj) hle) hi
  rw [fitting, hfirst, decide_eq_true_eq]

/-!
## Reading elements

What is read depends on the bytes of the location alone: these are the values of the elements
inside of the buffer, and of a text one value.
-/

theorem readElement?_congr {first second : Bytes} {i : Nat}
    (hlength : first.length = second.length)
    (h : Bytes.AgreeOn first second (location.elementOffset i) location.elementSize) :
    location.readElement? first i = location.readElement? second i := by
  unfold readElement?
  rw [Bytes.slice?_congr hlength h]

theorem WellPlaced.inside_of_element (h : location.WellPlaced type)
    (htext : location.text = false) {buffer : Bytes} (hlength : buffer.length = type.size)
    {i : Nat} (hi : i < location.count) :
    location.elementOffset i + location.elementSize ≤ buffer.length := by
  rw [hlength]
  exact h.inside i hi (by simp [htext])

theorem WellPlaced.apart (h : location.WellPlaced type) {i j : Nat} (hne : i ≠ j)
    (hi : i < location.count) (hj : j < location.count) :
    location.elementOffset i + location.elementSize ≤ location.elementOffset j ∨
      location.elementOffset j + location.elementSize ≤ location.elementOffset i := by
  rcases Nat.lt_or_gt_of_ne hne with hlt | hlt
  · exact Or.inl (h.spaced i j hlt hj)
  · exact Or.inr (h.spaced j i hlt hi)

theorem WellPlaced.fitting_eq_count (h : location.WellPlaced type)
    (htext : location.text = false) {buffer : Bytes} (hlength : buffer.length = type.size) :
    location.fitting buffer = location.count := by
  rcases Nat.lt_or_ge (location.fitting buffer) location.count with hlt | hge
  · have hinside := h.inside_of_element htext hlength hlt
    exact absurd ((inside_iff_lt_fitting hlt).mp hinside) (Nat.lt_irrefl _)
  · exact Nat.le_antisymm (location.fitting_le_count buffer) hge

theorem WellPlaced.exists_readElement?_iff (h : location.WellPlaced type) {buffer : Bytes}
    {i : Nat} :
    (exists value, location.readElement? buffer i = some value) <->
      location.Inside buffer i := by
  rcases h.scalar with ⟨scalar, hkind, hsize⟩
  constructor
  · rintro ⟨value, hvalue⟩
    rcases Option.bind_eq_some_iff.mp hvalue with ⟨part, hpart, _⟩
    exact (Bytes.slice?_eq_some.mp hpart).left
  · intro hinside
    rcases Bytes.exists_slice? hinside with ⟨part, hpart, hpartSize⟩
    rcases Value.exists_decodeScalar? (hpartSize.trans hsize) with ⟨value, hvalue⟩
    refine ⟨value, ?_⟩
    unfold readElement?
    rw [hpart, hkind]
    exact hvalue

theorem WellPlaced.readElement?_eq_none (h : location.WellPlaced type) {buffer : Bytes}
    {i : Nat} (houtside : ¬ location.Inside buffer i) :
    location.readElement? buffer i = none := by
  rw [Option.eq_none_iff_forall_ne_some]
  intro value hvalue
  exact houtside (h.exists_readElement?_iff.mp ⟨value, hvalue⟩)

theorem getElem?_filterMap_range {α : Type} {f : Nat -> Option α} {n m : Nat} (hle : m ≤ n)
    (h : forall i, i < n -> ((exists a, f i = some a) <-> i < m)) :
    ((List.range n).filterMap f).length = m ∧
      forall i, i < m -> ((List.range n).filterMap f)[i]? = f i := by
  induction n generalizing m with
  | zero =>
      cases Nat.le_zero.mp hle
      exact ⟨rfl, fun i hi => absurd hi (Nat.not_lt_zero i)⟩
  | succ n ih =>
      have hlast := h n (Nat.lt_succ_self n)
      rw [List.range_succ, List.filterMap_append]
      cases hresult : f n with
      | none =>
          have hle' : m ≤ n := by
            simpa [hresult] using hlast
          rw [List.filterMap_cons_none hresult, List.filterMap_nil, List.append_nil]
          exact ih hle' fun i hi => h i (Nat.lt_succ_of_lt hi)
      | some last =>
          -- The last result is there, and so are all before it.
          have hm : m = n + 1 := Nat.le_antisymm hle (hlast.mp ⟨last, hresult⟩)
          subst hm
          rcases ih (Nat.le_refl n) (fun i hi =>
            (h i (Nat.lt_succ_of_lt hi)).trans (iff_of_true (Nat.lt_succ_of_lt hi) hi)) with
            ⟨hlength, hget⟩
          rw [List.filterMap_cons_some hresult, List.filterMap_nil]
          constructor
          · rw [List.length_append, hlength]
            rfl
          · intro i hi
            rcases Nat.lt_succ_iff_lt_or_eq.mp hi with hlt | rfl
            · rw [List.getElem?_append_left (by omega)]
              exact hget i hlt
            · rw [List.getElem?_append_right (by omega), hlength, Nat.sub_self, hresult]
              rfl

theorem WellPlaced.read_fitting (h : location.WellPlaced type)
    (htext : location.text = false) (buffer : Bytes) :
    (location.read buffer).length = location.fitting buffer ∧
      forall i, i < location.fitting buffer ->
        (location.read buffer)[i]? = location.readElement? buffer i := by
  have hread : location.read buffer =
      (List.range location.count).filterMap (location.readElement? buffer) := by
    rw [read, htext]
    rfl
  rw [hread]
  exact getElem?_filterMap_range (location.fitting_le_count buffer) fun i hi =>
    h.exists_readElement?_iff.trans (inside_iff_lt_fitting hi)

theorem WellPlaced.isScalar_of_read (h : location.WellPlaced type)
    (htext : location.text = false) {scalar : Scalar} (hkind : location.kind = .scalar scalar)
    {buffer : Bytes} : forall value, value ∈ location.read buffer -> value.IsScalar scalar := by
  intro value hvalue
  rcases List.mem_iff_getElem?.mp hvalue with ⟨i, hi⟩
  rcases h.read_fitting htext buffer with ⟨hlength, hget⟩
  have hlt : i < (location.read buffer).length := (List.getElem?_eq_some_iff.mp hi).choose
  rw [hget i (hlength ▸ hlt)] at hi
  rcases Option.bind_eq_some_iff.mp hi with ⟨part, _, hdecode⟩
  rw [hkind] at hdecode
  exact Value.isScalar_of_decodeScalar? hdecode

theorem WellPlaced.read_elements (h : location.WellPlaced type)
    (htext : location.text = false) {buffer : Bytes} (hlength : buffer.length = type.size) :
    (location.read buffer).length = location.count ∧
      forall i, i < location.count ->
        (location.read buffer)[i]? = location.readElement? buffer i := by
  have hread := h.read_fitting htext buffer
  rwa [h.fitting_eq_count htext hlength] at hread

theorem WellPlaced.read_text (h : location.WellPlaced type) (htext : location.text = true)
    {buffer : Bytes} (hlength : buffer.length = type.size) :
    exists part, buffer.slice? location.offset location.capacity = some part ∧
      location.read buffer = [Value.ofTextBytes part] := by
  have hinside := (h.text htext).right
  rw [← hlength] at hinside
  rcases Bytes.exists_slice? hinside with ⟨part, hpart, _⟩
  refine ⟨part, hpart, ?_⟩
  rw [read, htext, if_pos rfl, hpart]
  rfl

theorem WellPlaced.length_read (h : location.WellPlaced type) {buffer : Bytes}
    (hlength : buffer.length = type.size) :
    (location.read buffer).length = if location.text then 1 else location.count := by
  cases htext : location.text with
  | true =>
      rcases h.read_text htext hlength with ⟨part, _, hread⟩
      rw [hread]
      rfl
  | false =>
      exact (h.read_elements htext hlength).left

theorem read_congr {first second : Bytes} (hlength : first.length = second.length)
    (hcount : location.text = true -> 0 < location.count)
    (h : forall k, location.region.Covers k -> first[k]? = second[k]?) :
    location.read first = location.read second := by
  unfold read
  cases htext : location.text with
  | true =>
      have hslice : first.slice? location.offset location.capacity =
          second.slice? location.offset location.capacity := by
        refine Bytes.slice?_congr hlength ?_
        intro k hk hk'
        refine h k ⟨0, hcount htext, ?_, ?_⟩
        · simpa [Region.start, region] using hk
        · simpa [Region.stop, Region.start, region] using hk'
      simp only [if_true, hslice]
  | false =>
      simp only [Bool.false_eq_true, if_false]
      refine List.filterMap_congr ?_
      intro i hi
      refine readElement?_congr hlength ?_
      intro k hk hk'
      refine h k ⟨i, List.mem_range.mp hi, hk, ?_⟩
      rw [← capacity_of_elements htext] at hk'
      exact hk'

/-!
## Writing elements

One element is written if it lies inside of the buffer, and nothing else changes. So an
element that is not written keeps its value.
-/

def Beside (location : Location) (i k : Nat) : Prop :=
  k < location.elementOffset i ∨ location.elementOffset i + location.elementSize ≤ k

theorem writeElement?_frame {buffer new : Bytes} {i : Nat} {value : Value}
    (h : location.writeElement? buffer i value = some new) :
    new.length = buffer.length ∧
      forall k, (location.Inside buffer i -> location.Beside i k) -> new[k]? = buffer[k]? := by
  unfold writeElement? at h
  dsimp only at h
  split at h
  · cases h
    exact ⟨rfl, fun _ _ => rfl⟩
  · next bytes _ =>
      split at h
      · next hinside =>
          split at h
          · next hsize =>
              cases h
              constructor
              · exact Bytes.length_overwrite _ _ _
              · intro k hbeside
                have hk := hbeside hinside
                unfold Beside at hk
                rw [← hsize] at hk
                exact Bytes.getElem?_overwrite_of_outside hk
          · cases h
      · cases h
        exact ⟨rfl, fun _ _ => rfl⟩

theorem writeElements?_frame {buffer new : Bytes} {i : Nat} {values : List Value}
    (h : location.writeElements? buffer i values = some new) :
    new.length = buffer.length ∧
      forall k, (forall j, i ≤ j -> j < i + values.length -> location.Inside buffer j ->
          location.Beside j k) ->
        new[k]? = buffer[k]? := by
  induction values generalizing buffer i with
  | nil =>
      cases h
      exact ⟨rfl, fun _ _ => rfl⟩
  | cons value rest ih =>
      rcases Option.bind_eq_some_iff.mp h with ⟨middle, hfirst, hrest⟩
      rcases writeElement?_frame hfirst with ⟨hlength, hframe⟩
      rcases ih hrest with ⟨hlength', hframe'⟩
      refine ⟨hlength'.trans hlength, ?_⟩
      intro k hk
      rw [List.length_cons] at hk
      rw [hframe' k (fun j hj hj' hinside =>
        hk j (by omega) (by omega) (by rwa [Inside, ← hlength]))]
      exact hframe k (hk i (Nat.le_refl i) (by omega))

theorem writeElement?_eq_some {buffer : Bytes} {i : Nat} {value : Value} {scalar : Scalar}
    (hkind : location.kind = .scalar scalar) (hsize : location.elementSize = scalar.size)
    (hinside : location.Inside buffer i) (hvalue : value.IsScalar scalar) :
    exists new, location.writeElement? buffer i value = some new ∧
      location.readElement? new i = some value := by
  rcases Value.encode?_of_isScalar hvalue with ⟨bytes, hencode, hbytes, hdecode⟩
  have hlength : bytes.length = location.elementSize := hbytes.trans hsize.symm
  unfold Inside at hinside
  refine ⟨buffer.overwrite (location.elementOffset i) bytes, ?_, ?_⟩
  · unfold writeElement?
    rw [hencode]
    dsimp only
    rw [if_pos hinside, if_pos hlength]
  · rw [← hlength] at hinside
    unfold readElement?
    rw [← hlength, Bytes.slice?_overwrite_same hinside, hkind]
    exact hdecode

theorem writeElement?_of_outside {buffer : Bytes} {i : Nat} (value : Value)
    (houtside : ¬ location.Inside buffer i) :
    location.writeElement? buffer i value = some buffer := by
  unfold writeElement?
  cases value.encode? with
  | none =>
      rfl
  | some bytes =>
      exact if_neg houtside

theorem WellPlaced.writeElement?_over (h : location.WellPlaced type) (buffer : Bytes) (i : Nat)
    {value : Value} (hvalue : location.kind = .scalar value.scalar) :
    exists new, location.writeElement? buffer i value = some new ∧
      location.readElement? new i = (location.readElement? buffer i).map value.writtenOver := by
  by_cases hinside : location.Inside buffer i
  · rcases h.exists_readElement?_iff.mpr hinside with ⟨old, hold⟩
    rw [hold, Option.map_some]
    rcases value.eq_text_or_isScalar with ⟨contents, rfl⟩ | hscalar
    · exact ⟨buffer, rfl, hold⟩
    · rcases h.scalar with ⟨scalar, hkind, hsize⟩
      cases hkind.symm.trans hvalue
      rw [Value.writtenOver_of_isScalar hscalar]
      exact writeElement?_eq_some hkind hsize hinside hscalar
  · rw [h.readElement?_eq_none hinside, Option.map_none]
    exact ⟨buffer, writeElement?_of_outside value hinside, h.readElement?_eq_none hinside⟩

theorem WellPlaced.readElement?_frame (h : location.WellPlaced type) {buffer new : Bytes}
    {i j : Nat} {values : List Value} (hj : j < location.count)
    (hfits : i + values.length ≤ location.count) (hbeside : j < i ∨ i + values.length ≤ j)
    (hwrite : location.writeElements? buffer i values = some new) :
    location.readElement? new j = location.readElement? buffer j := by
  rcases writeElements?_frame hwrite with ⟨hlength, hframe⟩
  refine readElement?_congr hlength ?_
  intro k hk hk'
  refine hframe k ?_
  intro written hwritten hwritten' _
  unfold Beside
  have hapart := h.apart (i := written) (j := j) (by omega) (by omega) hj
  omega

theorem WellPlaced.writeElements?_over (h : location.WellPlaced type) (buffer : Bytes) {i : Nat}
    {values : List Value} (hfits : i + values.length ≤ location.count)
    (hvalues : forall value, value ∈ values -> location.kind = .scalar value.scalar) :
    exists new, location.writeElements? buffer i values = some new ∧
      forall j (hj : j < values.length), location.readElement? new (i + j) =
        (location.readElement? buffer (i + j)).map (values[j].writtenOver) := by
  induction values generalizing buffer i with
  | nil =>
      exact ⟨buffer, rfl, fun j hj => absurd hj (Nat.not_lt_zero j)⟩
  | cons value rest ih =>
      rw [List.length_cons] at hfits
      rcases h.writeElement?_over buffer i (hvalues value List.mem_cons_self) with
        ⟨middle, hfirst, hread⟩
      have hone : location.writeElements? buffer i [value] = some middle := by
        unfold writeElements?
        rw [hfirst]
        rfl
      have hfits' : i + 1 + rest.length ≤ location.count := by omega
      rcases ih middle hfits'
        (fun other hother => hvalues other (List.mem_cons_of_mem value hother)) with
        ⟨new, hrest, hreads⟩
      refine ⟨new, Option.bind_eq_some_iff.mpr ⟨middle, hfirst, hrest⟩, ?_⟩
      -- The elements are apart, so neither the first write nor the later ones change others.
      intro j hj
      cases j with
      | zero =>
          rw [Nat.add_zero, h.readElement?_frame (by omega) hfits' (by omega) hrest, hread]
          rfl
      | succ j =>
          rw [List.length_cons] at hj
          have hkept : location.readElement? middle (i + (j + 1)) =
              location.readElement? buffer (i + (j + 1)) :=
            h.readElement?_frame (by omega) (by rw [List.length_singleton]; omega)
              (by rw [List.length_singleton]; omega) hone
          have hlater := hreads j (by omega)
          rw [Nat.add_assoc, Nat.add_comm 1 j, hkept] at hlater
          exact hlater

/-!
## Elements written back

What is read of an element is stored in it, so writing it changes nothing.
-/

theorem WellPlaced.writeElement?_back (h : location.WellPlaced type) {buffer : Bytes} {i : Nat}
    {value : Value} (hread : location.readElement? buffer i = some value) :
    location.writeElement? buffer i value = some buffer := by
  rcases h.scalar with ⟨scalar, hkind, _⟩
  rcases Option.bind_eq_some_iff.mp hread with ⟨part, hpart, hvalue⟩
  rw [hkind] at hvalue
  have hinside := (Bytes.slice?_eq_some.mp hpart).left
  unfold writeElement?
  rw [Value.encode?_of_decodeScalar? hvalue]
  dsimp only
  rw [if_pos hinside, if_pos (Bytes.length_of_slice? hpart), Bytes.overwrite_slice hpart]

theorem WellPlaced.writeElements?_back (h : location.WellPlaced type) {buffer : Bytes} {i : Nat}
    {values : List Value}
    (hread : forall j (hj : j < values.length),
      location.readElement? buffer (i + j) = some values[j]) :
    location.writeElements? buffer i values = some buffer := by
  induction values generalizing i with
  | nil =>
      rfl
  | cons value rest ih =>
      have hfirst := h.writeElement?_back (hread 0 (Nat.succ_pos _))
      refine Option.bind_eq_some_iff.mpr ⟨buffer, hfirst, ih ?_⟩
      intro j hj
      rw [Nat.add_right_comm]
      exact hread (j + 1) (Nat.succ_lt_succ hj)

end Location
end VideoConfig
