import VideoConfig.Proofs.Attempt
import VideoConfig.Proofs.Layout.Alignment

/-!
# Where entries are placed

Entries that are placed from an offset on take the room from there to their stop. Every
field among them lies inside of that room, at a multiple of its own alignment, and fields
that no overlay puts above each other lie one behind the other.
-/

namespace VideoConfig
namespace Layout

/-!
## Measures

A record type that is found stays found when more record types are laid out, so a measure is
settled once and for all.
-/

theorem measure_record_eq_ok {known : List RecordType} {owner name : String}
    {element : Measure} :
    measure known owner (.record name) = .ok element <->
      exists type, known.find? (fun type => type.name == name) = some type ∧
        element = { size := type.size, align := type.align } := by
  cases hfind : known.find? fun type => type.name == name with
  | none =>
      simp [measure, hfind]
  | some type =>
      simp [measure, hfind, eq_comm]

def AllAligned (known : List RecordType) : Prop :=
  forall type, type ∈ known -> IsAlignment type.align

theorem measure_isAlignment {known : List RecordType} {owner : String} {kind : Kind}
    {element : Measure} (hknown : AllAligned known)
    (h : measure known owner kind = .ok element) : IsAlignment element.align := by
  cases kind with
  | scalar scalar =>
      cases h
      exact isAlignment_size scalar
  | record name =>
      rcases measure_record_eq_ok.mp h with ⟨type, hfind, rfl⟩
      exact hknown type (List.mem_of_find?_eq_some hfind)

theorem measure_append {known more : List RecordType} {owner : String} {kind : Kind}
    {element : Measure} (h : measure known owner kind = .ok element) :
    measure (known ++ more) owner kind = .ok element := by
  cases kind with
  | scalar scalar =>
      exact h
  | record name =>
      rcases measure_record_eq_ok.mp h with ⟨type, hfind, hmeasure⟩
      refine measure_record_eq_ok.mpr ⟨type, ?_, hmeasure⟩
      rw [List.find?_append, hfind]
      rfl

/-!
## Fields in their room

Entries placed one behind the other fit the whole room if each part fits its own, and
branches placed at the same offset fit the room up to the longest of them.
-/

/-- A field that has its place in the room from `start` to `stop`: it lies inside of the
room, and its offset is a multiple of its own alignment, which is at most `align`. -/
structure Seated (known : List RecordType) (align start stop : Nat) (field : Field) :
    Prop where
  measured : exists element, measure known field.owner field.kind = .ok element ∧
    field.size = element.size ∧ element.align ∣ field.offset ∧ element.align ≤ align
  start_le : start ≤ field.offset
  le_stop : field.offset + field.bytes ≤ stop

theorem Seated.mono {known : List RecordType}
    {align align' start start' stop stop' : Nat} {field : Field}
    (h : Seated known align start stop field) (halign : align ≤ align')
    (hstart : start' ≤ start) (hstop : stop ≤ stop') :
    Seated known align' start' stop' field := by
  rcases h.measured with ⟨element, hmeasure, hsize, hdvd, hle⟩
  exact {
    measured := ⟨element, hmeasure, hsize, hdvd, Nat.le_trans hle halign⟩
    start_le := Nat.le_trans hstart h.start_le
    le_stop := Nat.le_trans h.le_stop hstop }

structure Placed.Fits (placed : Placed) (known : List RecordType) (align start : Nat) :
    Prop where
  start_le_stop : start ≤ placed.stop
  seated : forall field, field ∈ placed.fields ->
    Seated known align start placed.stop field

theorem Placed.Fits.append {known : List RecordType} {first others : Placed}
    {alignFirst alignOthers start : Nat}
    (hfirst : first.Fits known alignFirst start)
    (hothers : others.Fits known alignOthers first.stop) :
    Placed.Fits { fields := first.fields ++ others.fields, stop := others.stop } known
      (max alignFirst alignOthers) start := by
  constructor
  · exact Nat.le_trans hfirst.start_le_stop hothers.start_le_stop
  · intro field hmem
    rcases List.mem_append.mp hmem with hmem | hmem
    · exact (hfirst.seated field hmem).mono (Nat.le_max_left _ _) (Nat.le_refl _)
        hothers.start_le_stop
    · exact (hothers.seated field hmem).mono (Nat.le_max_right _ _)
        hfirst.start_le_stop (Nat.le_refl _)

theorem Placed.Fits.beside {known : List RecordType} {first others : Placed}
    {alignFirst alignOthers start : Nat}
    (hfirst : first.Fits known alignFirst start)
    (hothers : others.Fits known alignOthers start) :
    Placed.Fits
      { fields := first.fields ++ others.fields, stop := max first.stop others.stop }
      known (max alignFirst alignOthers) start := by
  constructor
  · exact Nat.le_trans hfirst.start_le_stop (Nat.le_max_left _ _)
  · intro field hmem
    rcases List.mem_append.mp hmem with hmem | hmem
    · exact (hfirst.seated field hmem).mono (Nat.le_max_left _ _) (Nat.le_refl _)
        (Nat.le_max_left _ _)
    · exact (hothers.seated field hmem).mono (Nat.le_max_right _ _) (Nat.le_refl _)
        (Nat.le_max_right _ _)

/-!
## Alignments of entries
-/

section

variable {known : List RecordType} {owner : String}

mutual

theorem entryAlign_isAlignment (hknown : AllAligned known) {align : Nat} :
    forall entry, entryAlign known owner entry = .ok align -> IsAlignment align
  | .field _ kind _ _, h => by
      rcases bind_eq_ok.mp h with ⟨element, hmeasure, hpure⟩
      rw [← pure_eq_ok.mp hpure]
      exact measure_isAlignment hknown hmeasure
  | .pad kind _, h => by
      rcases bind_eq_ok.mp h with ⟨element, hmeasure, hpure⟩
      rw [← pure_eq_ok.mp hpure]
      exact measure_isAlignment hknown hmeasure
  | .overlay branches, h =>
      branchesAlign_isAlignment hknown branches h

theorem entriesAlign_isAlignment (hknown : AllAligned known) {align : Nat} :
    forall entries, entriesAlign known owner entries = .ok align -> IsAlignment align
  | [], h => by
      cases h
      exact Or.inl rfl
  | entry :: rest, h => by
      rcases bind_eq_ok.mp h with ⟨first, hfirst, h⟩
      rcases bind_eq_ok.mp h with ⟨others, hothers, hpure⟩
      rw [← pure_eq_ok.mp hpure]
      exact (entryAlign_isAlignment hknown entry hfirst).max
        (entriesAlign_isAlignment hknown rest hothers)

theorem branchesAlign_isAlignment (hknown : AllAligned known) {align : Nat} :
    forall branches, branchesAlign known owner branches = .ok align -> IsAlignment align
  | [], h => by
      cases h
      exact Or.inl rfl
  | branch :: rest, h => by
      rcases bind_eq_ok.mp h with ⟨first, hfirst, h⟩
      rcases bind_eq_ok.mp h with ⟨others, hothers, hpure⟩
      rw [← pure_eq_ok.mp hpure]
      exact (entriesAlign_isAlignment hknown branch hfirst).max
        (branchesAlign_isAlignment hknown rest hothers)

end

/-!
## The room of entries
-/

mutual

theorem placeEntry_fits (hknown : AllAligned known) {align start : Nat}
    {placed : Placed} :
    forall entry, entryAlign known owner entry = .ok align ->
      placeEntry known owner start entry = .ok placed -> placed.Fits known align start
  | .field name kind shape category, halign, hplace => by
      rcases bind_eq_ok.mp halign with ⟨element, hmeasure, hpure⟩
      have hpos : 0 < element.align := (measure_isAlignment hknown hmeasure).pos
      rcases bind_eq_ok.mp hplace with ⟨element', hmeasure', hplaced⟩
      rw [hmeasure] at hmeasure'
      cases hmeasure'
      rw [← pure_eq_ok.mp hpure, ← pure_eq_ok.mp hplaced]
      have hstart : start ≤ alignUp start element.align := le_alignUp start hpos
      constructor
      · exact Nat.le_trans hstart (Nat.le_add_right _ _)
      · intro field hmem
        rw [List.mem_singleton.mp hmem]
        exact {
          measured := ⟨element, hmeasure, rfl, dvd_alignUp start element.align,
            Nat.le_refl _⟩
          start_le := hstart
          le_stop := Nat.le_refl _ }
  | .pad kind shape, halign, hplace => by
      rcases bind_eq_ok.mp hplace with ⟨element, hmeasure, hplaced⟩
      have hpos : 0 < element.align := (measure_isAlignment hknown hmeasure).pos
      rw [← pure_eq_ok.mp hplaced]
      constructor
      · exact Nat.le_trans (le_alignUp start hpos) (Nat.le_add_right _ _)
      · intro field hmem
        cases hmem
  | .overlay branches, halign, hplace => by
      rcases bind_eq_ok.mp hplace with ⟨align', halign', h⟩
      have hsame : align' = align := by
        have h' : branchesAlign known owner branches = .ok align := halign
        rw [h'] at halign'
        cases halign'
        rfl
      rw [hsame] at h
      rcases bind_eq_ok.mp h with ⟨inner, hinner, hplaced⟩
      -- The overlay takes the bytes of its longest branch, rounded up, so every branch
      -- stays below its end.
      have hpos : 0 < align := (branchesAlign_isAlignment hknown branches halign).pos
      have hfits := placeBranches_fits hknown branches halign hinner
      have hstart : start ≤ alignUp start align := le_alignUp start hpos
      have hstop : inner.stop - alignUp start align ≤
          alignUp (inner.stop - alignUp start align) align := le_alignUp _ hpos
      have hle := hfits.start_le_stop
      rw [← pure_eq_ok.mp hplaced]
      constructor
      · exact Nat.le_trans hstart (Nat.le_add_right _ _)
      · intro field hmem
        exact (hfits.seated field hmem).mono (Nat.le_refl _) hstart (by dsimp only; omega)

theorem placeEntries_fits (hknown : AllAligned known) {align start : Nat}
    {placed : Placed} :
    forall entries, entriesAlign known owner entries = .ok align ->
      placeEntries known owner start entries = .ok placed -> placed.Fits known align start
  | [], _, hplace => by
      cases hplace
      constructor
      · exact Nat.le_refl _
      · intro field hmem
        cases hmem
  | entry :: rest, halign, hplace => by
      rcases bind_eq_ok.mp halign with ⟨alignFirst, halignFirst, halign⟩
      rcases bind_eq_ok.mp halign with ⟨alignOthers, halignOthers, hpure⟩
      rcases bind_eq_ok.mp hplace with ⟨first, hfirst, hplace⟩
      rcases bind_eq_ok.mp hplace with ⟨others, hothers, hplaced⟩
      rw [← pure_eq_ok.mp hpure, ← pure_eq_ok.mp hplaced]
      exact (placeEntry_fits hknown entry halignFirst hfirst).append
        (placeEntries_fits hknown rest halignOthers hothers)

theorem placeBranches_fits (hknown : AllAligned known) {align origin : Nat}
    {placed : Placed} :
    forall branches, branchesAlign known owner branches = .ok align ->
      placeBranches known owner origin branches = .ok placed ->
        placed.Fits known align origin
  | [], _, hplace => by
      cases hplace
      constructor
      · exact Nat.le_refl _
      · intro field hmem
        cases hmem
  | branch :: rest, halign, hplace => by
      rcases bind_eq_ok.mp halign with ⟨alignFirst, halignFirst, halign⟩
      rcases bind_eq_ok.mp halign with ⟨alignOthers, halignOthers, hpure⟩
      rcases bind_eq_ok.mp hplace with ⟨first, hfirst, hplace⟩
      rcases bind_eq_ok.mp hplace with ⟨others, hothers, hplaced⟩
      rw [← pure_eq_ok.mp hpure, ← pure_eq_ok.mp hplaced]
      exact (placeEntries_fits hknown branch halignFirst hfirst).beside
        (placeBranches_fits hknown rest halignOthers hothers)

end

end

end Layout
end VideoConfig
