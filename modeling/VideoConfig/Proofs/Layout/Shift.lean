import VideoConfig.Proofs.Layout.Placement

/-!
# Moving a layout

Where entries are placed depends on the offset they start at only up to their alignment:
a start that is moved by a multiple of it moves every field and the end by as much. So a
branch of an overlay, which starts at a multiple of the overlay's alignment, is placed as
it is at offset zero.
-/

namespace VideoConfig
namespace Layout

def moveField (shift : Nat) (field : Field) : Field :=
  { field with offset := shift + field.offset }

def Placed.moved (shift : Nat) (placed : Placed) : Placed where
  fields := placed.fields.map (moveField shift)
  stop := shift + placed.stop

theorem Placed.moved_append (shift : Nat) (first others : Placed) :
    Placed.moved shift { fields := first.fields ++ others.fields, stop := others.stop } =
      { fields := (first.moved shift).fields ++ (others.moved shift).fields
        stop := (others.moved shift).stop } := by
  simp [Placed.moved]

theorem Placed.moved_beside (shift : Nat) (first others : Placed) :
    Placed.moved shift
        { fields := first.fields ++ others.fields, stop := max first.stop others.stop } =
      { fields := (first.moved shift).fields ++ (others.moved shift).fields
        stop := max (first.moved shift).stop (others.moved shift).stop } := by
  simp [Placed.moved, Nat.add_max_add_left]

theorem IsAlignment.dvd_of_max {first others shift : Nat} (hfirst : IsAlignment first)
    (hothers : IsAlignment others) (hdvd : Max.max first others ∣ shift) :
    first ∣ shift ∧ others ∣ shift :=
  ⟨Nat.dvd_trans (hfirst.dvd_of_le (hfirst.max hothers) (Nat.le_max_left _ _)) hdvd,
    Nat.dvd_trans (hothers.dvd_of_le (hfirst.max hothers) (Nat.le_max_right _ _)) hdvd⟩

section

variable {known : List RecordType} {owner : String}

mutual

theorem placeEntry_shift (hknown : AllAligned known) {align shift start : Nat}
    (hdvd : align ∣ shift) :
    forall entry, entryAlign known owner entry = .ok align ->
      placeEntry known owner (shift + start) entry =
        (placeEntry known owner start entry).map (Placed.moved shift)
  | .field name kind shape category, halign => by
      rcases bind_eq_ok.mp halign with ⟨element, hmeasure, hpure⟩
      rw [← pure_eq_ok.mp hpure] at hdvd
      rw [placeEntry, placeEntry, hmeasure]
      change Except.ok _ = Except.ok _
      simp [Placed.moved, moveField, alignUp_add start hdvd, Nat.add_assoc]
  | .pad kind shape, halign => by
      rcases bind_eq_ok.mp halign with ⟨element, hmeasure, hpure⟩
      rw [← pure_eq_ok.mp hpure] at hdvd
      rw [placeEntry, placeEntry, hmeasure]
      change Except.ok _ = Except.ok _
      simp [Placed.moved, alignUp_add start hdvd, Nat.add_assoc]
  | .overlay branches, halign => by
      have halign' : branchesAlign known owner branches = .ok align := halign
      have hinner : placeBranches known owner (shift + alignUp start align) branches =
          (placeBranches known owner (alignUp start align) branches).map
            (Placed.moved shift) :=
        placeBranches_shift hknown hdvd branches halign'
      rw [placeEntry, placeEntry, halign']
      change (placeBranches known owner (alignUp (shift + start) align) branches >>= _) =
        Except.map _ (placeBranches known owner (alignUp start align) branches >>= _)
      rw [alignUp_add start hdvd, hinner]
      cases placeBranches known owner (alignUp start align) branches with
      | error e =>
          rfl
      | ok inner =>
          change Except.ok _ = Except.ok _
          simp [Placed.moved, Nat.add_sub_add_left, Nat.add_assoc]

theorem placeEntries_shift (hknown : AllAligned known) {align shift start : Nat}
    (hdvd : align ∣ shift) :
    forall entries, entriesAlign known owner entries = .ok align ->
      placeEntries known owner (shift + start) entries =
        (placeEntries known owner start entries).map (Placed.moved shift)
  | [], _ =>
      rfl
  | entry :: rest, halign => by
      rcases bind_eq_ok.mp halign with ⟨alignFirst, halignFirst, halign⟩
      rcases bind_eq_ok.mp halign with ⟨alignOthers, halignOthers, hpure⟩
      rw [← pure_eq_ok.mp hpure] at hdvd
      rcases (entryAlign_isAlignment hknown entry halignFirst).dvd_of_max
        (entriesAlign_isAlignment hknown rest halignOthers) hdvd with ⟨hfirst, hothers⟩
      rw [placeEntries, placeEntries, placeEntry_shift hknown hfirst entry halignFirst]
      cases placeEntry known owner start entry with
      | error e =>
          rfl
      | ok first =>
          change (placeEntries known owner (shift + first.stop) rest >>= _) =
            Except.map _ (placeEntries known owner first.stop rest >>= _)
          rw [placeEntries_shift hknown hothers rest halignOthers]
          cases placeEntries known owner first.stop rest with
          | error e =>
              rfl
          | ok others =>
              exact congrArg Except.ok (Placed.moved_append shift first others).symm

theorem placeBranches_shift (hknown : AllAligned known) {align shift origin : Nat}
    (hdvd : align ∣ shift) :
    forall branches, branchesAlign known owner branches = .ok align ->
      placeBranches known owner (shift + origin) branches =
        (placeBranches known owner origin branches).map (Placed.moved shift)
  | [], _ =>
      rfl
  | branch :: rest, halign => by
      rcases bind_eq_ok.mp halign with ⟨alignFirst, halignFirst, halign⟩
      rcases bind_eq_ok.mp halign with ⟨alignOthers, halignOthers, hpure⟩
      rw [← pure_eq_ok.mp hpure] at hdvd
      rcases (entriesAlign_isAlignment hknown branch halignFirst).dvd_of_max
        (branchesAlign_isAlignment hknown rest halignOthers) hdvd with ⟨hfirst, hothers⟩
      rw [placeBranches, placeBranches, placeEntries_shift hknown hfirst branch halignFirst,
        placeBranches_shift hknown hothers rest halignOthers]
      cases placeEntries known owner origin branch with
      | error e =>
          rfl
      | ok first =>
          cases placeBranches known owner origin rest with
          | error e =>
              rfl
          | ok others =>
              exact congrArg Except.ok (Placed.moved_beside shift first others).symm

end

end

end Layout
end VideoConfig
