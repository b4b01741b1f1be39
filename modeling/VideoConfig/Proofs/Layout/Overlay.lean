import VideoConfig.Proofs.Layout.Placement

/-!
# Fields that share their bytes

Only the branches of an overlay are placed over each other. Two fields that are not in
different branches of a common overlay take bytes of their own, and stand in the order of
the declaration.
-/

namespace VideoConfig
namespace Layout

mutual

def entryNames : Entry -> List String
  | .field name _ _ _ => [name]
  | .pad _ _ => []
  | .overlay branches => branchesNames branches

def entriesNames : List Entry -> List String
  | [] => []
  | entry :: rest => entryNames entry ++ entriesNames rest

def branchesNames : List (List Entry) -> List String
  | [] => []
  | branch :: rest => entriesNames branch ++ branchesNames rest

end

mutual

def entryOverlays (first second : String) : Entry -> Bool
  | .field _ _ _ _ => false
  | .pad _ _ => false
  | .overlay branches => branchesOverlay first second branches

/-- Whether two fields stand in different branches of an overlay among entries, at any
depth. -/
def entriesOverlay (first second : String) : List Entry -> Bool
  | [] => false
  | entry :: rest => entryOverlays first second entry || entriesOverlay first second rest

def branchesOverlay (first second : String) : List (List Entry) -> Bool
  | [] => false
  | branch :: rest =>
      entriesOverlay first second branch ||
        (entriesNames branch).contains first && (branchesNames rest).contains second ||
        (entriesNames branch).contains second && (branchesNames rest).contains first ||
        branchesOverlay first second rest

end

mutual

theorem entryOverlays_comm (first second : String) :
    forall entry, entryOverlays first second entry = entryOverlays second first entry
  | .field _ _ _ _ => rfl
  | .pad _ _ => rfl
  | .overlay branches => branchesOverlay_comm first second branches

theorem entriesOverlay_comm (first second : String) :
    forall entries, entriesOverlay first second entries = entriesOverlay second first entries
  | [] => rfl
  | entry :: rest => by
      rw [entriesOverlay, entriesOverlay, entryOverlays_comm first second entry,
        entriesOverlay_comm first second rest]

theorem branchesOverlay_comm (first second : String) :
    forall branches,
      branchesOverlay first second branches = branchesOverlay second first branches
  | [] => rfl
  | branch :: rest => by
      rw [branchesOverlay, branchesOverlay, entriesOverlay_comm first second branch,
        branchesOverlay_comm first second rest]
      ac_rfl

end

/-!
## Names of placed fields
-/

section

variable {known : List RecordType} {owner : String}

mutual

theorem placeEntry_names {start : Nat} {placed : Placed} :
    forall entry, placeEntry known owner start entry = .ok placed ->
      placed.fields.map Field.name = entryNames entry
  | .field _ kind _ _, hplace => by
      rcases bind_eq_ok.mp hplace with ⟨element, _, hplaced⟩
      rw [← pure_eq_ok.mp hplaced]
      rfl
  | .pad kind _, hplace => by
      rcases bind_eq_ok.mp hplace with ⟨element, _, hplaced⟩
      rw [← pure_eq_ok.mp hplaced]
      rfl
  | .overlay branches, hplace => by
      rcases bind_eq_ok.mp hplace with ⟨align, _, h⟩
      rcases bind_eq_ok.mp h with ⟨inner, hinner, hplaced⟩
      have hnames : inner.fields.map Field.name = branchesNames branches :=
        placeBranches_names branches hinner
      rw [← pure_eq_ok.mp hplaced]
      exact hnames

theorem placeEntries_names {start : Nat} {placed : Placed} :
    forall entries, placeEntries known owner start entries = .ok placed ->
      placed.fields.map Field.name = entriesNames entries
  | [], hplace => by
      cases hplace
      rfl
  | entry :: rest, hplace => by
      rcases bind_eq_ok.mp hplace with ⟨first, hfirst, h⟩
      rcases bind_eq_ok.mp h with ⟨others, hothers, hplaced⟩
      rw [← pure_eq_ok.mp hplaced, List.map_append, placeEntry_names entry hfirst,
        placeEntries_names rest hothers]
      rfl

theorem placeBranches_names {origin : Nat} {placed : Placed} :
    forall branches, placeBranches known owner origin branches = .ok placed ->
      placed.fields.map Field.name = branchesNames branches
  | [], hplace => by
      cases hplace
      rfl
  | branch :: rest, hplace => by
      rcases bind_eq_ok.mp hplace with ⟨first, hfirst, h⟩
      rcases bind_eq_ok.mp h with ⟨others, hothers, hplaced⟩
      rw [← pure_eq_ok.mp hplaced, List.map_append, placeEntries_names branch hfirst,
        placeBranches_names rest hothers]
      rfl

end

/-!
## Bytes of placed fields

The field that is declared first ends before the other starts, unless the two are laid over
each other.
-/

def Precedes (overlay : String -> String -> Bool) (first second : Field) : Prop :=
  overlay first.name second.name = true ∨ first.offset + first.bytes ≤ second.offset

theorem Precedes.mono {overlay overlay' : String -> String -> Bool}
    (h : forall f g, overlay f g = true -> overlay' f g = true) {first second : Field}
    (hprecedes : Precedes overlay first second) : Precedes overlay' first second := by
  rcases hprecedes with hover | hbefore
  · exact Or.inl (h first.name second.name hover)
  · exact Or.inr hbefore

mutual

theorem placeEntry_precedes (hknown : AllAligned known) {align start : Nat}
    {placed : Placed} :
    forall entry, entryAlign known owner entry = .ok align ->
      placeEntry known owner start entry = .ok placed ->
        placed.fields.Pairwise (Precedes fun f g => entryOverlays f g entry)
  | .field _ kind _ _, _, hplace => by
      rcases bind_eq_ok.mp hplace with ⟨element, _, hplaced⟩
      rw [← pure_eq_ok.mp hplaced]
      exact List.pairwise_singleton _ _
  | .pad kind _, _, hplace => by
      rcases bind_eq_ok.mp hplace with ⟨element, _, hplaced⟩
      rw [← pure_eq_ok.mp hplaced]
      exact List.Pairwise.nil
  | .overlay branches, halign, hplace => by
      rcases bind_eq_ok.mp hplace with ⟨align', _, h⟩
      rcases bind_eq_ok.mp h with ⟨inner, hinner, hplaced⟩
      have hprecedes : inner.fields.Pairwise
          (Precedes fun f g => branchesOverlay f g branches) :=
        placeBranches_precedes hknown branches halign hinner
      rw [← pure_eq_ok.mp hplaced]
      exact hprecedes

theorem placeEntries_precedes (hknown : AllAligned known) {align start : Nat}
    {placed : Placed} :
    forall entries, entriesAlign known owner entries = .ok align ->
      placeEntries known owner start entries = .ok placed ->
        placed.fields.Pairwise (Precedes fun f g => entriesOverlay f g entries)
  | [], _, hplace => by
      cases hplace
      exact List.Pairwise.nil
  | entry :: rest, halign, hplace => by
      rcases bind_eq_ok.mp halign with ⟨alignFirst, halignFirst, halign⟩
      rcases bind_eq_ok.mp halign with ⟨alignOthers, halignOthers, _⟩
      rcases bind_eq_ok.mp hplace with ⟨first, hfirst, hplace⟩
      rcases bind_eq_ok.mp hplace with ⟨others, hothers, hplaced⟩
      have hfitsFirst := placeEntry_fits hknown entry halignFirst hfirst
      have hfitsOthers := placeEntries_fits hknown rest halignOthers hothers
      rw [← pure_eq_ok.mp hplaced]
      refine List.pairwise_append.mpr ⟨?_, ?_, ?_⟩
      · refine (placeEntry_precedes hknown entry halignFirst hfirst).imp (Precedes.mono ?_)
        intro f g h
        simp [entriesOverlay, h]
      · refine (placeEntries_precedes hknown rest halignOthers hothers).imp (Precedes.mono ?_)
        intro f g h
        simp [entriesOverlay, h]
      · intro f hf g hg
        exact Or.inr (Nat.le_trans (hfitsFirst.seated f hf).le_stop
          (hfitsOthers.seated g hg).start_le)

theorem placeBranches_precedes (hknown : AllAligned known) {align origin : Nat}
    {placed : Placed} :
    forall branches, branchesAlign known owner branches = .ok align ->
      placeBranches known owner origin branches = .ok placed ->
        placed.fields.Pairwise (Precedes fun f g => branchesOverlay f g branches)
  | [], _, hplace => by
      cases hplace
      exact List.Pairwise.nil
  | branch :: rest, halign, hplace => by
      rcases bind_eq_ok.mp halign with ⟨alignFirst, halignFirst, halign⟩
      rcases bind_eq_ok.mp halign with ⟨alignOthers, halignOthers, _⟩
      rcases bind_eq_ok.mp hplace with ⟨first, hfirst, hplace⟩
      rcases bind_eq_ok.mp hplace with ⟨others, hothers, hplaced⟩
      rw [← pure_eq_ok.mp hplaced]
      refine List.pairwise_append.mpr ⟨?_, ?_, ?_⟩
      · refine (placeEntries_precedes hknown branch halignFirst hfirst).imp (Precedes.mono ?_)
        intro f g h
        simp [branchesOverlay, h]
      · refine (placeBranches_precedes hknown rest halignOthers hothers).imp (Precedes.mono ?_)
        intro f g h
        simp [branchesOverlay, h]
      · intro f hf g hg
        -- Fields of two branches of one overlay are exactly those laid over each other.
        have hfName : f.name ∈ entriesNames branch := by
          rw [← placeEntries_names branch hfirst]
          exact List.mem_map_of_mem hf
        have hgName : g.name ∈ branchesNames rest := by
          rw [← placeBranches_names rest hothers]
          exact List.mem_map_of_mem hg
        exact Or.inl (by simp [branchesOverlay, hfName, hgName])

end

end

end Layout
end VideoConfig
