import VideoConfig.Catalog.Video
import VideoConfig.Proofs.Layout.RecordTypes
import VideoConfig.Proofs.Layout.Shift

/-!
# Natural layout

The layout that a C compiler gives to a structure, said without a cursor: which offset an
entry has is the least one that suits it, the branches of an overlay are laid out alone and
moved to a common offset, and a record type is as large as the least multiple of its
alignment that covers what is in it. Record types that are laid out have this layout. A
member is a field or a stretch of padding in its place.
-/

namespace VideoConfig
namespace Layout

structure Member where
  label : Option (String × Category)
  kind : Kind
  shape : List Nat
  element : Measure
  offset : Nat

namespace Member

def stop (member : Member) : Nat :=
  member.offset + member.element.size * elementCount member.shape

def moved (shift : Nat) (member : Member) : Member :=
  { member with offset := shift + member.offset }

def field? (owner : String) (member : Member) : Option Field :=
  member.label.map fun label => {
    name := label.1, kind := member.kind, category := label.2, offset := member.offset
    size := member.element.size, shape := member.shape, owner }

theorem stop_moved (shift : Nat) (member : Member) :
    (member.moved shift).stop = shift + member.stop := by
  simp [stop, moved, Nat.add_assoc]

theorem field?_moved (owner : String) (shift : Nat) (member : Member) :
    (member.moved shift).field? owner = (member.field? owner).map (moveField shift) := by
  simp [field?, moved, moveField, Function.comp_def]

end Member

def fieldsOf (owner : String) (members : List Member) : List Field :=
  members.filterMap (Member.field? owner)

theorem fieldsOf_append (owner : String) (first others : List Member) :
    fieldsOf owner (first ++ others) = fieldsOf owner first ++ fieldsOf owner others :=
  List.filterMap_append

theorem fieldsOf_moved (owner : String) (shift : Nat) (members : List Member) :
    fieldsOf owner (members.map (Member.moved shift)) =
      (fieldsOf owner members).map (moveField shift) := by
  unfold fieldsOf
  rw [List.filterMap_map, List.map_filterMap]
  congr 1
  funext member
  exact member.field?_moved owner shift

def Widest (members : List Member) (align : Nat) : Prop :=
  IsGreatest
    {a | a = 1 ∨ exists member, member ∈ members ∧ a = member.element.align} align

/-!
## What natural layout is

A field or a stretch of padding starts at the least offset that its alignment divides.
Entries are laid out one behind the other, and every branch of an overlay alone from offset
zero on.
-/

mutual

/-- `EntryLays known owner start entry members stop`: laid out from offset `start` on, an
entry becomes the members, and the next entry goes on from `stop`. -/
inductive EntryLays (known : List RecordType) (owner : String) :
    Nat -> Entry -> List Member -> Nat -> Prop where
  | field {start offset : Nat} {name : String} {kind : Kind} {shape : List Nat}
      {category : Category} {element : Measure} :
      measure known owner kind = .ok element ->
      IsLeast {next | start ≤ next ∧ element.align ∣ next} offset ->
      EntryLays known owner start (.field name kind shape category)
        [{ label := some (name, category), kind, shape, element, offset }]
        (offset + element.size * elementCount shape)
  | pad {start offset : Nat} {kind : Kind} {shape : List Nat} {element : Measure} :
      measure known owner kind = .ok element ->
      IsLeast {next | start ≤ next ∧ element.align ∣ next} offset ->
      EntryLays known owner start (.pad kind shape)
        [{ label := none, kind, shape, element, offset }]
        (offset + element.size * elementCount shape)
  /-- An overlay starts at the least offset that the largest alignment in its branches
  divides. All of them are moved there as they are laid out alone, and the overlay takes
  the longest of them, rounded up to its alignment. -/
  | overlay {start align origin room : Nat} {branches : List (List Entry)}
      {members : List Member} {stops : List Nat} :
      BranchesLay known owner branches members stops ->
      Widest members align ->
      IsLeast {next | start ≤ next ∧ align ∣ next} origin ->
      IsLeast {bytes | align ∣ bytes ∧ forall stop, stop ∈ stops -> stop ≤ bytes} room ->
      EntryLays known owner start (.overlay branches) (members.map (Member.moved origin))
        (origin + room)

inductive EntriesLay (known : List RecordType) (owner : String) :
    Nat -> List Entry -> List Member -> Nat -> Prop where
  | nil {start : Nat} : EntriesLay known owner start [] [] start
  | cons {start middle stop : Nat} {entry : Entry} {rest : List Entry}
      {first others : List Member} :
      EntryLays known owner start entry first middle ->
      EntriesLay known owner middle rest others stop ->
      EntriesLay known owner start (entry :: rest) (first ++ others) stop

inductive BranchesLay (known : List RecordType) (owner : String) :
    List (List Entry) -> List Member -> List Nat -> Prop where
  | nil : BranchesLay known owner [] [] []
  | cons {stop : Nat} {branch : List Entry} {rest : List (List Entry)}
      {first others : List Member} {stops : List Nat} :
      EntriesLay known owner 0 branch first stop ->
      BranchesLay known owner rest others stops ->
      BranchesLay known owner (branch :: rest) (first ++ others) (stop :: stops)

end

/-- A record type that has the natural layout of its declaration. -/
structure Natural (records : List RecordType) (declaration : Declaration)
    (type : RecordType) : Prop where
  name_eq : type.name = declaration.name
  role_eq : type.role = declaration.role
  /-- Its entries are laid out from offset zero on. Its alignment is the largest in it, and
  its size the least multiple of that which covers every member. -/
  laid : exists members stop,
    EntriesLay records type.name 0 (fullEntries declaration) members stop ∧
      type.fields = fieldsOf type.name members ∧
      Widest members type.align ∧
      IsLeast
        {size | type.align ∣ size ∧ forall member, member ∈ members -> member.stop ≤ size}
        type.size
  aligned : forall field, field ∈ type.fields -> exists element,
    measure records type.name field.kind = .ok element ∧ field.size = element.size ∧
      element.align ∣ field.offset
  covered : forall field, field ∈ type.fields ->
    field.offset + field.size * field.count ≤ type.size
  names_eq : type.fields.map Field.name = entriesNames (fullEntries declaration)
  names_nodup : (type.fields.map Field.name).Nodup
  /-- A field ends before every later one that no overlay puts above it. -/
  apart : type.fields.Pairwise
    (Precedes fun f g => entriesOverlay f g (fullEntries declaration))
  /-- The entries of an extension are laid out from the end of its header on. -/
  body : forall tag, declaration.role = .extension tag -> exists members stop,
    EntriesLay records type.name headerSize declaration.entries members stop ∧
      type.fields = headerFields type.name ++ fieldsOf type.name members

/-!
## The largest alignment
-/

theorem Widest.nil : Widest [] 1 := by
  constructor
  · exact Or.inl rfl
  · rintro a (rfl | ⟨member, hmem, _⟩)
    · exact Nat.le_refl 1
    · cases hmem

theorem Widest.singleton {member : Member} (hpos : 0 < member.element.align) :
    Widest [member] member.element.align := by
  constructor
  · exact Or.inr ⟨member, List.mem_singleton.mpr rfl, rfl⟩
  · rintro a (rfl | ⟨other, hmem, rfl⟩)
    · exact hpos
    · rw [List.mem_singleton.mp hmem]

theorem Widest.append {first others : List Member} {alignFirst alignOthers : Nat}
    (hfirst : Widest first alignFirst) (hothers : Widest others alignOthers) :
    Widest (first ++ others) (max alignFirst alignOthers) := by
  constructor
  · rcases Nat.le_total alignFirst alignOthers with hle | hle
    · rw [Nat.max_eq_right hle]
      refine hothers.left.imp_right ?_
      rintro ⟨member, hmem, heq⟩
      exact ⟨member, List.mem_append_right first hmem, heq⟩
    · rw [Nat.max_eq_left hle]
      refine hfirst.left.imp_right ?_
      rintro ⟨member, hmem, heq⟩
      exact ⟨member, List.mem_append_left others hmem, heq⟩
  · rintro a (rfl | ⟨member, hmem, rfl⟩)
    · exact Nat.le_trans (hfirst.right (Or.inl rfl)) (Nat.le_max_left _ _)
    · rcases List.mem_append.mp hmem with hmem | hmem
      · exact Nat.le_trans (hfirst.right (Or.inr ⟨member, hmem, rfl⟩)) (Nat.le_max_left _ _)
      · exact Nat.le_trans (hothers.right (Or.inr ⟨member, hmem, rfl⟩))
          (Nat.le_max_right _ _)

theorem Widest.moved {members : List Member} {align : Nat} (shift : Nat)
    (h : Widest members align) : Widest (members.map (Member.moved shift)) align := by
  unfold Widest at h ⊢
  simpa [Member.moved] using h

theorem Widest.dvd_of_forall {members : List Member} {align size : Nat}
    (h : Widest members align)
    (hall : forall member, member ∈ members -> member.element.align ∣ size) :
    align ∣ size := by
  rcases h.left with rfl | ⟨member, hmem, rfl⟩
  · exact Nat.one_dvd size
  · exact hall member hmem

theorem Widest.dvd {members : List Member} {align : Nat} (h : Widest members align)
    (hall : forall member, member ∈ members -> IsAlignment member.element.align)
    {member : Member} (hmem : member ∈ members) : member.element.align ∣ align := by
  have halign : IsAlignment align := by
    rcases h.left with rfl | ⟨widest, hwidest, rfl⟩
    · exact Or.inl rfl
    · exact hall widest hwidest
  exact (hall member hmem).dvd_of_le halign (h.right (Or.inr ⟨member, hmem, rfl⟩))

/-!
## Placed entries have natural layout

Branches placed at offset zero are laid out alone, and end where the longest does.
-/

section

variable {known : List RecordType} {owner : String}

mutual

theorem placeEntry_lays (hknown : AllAligned known) (more : List RecordType)
    {align start : Nat} {placed : Placed} :
    forall entry, entryAlign known owner entry = .ok align ->
      placeEntry known owner start entry = .ok placed ->
        exists members, EntryLays (known ++ more) owner start entry members placed.stop ∧
          placed.fields = fieldsOf owner members ∧ Widest members align
  | .field name kind shape category, halign, hplace => by
      rcases bind_eq_ok.mp halign with ⟨element, hmeasure, hpure⟩
      rcases bind_eq_ok.mp hplace with ⟨element', hmeasure', hplaced⟩
      rw [hmeasure] at hmeasure'
      cases hmeasure'
      have hpos : 0 < element.align := (measure_isAlignment hknown hmeasure).pos
      rw [← pure_eq_ok.mp hpure, ← pure_eq_ok.mp hplaced]
      exact ⟨_, EntryLays.field (measure_append hmeasure) (isLeast_alignUp start hpos), rfl,
        Widest.singleton hpos⟩
  | .pad kind shape, halign, hplace => by
      rcases bind_eq_ok.mp halign with ⟨element, hmeasure, hpure⟩
      rcases bind_eq_ok.mp hplace with ⟨element', hmeasure', hplaced⟩
      rw [hmeasure] at hmeasure'
      cases hmeasure'
      have hpos : 0 < element.align := (measure_isAlignment hknown hmeasure).pos
      rw [← pure_eq_ok.mp hpure, ← pure_eq_ok.mp hplaced]
      exact ⟨_, EntryLays.pad (measure_append hmeasure) (isLeast_alignUp start hpos), rfl,
        Widest.singleton hpos⟩
  | .overlay branches, halign, hplace => by
      have halign' : branchesAlign known owner branches = .ok align := halign
      rcases bind_eq_ok.mp hplace with ⟨align', halign'', hplace⟩
      rw [halign'] at halign''
      cases halign''
      rcases bind_eq_ok.mp hplace with ⟨inner, hinner, hplaced⟩
      have hpos : 0 < align := (branchesAlign_isAlignment hknown branches halign').pos
      -- Where the branches are placed is where they are placed alone, moved to the origin.
      have hshift : placeBranches known owner (alignUp start align + 0) branches =
          (placeBranches known owner 0 branches).map (Placed.moved (alignUp start align)) :=
        placeBranches_shift hknown (dvd_alignUp start align) branches halign'
      rw [Nat.add_zero, hinner] at hshift
      rcases map_eq_ok.mp hshift.symm with ⟨alone, halone, hmoved⟩
      rcases placeBranches_lay hknown more branches halign' halone with
        ⟨members, stops, hlay, hfields, hwidest, hstops⟩
      have hroom : IsLeast {bytes | align ∣ bytes ∧ forall stop, stop ∈ stops -> stop ≤ bytes}
          (alignUp alone.stop align) := by
        constructor
        · exact ⟨dvd_alignUp alone.stop align,
            (hstops _).mp (le_alignUp alone.stop hpos)⟩
        · rintro bytes ⟨hdvd, hle⟩
          exact alignUp_le ((hstops bytes).mpr hle) hdvd
      rw [← pure_eq_ok.mp hplaced, ← hmoved]
      refine ⟨members.map (Member.moved (alignUp start align)), ?_, ?_, hwidest.moved _⟩
      · have hstop := EntryLays.overlay hlay hwidest (isLeast_alignUp start hpos) hroom
        simpa [Placed.moved] using hstop
      · rw [fieldsOf_moved, ← hfields]
        rfl

theorem placeEntries_lay (hknown : AllAligned known) (more : List RecordType)
    {align start : Nat} {placed : Placed} :
    forall entries, entriesAlign known owner entries = .ok align ->
      placeEntries known owner start entries = .ok placed ->
        exists members, EntriesLay (known ++ more) owner start entries members placed.stop ∧
          placed.fields = fieldsOf owner members ∧ Widest members align
  | [], halign, hplace => by
      cases halign
      cases hplace
      exact ⟨[], EntriesLay.nil, rfl, Widest.nil⟩
  | entry :: rest, halign, hplace => by
      rcases bind_eq_ok.mp halign with ⟨alignFirst, halignFirst, halign⟩
      rcases bind_eq_ok.mp halign with ⟨alignOthers, halignOthers, hpure⟩
      rcases bind_eq_ok.mp hplace with ⟨first, hfirst, hplace⟩
      rcases bind_eq_ok.mp hplace with ⟨others, hothers, hplaced⟩
      rcases placeEntry_lays hknown more entry halignFirst hfirst with
        ⟨membersFirst, hlayFirst, hfieldsFirst, hwidestFirst⟩
      rcases placeEntries_lay hknown more rest halignOthers hothers with
        ⟨membersOthers, hlayOthers, hfieldsOthers, hwidestOthers⟩
      rw [← pure_eq_ok.mp hpure, ← pure_eq_ok.mp hplaced]
      refine ⟨membersFirst ++ membersOthers, EntriesLay.cons hlayFirst hlayOthers, ?_,
        hwidestFirst.append hwidestOthers⟩
      rw [fieldsOf_append, ← hfieldsFirst, ← hfieldsOthers]

theorem placeBranches_lay (hknown : AllAligned known) (more : List RecordType)
    {align : Nat} {placed : Placed} :
    forall branches, branchesAlign known owner branches = .ok align ->
      placeBranches known owner 0 branches = .ok placed ->
        exists members stops, BranchesLay (known ++ more) owner branches members stops ∧
          placed.fields = fieldsOf owner members ∧ Widest members align ∧
          forall bytes, placed.stop ≤ bytes <-> forall stop, stop ∈ stops -> stop ≤ bytes
  | [], halign, hplace => by
      cases halign
      cases hplace
      exact ⟨[], [], BranchesLay.nil, rfl, Widest.nil, by simp⟩
  | branch :: rest, halign, hplace => by
      rcases bind_eq_ok.mp halign with ⟨alignFirst, halignFirst, halign⟩
      rcases bind_eq_ok.mp halign with ⟨alignOthers, halignOthers, hpure⟩
      rcases bind_eq_ok.mp hplace with ⟨first, hfirst, hplace⟩
      rcases bind_eq_ok.mp hplace with ⟨others, hothers, hplaced⟩
      rcases placeEntries_lay hknown more branch halignFirst hfirst with
        ⟨membersFirst, hlayFirst, hfieldsFirst, hwidestFirst⟩
      rcases placeBranches_lay hknown more rest halignOthers hothers with
        ⟨membersOthers, stops, hlayOthers, hfieldsOthers, hwidestOthers, hstops⟩
      rw [← pure_eq_ok.mp hpure, ← pure_eq_ok.mp hplaced]
      refine ⟨membersFirst ++ membersOthers, first.stop :: stops,
        BranchesLay.cons hlayFirst hlayOthers, ?_, hwidestFirst.append hwidestOthers, ?_⟩
      · rw [fieldsOf_append, ← hfieldsFirst, ← hfieldsOthers]
      · intro bytes
        rw [Nat.max_le, hstops bytes, List.forall_mem_cons]

end

end

/-!
## The size of a record type

A size that covers every member, and is a multiple of their alignments, covers the entries
as well, the padding behind an overlay included.
-/

section

variable {records : List RecordType} {owner : String}

mutual

theorem EntryLays.isAlignment (hrecords : AllAligned records) {start stop : Nat}
    {members : List Member} :
    forall entry, EntryLays records owner start entry members stop ->
      forall member, member ∈ members -> IsAlignment member.element.align
  | .field _ _ _ _, h => by
      cases h with
      | field hmeasure hoffset =>
          intro member hmem
          rw [List.mem_singleton.mp hmem]
          exact measure_isAlignment hrecords hmeasure
  | .pad _ _, h => by
      cases h with
      | pad hmeasure hoffset =>
          intro member hmem
          rw [List.mem_singleton.mp hmem]
          exact measure_isAlignment hrecords hmeasure
  | .overlay branches, h => by
      cases h with
      | overlay hlay hwidest horigin hroom =>
          intro member hmem
          rcases List.mem_map.mp hmem with ⟨alone, halone, rfl⟩
          exact BranchesLay.isAlignment hrecords branches hlay alone halone

theorem EntriesLay.isAlignment (hrecords : AllAligned records) {start stop : Nat}
    {members : List Member} :
    forall entries, EntriesLay records owner start entries members stop ->
      forall member, member ∈ members -> IsAlignment member.element.align
  | [], h => by
      cases h
      intro member hmem
      cases hmem
  | entry :: rest, h => by
      cases h with
      | cons hfirst hothers =>
          intro member hmem
          rcases List.mem_append.mp hmem with hmem | hmem
          · exact EntryLays.isAlignment hrecords entry hfirst member hmem
          · exact EntriesLay.isAlignment hrecords rest hothers member hmem

theorem BranchesLay.isAlignment (hrecords : AllAligned records) {stops : List Nat}
    {members : List Member} :
    forall branches, BranchesLay records owner branches members stops ->
      forall member, member ∈ members -> IsAlignment member.element.align
  | [], h => by
      cases h
      intro member hmem
      cases hmem
  | branch :: rest, h => by
      cases h with
      | cons hfirst hothers =>
          intro member hmem
          rcases List.mem_append.mp hmem with hmem | hmem
          · exact EntriesLay.isAlignment hrecords branch hfirst member hmem
          · exact BranchesLay.isAlignment hrecords rest hothers member hmem

end

mutual

theorem EntryLays.stop_le (hrecords : AllAligned records) {start stop size : Nat}
    {members : List Member} (hstart : start ≤ size) :
    forall entry, EntryLays records owner start entry members stop ->
      (forall member, member ∈ members ->
        member.element.align ∣ size ∧ member.stop ≤ size) ->
      stop ≤ size
  | .field _ _ _ _, h, hsize => by
      cases h with
      | field hmeasure hoffset =>
          exact (hsize _ (List.mem_singleton.mpr rfl)).right
  | .pad _ _, h, hsize => by
      cases h with
      | pad hmeasure hoffset =>
          exact (hsize _ (List.mem_singleton.mpr rfl)).right
  | .overlay branches, h, hsize => by
      cases h with
      | @overlay _ align origin room _ members stops hlay hwidest horigin hroom =>
          have hmoved : forall member, member ∈ members ->
              member.element.align ∣ size ∧ origin + member.stop ≤ size := by
            intro member hmem
            have h := hsize _ (List.mem_map_of_mem hmem)
            rw [Member.stop_moved] at h
            exact h
          have halign : align ∣ size :=
            hwidest.dvd_of_forall fun member hmem => (hmoved member hmem).left
          have horiginLe : origin ≤ size := horigin.right ⟨hstart, halign⟩
          -- What is behind the origin has room for every branch, so it has for the overlay.
          have hroomLe : room ≤ size - origin := by
            refine hroom.right ⟨Nat.dvd_sub halign horigin.left.right, ?_⟩
            refine BranchesLay.stops_le hrecords branches hlay ?_
            intro member hmem
            have hdvd : member.element.align ∣ align :=
              hwidest.dvd (BranchesLay.isAlignment hrecords branches hlay) hmem
            have hstop := (hmoved member hmem).right
            exact ⟨Nat.dvd_sub (hmoved member hmem).left
              (Nat.dvd_trans hdvd horigin.left.right), by omega⟩
          omega

theorem EntriesLay.stop_le (hrecords : AllAligned records) {start stop size : Nat}
    {members : List Member} (hstart : start ≤ size) :
    forall entries, EntriesLay records owner start entries members stop ->
      (forall member, member ∈ members ->
        member.element.align ∣ size ∧ member.stop ≤ size) ->
      stop ≤ size
  | [], h, _ => by
      cases h
      exact hstart
  | entry :: rest, h, hsize => by
      cases h with
      | cons hfirst hothers =>
          have hmiddle := EntryLays.stop_le hrecords hstart entry hfirst fun member hmem =>
            hsize member (List.mem_append_left _ hmem)
          exact EntriesLay.stop_le hrecords hmiddle rest hothers fun member hmem =>
            hsize member (List.mem_append_right _ hmem)

theorem BranchesLay.stops_le (hrecords : AllAligned records) {stops : List Nat} {size : Nat}
    {members : List Member} :
    forall branches, BranchesLay records owner branches members stops ->
      (forall member, member ∈ members ->
        member.element.align ∣ size ∧ member.stop ≤ size) ->
      forall stop, stop ∈ stops -> stop ≤ size
  | [], h, _ => by
      cases h
      intro stop hmem
      cases hmem
  | branch :: rest, h, hsize => by
      cases h with
      | cons hfirst hothers =>
          intro stop hmem
          rcases List.mem_cons.mp hmem with rfl | hmem
          · exact EntriesLay.stop_le hrecords (Nat.zero_le size) branch hfirst
              fun member hmem => hsize member (List.mem_append_left _ hmem)
          · exact BranchesLay.stops_le hrecords rest hothers
              (fun member hmem => hsize member (List.mem_append_right _ hmem)) stop hmem

end

mutual

theorem EntryLays.covers {start stop : Nat}
    {members : List Member} :
    forall entry, EntryLays records owner start entry members stop ->
      start ≤ stop ∧ forall member, member ∈ members -> member.stop ≤ stop
  | .field _ _ _ _, h => by
      cases h with
      | field hmeasure hoffset =>
          refine ⟨Nat.le_trans hoffset.left.left (Nat.le_add_right _ _), ?_⟩
          intro member hmem
          rw [List.mem_singleton.mp hmem]
          exact Nat.le_refl _
  | .pad _ _, h => by
      cases h with
      | pad hmeasure hoffset =>
          refine ⟨Nat.le_trans hoffset.left.left (Nat.le_add_right _ _), ?_⟩
          intro member hmem
          rw [List.mem_singleton.mp hmem]
          exact Nat.le_refl _
  | .overlay branches, h => by
      cases h with
      | @overlay _ align origin room _ members stops hlay hwidest horigin hroom =>
          refine ⟨Nat.le_trans horigin.left.left (Nat.le_add_right _ _), ?_⟩
          intro member hmem
          rcases List.mem_map.mp hmem with ⟨alone, halone, rfl⟩
          rcases BranchesLay.covers branches hlay alone halone with
            ⟨stop, hstop, hle⟩
          rw [Member.stop_moved]
          exact Nat.add_le_add_left (Nat.le_trans hle (hroom.left.right stop hstop)) origin

theorem EntriesLay.covers {start stop : Nat}
    {members : List Member} :
    forall entries, EntriesLay records owner start entries members stop ->
      start ≤ stop ∧ forall member, member ∈ members -> member.stop ≤ stop
  | [], h => by
      cases h
      exact ⟨Nat.le_refl _, fun member hmem => by cases hmem⟩
  | entry :: rest, h => by
      cases h with
      | cons hfirst hothers =>
          rcases EntryLays.covers entry hfirst with ⟨hstart, hleFirst⟩
          rcases EntriesLay.covers rest hothers with ⟨hmiddle, hleOthers⟩
          refine ⟨Nat.le_trans hstart hmiddle, ?_⟩
          intro member hmem
          rcases List.mem_append.mp hmem with hmem | hmem
          · exact Nat.le_trans (hleFirst member hmem) hmiddle
          · exact hleOthers member hmem

theorem BranchesLay.covers {stops : List Nat}
    {members : List Member} :
    forall branches, BranchesLay records owner branches members stops ->
      forall member, member ∈ members -> exists stop, stop ∈ stops ∧ member.stop ≤ stop
  | [], h => by
      cases h
      intro member hmem
      cases hmem
  | branch :: rest, h => by
      cases h with
      | cons hfirst hothers =>
          intro member hmem
          rcases List.mem_append.mp hmem with hmem | hmem
          · exact ⟨_, List.mem_cons_self,
              (EntriesLay.covers branch hfirst).right member hmem⟩
          · rcases BranchesLay.covers rest hothers member hmem with
              ⟨stop, hstop, hle⟩
            exact ⟨stop, List.mem_cons_of_mem _ hstop, hle⟩

end

end

/-!
## Record types

Which record type refers to another one does not matter for its measure. The entries of an
extension are laid out behind its header.
-/

theorem measure_owner {known : List RecordType} {owner owner' : String} {kind : Kind}
    {element : Measure} (h : measure known owner kind = .ok element) :
    measure known owner' kind = .ok element := by
  cases kind with
  | scalar scalar =>
      exact h
  | record name =>
      exact measure_record_eq_ok.mpr (measure_record_eq_ok.mp h)

theorem EntriesLay.isLeast_size {records : List RecordType} {owner : String}
    {entries : List Entry} {members : List Member} {stop align : Nat}
    (hrecords : AllAligned records)
    (hlay : EntriesLay records owner 0 entries members stop)
    (hwidest : Widest members align) (hpos : 0 < align) :
    IsLeast {size | align ∣ size ∧ forall member, member ∈ members -> member.stop ≤ size}
      (alignUp stop align) := by
  constructor
  · refine ⟨dvd_alignUp stop align, ?_⟩
    intro member hmem
    exact Nat.le_trans ((EntriesLay.covers entries hlay).right member hmem)
      (le_alignUp stop hpos)
  · rintro size ⟨hdvd, hcovers⟩
    refine alignUp_le (EntriesLay.stop_le hrecords (Nat.zero_le size) entries hlay ?_) hdvd
    intro member hmem
    have hmember : member.element.align ∣ align :=
      hwidest.dvd (EntriesLay.isAlignment hrecords entries hlay) hmem
    exact ⟨Nat.dvd_trans hmember hdvd, hcovers member hmem⟩

theorem placeEntries_body {known : List RecordType} {owner : String} {entries : List Entry}
    {align : Nat} {placed : Placed} (hknown : AllAligned known) (more : List RecordType)
    (halign : entriesAlign known owner (header ++ entries) = .ok align)
    (hplaced : placeEntries known owner 0 (header ++ entries) = .ok placed) :
    exists members stop,
      EntriesLay (known ++ more) owner headerSize entries members stop ∧
        placed.fields = headerFields owner ++ fieldsOf owner members := by
  rcases entriesAlign_header halign with ⟨align', halign'⟩
  rcases placeEntries_header hplaced with ⟨body, hbody, rfl⟩
  rcases placeEntries_lay hknown more entries halign' hbody with ⟨members, hlay, hfields, _⟩
  exact ⟨members, body.stop, hlay, by rw [hfields]⟩

theorem layOut_natural {known : List RecordType} {declaration : Declaration}
    {type : RecordType} (more : List RecordType) (hknown : AllAligned (known ++ more))
    (h : layOut known declaration = .ok type) :
    Natural (known ++ more) declaration type := by
  have hbefore : AllAligned known := fun type hmem =>
    hknown type (List.mem_append_left more hmem)
  have hlaidOut : LaidOut (known ++ more) declaration type :=
    (layOut_laidOut hbefore h).left.append
  dsimp only [layOut] at h
  split at h
  · cases h
  · rcases bind_eq_ok.mp h with ⟨align, halign, h⟩
    rcases bind_eq_ok.mp h with ⟨placed, hplaced, h⟩
    split at h
    · cases h
    · cases h
      rcases placeEntries_lay hbefore more _ halign hplaced with
        ⟨members, hlay, hfields, hwidest⟩
      exact {
        name_eq := rfl
        role_eq := rfl
        laid := ⟨members, placed.stop, hlay, hfields, hwidest,
          hlay.isLeast_size hknown hwidest hlaidOut.isAlignment.pos⟩
        aligned := by
          intro field hmem
          rcases (hlaidOut.seated field hmem).measured with
            ⟨element, hmeasure, hsize, hdvd, _⟩
          exact ⟨element, measure_owner hmeasure, hsize, hdvd⟩
        covered := fun field hmem => (hlaidOut.seated field hmem).le_stop
        names_eq := hlaidOut.names_eq
        names_nodup := hlaidOut.names_nodup
        apart := hlaidOut.precedes
        body := by
          intro tag hrole
          have hentries : fullEntries declaration = header ++ declaration.entries := by
            rw [fullEntries, hrole]
          rw [hentries] at halign hplaced
          exact placeEntries_body hbefore more halign hplaced }

theorem layOutAll_natural {known types : List RecordType} {declarations : List Declaration}
    (hknown : AllAligned known) (h : layOutAll known declarations = .ok types) :
    exists new, types = known ++ new ∧ AllAligned types ∧
      List.Forall₂ (Natural types) declarations new := by
  induction declarations generalizing known with
  | nil =>
      cases h
      exact ⟨[], by simp, hknown, List.Forall₂.nil⟩
  | cons declaration rest ih =>
      rcases bind_eq_ok.mp h with ⟨type, htype, hrest⟩
      have hknown' : AllAligned (known ++ [type]) := by
        intro other hmem
        rcases List.mem_append.mp hmem with hmem | hmem
        · exact hknown other hmem
        · rw [List.mem_singleton.mp hmem]
          exact (layOut_laidOut hknown htype).left.isAlignment
      rcases ih hknown' hrest with ⟨new, htypes, haligned, hnew⟩
      rw [List.append_assoc] at htypes
      refine ⟨type :: new, htypes, haligned, List.Forall₂.cons ?_ hnew⟩
      rw [htypes] at haligned ⊢
      exact layOut_natural ([type] ++ new) haligned htype

/-- Record types that can be laid out have the natural layout of their declarations. -/
theorem natural_of_layOutAll {types : List RecordType} {declarations : List Declaration}
    (h : layOutAll [] declarations = .ok types) :
    List.Forall₂ (Natural types) declarations types := by
  have hempty : AllAligned [] := by
    intro type hmem
    cases hmem
  rcases layOutAll_natural hempty h with ⟨new, htypes, _, hnew⟩
  rw [List.nil_append] at htypes
  rw [← htypes] at hnew
  exact hnew

/-- The records of the video parameters, with overlays inside of overlays. -/
theorem natural_of_layOutAll_video :
    exists types, layOutAll [] Catalog.videoRecords = .ok types ∧
      types.map RecordType.size = [8, 80, 152, 192, 232] ∧
      List.Forall₂ (Natural types) Catalog.videoRecords types := by
  have hsizes : (layOutAll [] Catalog.videoRecords).toOption.map (List.map RecordType.size) =
      some [8, 80, 152, 192, 232] := by
    decide +kernel
  rcases Option.map_eq_some_iff.mp hsizes with ⟨types, htypes, hsizes⟩
  rw [toOption_eq_some] at htypes
  exact ⟨types, htypes, hsizes, natural_of_layOutAll htypes⟩

end Layout
end VideoConfig
