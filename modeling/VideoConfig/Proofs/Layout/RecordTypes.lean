import Mathlib.Data.List.Forall2
import Mathlib.Data.List.Nodup
import VideoConfig.Proofs.Layout.Overlay

/-!
# Record types that are laid out

What a record type is known to be once it is laid out: its size is a multiple of its
alignment, its fields have their places inside of it, and their names are distinct. An
extension starts with the two fields of its header, and no other field reaches into them.
-/

namespace VideoConfig

theorem RecordType.field?_eq_some {type : RecordType} {name : String} {field : Field}
    (h : type.field? name = some field) : field ∈ type.fields ∧ field.name = name :=
  ⟨List.mem_of_find?_eq_some h, by simpa using List.find?_some h⟩

namespace Layout

def headerFields (owner : String) : List Field :=
  [{ name := "BufferId", kind := .u32, category := .value, offset := 0, size := 4
     shape := [], owner },
   { name := "BufferSz", kind := .u32, category := .value, offset := 4, size := 4
     shape := [], owner }]

structure LaidOut (records : List RecordType) (declaration : Declaration)
    (type : RecordType) : Prop where
  name_eq : type.name = declaration.name
  role_eq : type.role = declaration.role
  isAlignment : IsAlignment type.align
  align_dvd_size : type.align ∣ type.size
  seated : forall field, field ∈ type.fields ->
    Seated records type.align 0 type.size field
  precedes : type.fields.Pairwise
    (Precedes fun f g => entriesOverlay f g (fullEntries declaration))
  names_eq : type.fields.map Field.name = entriesNames (fullEntries declaration)
  names_nodup : (type.fields.map Field.name).Nodup
  header : forall tag, type.role = .extension tag ->
    exists body, type.fields = headerFields type.name ++ body ∧
      forall field, field ∈ body -> headerSize ≤ field.offset

theorem LaidOut.append {records more : List RecordType} {declaration : Declaration}
    {type : RecordType} (h : LaidOut records declaration type) :
    LaidOut (records ++ more) declaration type where
  name_eq := h.name_eq
  role_eq := h.role_eq
  isAlignment := h.isAlignment
  align_dvd_size := h.align_dvd_size
  seated := by
    intro field hmem
    have hseated := h.seated field hmem
    rcases hseated.measured with ⟨element, hmeasure, hrest⟩
    exact {
      measured := ⟨element, measure_append hmeasure, hrest⟩
      start_le := hseated.start_le
      le_stop := hseated.le_stop }
  precedes := h.precedes
  names_eq := h.names_eq
  names_nodup := h.names_nodup
  header := h.header

/-!
## Looking up by name
-/

theorem find?_eq_some_of_unique {item : Type} {test : item -> Bool} {items : List item}
    {sought : item} (hmem : sought ∈ items) (htest : test sought = true)
    (hunique : forall other, other ∈ items -> test other = true -> other = sought) :
    items.find? test = some sought := by
  cases hfind : items.find? test with
  | none =>
      exact absurd htest (List.find?_eq_none.mp hfind sought hmem)
  | some found =>
      rw [hunique found (List.mem_of_find?_eq_some hfind) (List.find?_some hfind)]

theorem LaidOut.field?_eq_some_iff {records : List RecordType} {declaration : Declaration}
    {type : RecordType} (h : LaidOut records declaration type) {name : String}
    {field : Field} :
    type.field? name = some field <-> field ∈ type.fields ∧ field.name = name := by
  constructor
  · exact RecordType.field?_eq_some
  · rintro ⟨hmem, rfl⟩
    refine find?_eq_some_of_unique hmem (by simp) ?_
    intro other hother htest
    exact List.inj_on_of_nodup_map h.names_nodup hother hmem (by simpa using htest)

theorem LaidOut.apart {records : List RecordType} {declaration : Declaration}
    {type : RecordType} (h : LaidOut records declaration type) {first second : Field}
    (hfirst : first ∈ type.fields) (hsecond : second ∈ type.fields)
    (hne : first.name ≠ second.name)
    (hoverlay : entriesOverlay first.name second.name (fullEntries declaration) = false) :
    first.offset + first.bytes ≤ second.offset ∨
      second.offset + second.bytes ≤ first.offset := by
  have hpairs : type.fields.Pairwise fun f g => f.name ≠ g.name ->
      entriesOverlay f.name g.name (fullEntries declaration) = false ->
        f.offset + f.bytes ≤ g.offset ∨ g.offset + g.bytes ≤ f.offset := by
    refine h.precedes.imp ?_
    rintro f g (hoverlaid | hbefore) _ hapart
    · exact absurd (hapart.symm.trans hoverlaid) Bool.false_ne_true
    · exact Or.inl hbefore
  have hall := List.Pairwise.forall_of_forall_of_flip ?_ hpairs ?_ hfirst hsecond
  · exact hall hne hoverlay
  · intro f _ hself
    exact absurd rfl hself
  · refine hpairs.imp ?_
    intro f g hfg hne' hoverlay'
    rw [entriesOverlay_comm] at hoverlay'
    exact (hfg hne'.symm hoverlay').symm

/-!
## One record type

The header takes the first eight bytes of an extension, and its other entries are placed
behind them.
-/

theorem firstRepeated?_eq_none {seen names : List String}
    (h : firstRepeated? seen names = none) :
    names.Nodup ∧ forall name, name ∈ names -> name ∉ seen := by
  induction names generalizing seen with
  | nil =>
      exact ⟨List.nodup_nil, fun name hmem => by cases hmem⟩
  | cons first rest ih =>
      unfold firstRepeated? at h
      split at h
      · cases h
      · next hfirst =>
          rcases ih h with ⟨hnodup, hseen⟩
          constructor
          · refine List.nodup_cons.mpr ⟨?_, hnodup⟩
            intro hmem
            exact hseen first hmem (List.mem_cons_self)
          · intro name hmem
            rcases List.mem_cons.mp hmem with rfl | hmem
            · simpa using hfirst
            · intro hin
              exact hseen name hmem (List.mem_cons_of_mem first hin)

theorem placeEntry_u32 {known : List RecordType} {owner name : String} {start : Nat}
    {category : Category} :
    placeEntry known owner start (.field name .u32 [] category) = .ok {
      fields := [{
        name, kind := .u32, category, offset := alignUp start 4, size := 4, shape := []
        owner }]
      stop := alignUp start 4 + 4 } := by
  rfl

theorem placeEntries_header {known : List RecordType} {owner : String}
    {entries : List Entry} {placed : Placed}
    (h : placeEntries known owner 0 (header ++ entries) = .ok placed) :
    exists body, placeEntries known owner headerSize entries = .ok body ∧
      placed = { fields := headerFields owner ++ body.fields, stop := body.stop } := by
  have hzero : alignUp 0 4 = 0 := rfl
  have hfour : alignUp (0 + 4) 4 = 4 := rfl
  rcases bind_eq_ok.mp h with ⟨first, hfirst, h⟩
  rw [placeEntry_u32, hzero] at hfirst
  cases hfirst
  rcases bind_eq_ok.mp h with ⟨others, h, hplaced⟩
  rcases bind_eq_ok.mp h with ⟨second, hsecond, h⟩
  rw [placeEntry_u32, hfour] at hsecond
  cases hsecond
  rcases bind_eq_ok.mp h with ⟨body, hbody, hothers⟩
  refine ⟨body, hbody, ?_⟩
  rw [← pure_eq_ok.mp hplaced, ← pure_eq_ok.mp hothers]
  rfl

theorem entriesAlign_header {known : List RecordType} {owner : String}
    {entries : List Entry} {align : Nat}
    (h : entriesAlign known owner (header ++ entries) = .ok align) :
    exists align', entriesAlign known owner entries = .ok align' := by
  rcases bind_eq_ok.mp h with ⟨_, _, h⟩
  rcases bind_eq_ok.mp h with ⟨_, h, _⟩
  rcases bind_eq_ok.mp h with ⟨_, _, h⟩
  rcases bind_eq_ok.mp h with ⟨align', h, _⟩
  exact ⟨align', h⟩

theorem placeEntries_behind_header {known : List RecordType} {owner : String}
    {entries : List Entry} {align : Nat} {placed : Placed} (hknown : AllAligned known)
    (halign : entriesAlign known owner (header ++ entries) = .ok align)
    (hplaced : placeEntries known owner 0 (header ++ entries) = .ok placed) :
    exists body, placed.fields = headerFields owner ++ body ∧
      forall field, field ∈ body -> headerSize ≤ field.offset := by
  rcases entriesAlign_header halign with ⟨align', halign'⟩
  rcases placeEntries_header hplaced with ⟨body, hbody, rfl⟩
  have hfits := placeEntries_fits hknown entries halign' hbody
  refine ⟨body.fields, rfl, ?_⟩
  intro field hmem
  exact (hfits.seated field hmem).start_le

theorem layOut_laidOut {known : List RecordType} {declaration : Declaration}
    {type : RecordType} (hknown : AllAligned known)
    (h : layOut known declaration = .ok type) :
    LaidOut known declaration type ∧
      declaration.name ∉ known.map RecordType.name := by
  dsimp only [layOut] at h
  by_cases hold : (known.any fun type => type.name == declaration.name) = true
  · rw [if_pos hold] at h
    cases h
  · rw [if_neg hold] at h
    rcases bind_eq_ok.mp h with ⟨align, halign, h⟩
    rcases bind_eq_ok.mp h with ⟨placed, hplaced, h⟩
    split at h
    · cases h
    · next hrepeated =>
        cases h
        have halignment := entriesAlign_isAlignment hknown _ halign
        have hfits := placeEntries_fits hknown _ halign hplaced
        constructor
        · exact {
            name_eq := rfl
            role_eq := rfl
            isAlignment := halignment
            align_dvd_size := dvd_alignUp placed.stop align
            seated := by
              intro field hmem
              exact (hfits.seated field hmem).mono (Nat.le_refl _) (Nat.le_refl _)
                (le_alignUp placed.stop halignment.pos)
            precedes := placeEntries_precedes hknown _ halign hplaced
            names_eq := placeEntries_names _ hplaced
            names_nodup := (firstRepeated?_eq_none hrepeated).left
            header := by
              intro tag hrole
              have hentries : fullEntries declaration = header ++ declaration.entries := by
                have hrole' : declaration.role = .extension tag := hrole
                rw [fullEntries, hrole']
              rw [hentries] at halign hplaced
              exact placeEntries_behind_header hknown halign hplaced }
        · intro hmem
          rcases List.mem_map.mp hmem with ⟨type, htype, hname⟩
          apply hold
          rw [List.any_eq_true]
          exact ⟨type, htype, by simp [hname]⟩

/-!
## All record types

Each is laid out from its declaration, in the order of the declarations, and no two have the
same name.
-/

theorem layOutAll_laidOut {known types : List RecordType}
    {declarations : List Declaration} (hknown : AllAligned known)
    (hnodup : (known.map RecordType.name).Nodup)
    (h : layOutAll known declarations = .ok types) :
    exists new, types = known ++ new ∧
      List.Forall₂ (LaidOut types) declarations new ∧
      (types.map RecordType.name).Nodup := by
  induction declarations generalizing known with
  | nil =>
      cases h
      exact ⟨[], by simp, List.Forall₂.nil, hnodup⟩
  | cons declaration rest ih =>
      rcases bind_eq_ok.mp h with ⟨type, htype, hrest⟩
      rcases layOut_laidOut hknown htype with ⟨hlaidOut, hnew⟩
      have hknown' : AllAligned (known ++ [type]) := by
        intro other hmem
        rcases List.mem_append.mp hmem with hmem | hmem
        · exact hknown other hmem
        · rw [List.mem_singleton.mp hmem]
          exact hlaidOut.isAlignment
      have hnodup' : ((known ++ [type]).map RecordType.name).Nodup := by
        rw [List.map_append, List.map_singleton, hlaidOut.name_eq]
        refine List.nodup_append.mpr ⟨hnodup, by simp, ?_⟩
        intro name hname other hother heq
        rw [List.mem_singleton.mp hother] at heq
        exact hnew (heq ▸ hname)
      rcases ih hknown' hnodup' hrest with ⟨new, htypes, hnewTypes, hnodupTypes⟩
      refine ⟨type :: new, by rw [htypes, List.append_assoc]; rfl, ?_, hnodupTypes⟩
      -- Records refer to earlier ones only, so later ones do not change their layout.
      refine List.Forall₂.cons ?_ hnewTypes
      rw [htypes, List.append_assoc]
      exact hlaidOut.append

/-!
## Records inside of records
-/

/-- Record types of which each embeds only those before it. -/
inductive Grounded : List RecordType -> Prop where
  | nil : Grounded []
  | append {known : List RecordType} {type : RecordType} :
      Grounded known ->
      (forall field name, field ∈ type.fields -> field.kind = .record name ->
        exists inner, inner ∈ known ∧ inner.name = name) ->
      Grounded (known ++ [type])

theorem LaidOut.embeds {known : List RecordType} {declaration : Declaration}
    {type : RecordType} (h : LaidOut known declaration type) {field : Field} {name : String}
    (hfield : field ∈ type.fields) (hkind : field.kind = .record name) :
    exists inner, inner ∈ known ∧ inner.name = name := by
  rcases (h.seated field hfield).measured with ⟨element, hmeasure, _⟩
  rw [hkind] at hmeasure
  rcases measure_record_eq_ok.mp hmeasure with ⟨inner, hfind, _⟩
  exact ⟨inner, List.mem_of_find?_eq_some hfind, by simpa using List.find?_some hfind⟩

theorem layOutAll_grounded {known types : List RecordType} {declarations : List Declaration}
    (hknown : AllAligned known) (hgrounded : Grounded known)
    (h : layOutAll known declarations = .ok types) : Grounded types := by
  induction declarations generalizing known with
  | nil =>
      cases h
      exact hgrounded
  | cons declaration rest ih =>
      rcases bind_eq_ok.mp h with ⟨type, htype, hrest⟩
      rcases layOut_laidOut hknown htype with ⟨hlaidOut, _⟩
      refine ih ?_ (Grounded.append hgrounded fun _ _ => hlaidOut.embeds) hrest
      intro other hmem
      rcases List.mem_append.mp hmem with hmem | hmem
      · exact hknown other hmem
      · rw [List.mem_singleton.mp hmem]
        exact hlaidOut.isAlignment

end Layout
end VideoConfig
