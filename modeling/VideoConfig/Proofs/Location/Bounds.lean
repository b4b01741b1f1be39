import VideoConfig.Access.Storage
import VideoConfig.Proofs.Location.Origin

/-!
# Bounds of locations

Whatever table a schema is built from and whatever path is resolved against it, the
elements of the location are scalars that lie inside of their buffer, each at a multiple
of its size and no two over each other. In an extension they stand behind the header or
are one of its two fields.
-/

namespace VideoConfig
namespace Location

variable {schema : Schema} {declarations : List Declaration}
  {aliases : List (String × String)}

/-!
## What a walk keeps

Entering a field keeps the alignment of its elements, if that divides the alignment of the
record and the size of the elements. A walk ends at a scalar, and a text is one element.
-/

theorem Leads.refines (hbuilt : schema.BuiltFrom declarations aliases) {target : Target}
    {type : RecordType} {place : Place} {path : Path} {location : Location}
    (h : Leads schema target type place path location) (htype : type ∈ schema.records) :
    location.region.Refines (place.region type.size) := by
  induction h with
  | @leaf type place place' segment field _ _ _ hfield hkind hselect henter hleaf =>
      have hmem := (RecordType.field?_eq_some hfield).left
      exact (leaf_refines hleaf).trans
        (enter_refines hselect (hbuilt.seated htype hmem).le_stop henter)
  | @nested type inner place place' segment rest field name _ _ hfield hkind hinner
      hselect henter _ ih =>
      have hmem := (RecordType.field?_eq_some hfield).left
      have hinnerMem := (Schema.record?_eq_some hinner).left
      have hsize := (hbuilt.record_field htype hmem hkind hinner).left
      have hfits : field.offset + inner.size * field.count ≤ type.size := by
        rw [← hsize]
        exact (hbuilt.seated htype hmem).le_stop
      have henters := enter_refines hselect hfits henter
      rw [Selection.extent_of_ne_text (select_ne_text_of_record hkind hselect)] at henters
      exact (ih hinnerMem).trans henters

def Place.Aligned (place : Place) (align : Nat) : Prop :=
  align ∣ place.offset ∧
    forall projection, place.projection = some projection -> align ∣ projection.stride

theorem Place.Aligned.enter {place place' : Place} {field : Field}
    {align element elementAlign : Nat} {segment : Segment} {selection : Selection}
    (h : place.Aligned align) (halign : elementAlign ∣ align)
    (hoffset : elementAlign ∣ field.offset) (helement : elementAlign ∣ element)
    (henter : enter place field element segment selection = .ok place') :
    place'.Aligned elementAlign := by
  rcases enter_eq_ok henter with ⟨hplace, hprojection, _⟩
  constructor
  · rw [hplace]
    exact Nat.dvd_add (Nat.dvd_add (Nat.dvd_trans halign h.left) hoffset)
      (Nat.dvd_trans helement (Nat.dvd_mul_right _ _))
  · intro projection hsome
    rcases hprojection with ⟨_, _, hnew⟩ | ⟨_, hkeep⟩
    · rw [hnew] at hsome
      cases hsome
      exact helement
    · rw [hkeep] at hsome
      exact Nat.dvd_trans halign (h.right projection hsome)

theorem Leads.aligned (hbuilt : schema.BuiltFrom declarations aliases) {target : Target}
    {type : RecordType} {place : Place} {path : Path} {location : Location}
    (h : Leads schema target type place path location) (htype : type ∈ schema.records)
    (hplace : place.Aligned type.align) :
    location.elementSize ∣ location.offset ∧ location.elementSize ∣ location.stride := by
  induction h with
  | @leaf type place place' segment field _ _ location hfield hkind hselect henter hleaf =>
      have hmem := (RecordType.field?_eq_some hfield).left
      rcases hbuilt.scalar_field htype hmem hkind with ⟨_, hoffset, halign⟩
      have hplace' := hplace.enter halign hoffset (Nat.dvd_refl _) henter
      rcases leaf_eq_ok hleaf with ⟨rfl, _, hlocation, _, hcase⟩
      constructor
      · rw [hlocation]
        exact hplace'.left
      · rcases hcase with ⟨projection, hprojection, _, hstride, _⟩ | ⟨_, hstride, _⟩
        · rw [hstride]
          exact hplace'.right projection hprojection
        · rw [hstride]
          exact Nat.dvd_refl _
  | @nested type inner place place' segment rest field name _ _ hfield hkind hinner
      hselect henter _ ih =>
      have hmem := (RecordType.field?_eq_some hfield).left
      have hinnerMem := (Schema.record?_eq_some hinner).left
      rcases hbuilt.record_field htype hmem hkind hinner with ⟨_, hoffset, halign⟩
      rcases hbuilt.exists_declaration hinnerMem with ⟨_, _, hlaidOut⟩
      exact ih hinnerMem (hplace.enter halign hoffset hlaidOut.align_dvd_size henter)

theorem Leads.scalar (hbuilt : schema.BuiltFrom declarations aliases) {target : Target}
    {type : RecordType} {place : Place} {path : Path} {location : Location}
    (h : Leads schema target type place path location) (htype : type ∈ schema.records) :
    (exists scalar, location.kind = .scalar scalar ∧
        location.elementSize = scalar.size) ∧
      (location.text = true -> location.field.isText = true ∧ location.count = 1) := by
  induction h with
  | @leaf type place place' segment field scalar _ _ hfield hkind hselect henter hleaf =>
      have hmem := (RecordType.field?_eq_some hfield).left
      rcases leaf_eq_ok hleaf with ⟨rfl, _, _, htext, hcase⟩
      refine ⟨⟨scalar, hkind, (hbuilt.scalar_field htype hmem hkind).left⟩, ?_⟩
      intro h
      rw [htext, decide_eq_true_eq] at h
      subst h
      refine ⟨select_text hselect, ?_⟩
      rcases hcase with ⟨_, _, hne, _⟩ | ⟨_, _, hcount⟩
      · exact absurd rfl hne
      · exact hcount
  | nested hfield hkind hinner hselect henter _ ih =>
      exact ih (Schema.record?_eq_some hinner).left

theorem Leads.target_eq {target : Target} {type : RecordType} {place : Place}
    {path : Path} {location : Location}
    (h : Leads schema target type place path location) : location.target = target := by
  induction h with
  | leaf _ _ _ _ hleaf =>
      exact (leaf_eq_ok hleaf).right.left
  | nested _ _ _ _ _ _ ih =>
      exact ih

theorem Leads.offset_le {target : Target} {type : RecordType} {place : Place}
    {path : Path} {location : Location}
    (h : Leads schema target type place path location) :
    place.offset ≤ location.offset := by
  induction h with
  | leaf _ _ _ henter hleaf =>
      have hoffset := (enter_eq_ok henter).left
      have hlocation := (leaf_eq_ok hleaf).right.right.left
      omega
  | nested _ _ _ _ henter _ ih =>
      have hoffset := (enter_eq_ok henter).left
      omega

/-!
## The header of an extension

A field of the header is no array, so a walk that ends there addresses it alone.
-/

theorem leaf_of_header {target : Target} {place' : Place} {field : Field}
    {segment : Segment} {selection : Selection} {location : Location} {owner : String}
    (hfield : field ∈ Layout.headerFields owner)
    (hselect : select field segment = .ok selection)
    (henter : enter { offset := 0, projection := none } field field.size segment selection =
      .ok place')
    (hleaf : leaf target place' field segment selection = .ok location) :
    location.offset = field.offset ∧ location.count = 1 := by
  have hshape : field.shape = [] := by
    simp only [Layout.headerFields, List.mem_cons, List.not_mem_nil, or_false] at hfield
    rcases hfield with rfl | rfl <;> rfl
  have hsingle : selection = .single := by
    unfold select at hselect
    simp only [Field.isArray, hshape] at hselect
    split at hselect <;> simp_all [refuse]
  subst hsingle
  cases henter
  rcases leaf_eq_ok hleaf with ⟨_, _, hoffset, _, ⟨_, hprojection, _⟩ | ⟨_, _, hcount⟩⟩
  · cases hprojection
  · exact ⟨by simpa using hoffset, hcount⟩

/-- What is addressed in an extension stands behind its header, or is one of the two fields
of the header. -/
theorem Leads.header (hbuilt : schema.BuiltFrom declarations aliases) {target : Target}
    {type : RecordType} {path : Path} {location : Location} {tag : Tag}
    (h : Leads schema target type { offset := 0, projection := none } path location)
    (htype : type ∈ schema.records) (hrole : type.role = .extension tag) :
    Layout.headerSize ≤ location.offset ∨
      location.field ∈ Layout.headerFields type.name ∧
        location.offset = location.field.offset ∧ location.count = 1 := by
  rcases hbuilt.exists_declaration htype with ⟨_, _, hlaidOut⟩
  rcases hlaidOut.header tag hrole with ⟨body, hfields, hbody⟩
  cases h with
  | @leaf _ _ place' segment field scalar selection _ hfield hkind hselect henter hleaf =>
      have hmem := (RecordType.field?_eq_some hfield).left
      rcases leaf_eq_ok hleaf with ⟨hsame, _, hoffset, _, _⟩
      rw [hfields] at hmem
      rcases List.mem_append.mp hmem with hheader | hmem
      · rw [hsame]
        exact Or.inr ⟨hheader, leaf_of_header hheader hselect henter hleaf⟩
      · have hbehind := hbody field hmem
        have henters := (enter_eq_ok henter).left
        dsimp only at henters
        exact Or.inl (by omega)
  | @nested _ inner _ place' segment rest field name selection _ hfield hkind hinner hselect
      henter hleads =>
      have hmem := (RecordType.field?_eq_some hfield).left
      rw [hfields] at hmem
      -- The fields of the header are words, so a walk goes on only through the body.
      rcases List.mem_append.mp hmem with hheader | hmem
      · simp only [Layout.headerFields, List.mem_cons, List.not_mem_nil, or_false] at hheader
        rcases hheader with rfl | rfl <;> cases hkind
      · have hbehind := hbody field hmem
        have henters := (enter_eq_ok henter).left
        have hle := hleads.offset_le
        dsimp only at henters
        exact Or.inl (by omega)

/-!
## Locations of paths

The location of a path is well placed in the record type of its target, and the target of an
extension carries the size of that type.
-/

/-- What is known of a location in a record type: the elements are scalars inside of the
record, each at a multiple of its size and no two over each other. A text is one element
that takes its whole array, which may have no bytes. -/
structure WellPlaced (location : Location) (type : RecordType) : Prop where
  scalar : exists scalar, location.kind = .scalar scalar ∧
    location.elementSize = scalar.size
  inside : forall i, i < location.count ->
    (location.text = true -> 0 < location.capacity) ->
      location.elementOffset i + location.elementSize ≤ type.size
  aligned : forall i, i < location.count -> location.elementSize ∣ location.elementOffset i
  spaced : forall i j, i < j -> j < location.count ->
    location.elementOffset i + location.elementSize ≤ location.elementOffset j
  text : location.text = true ->
    location.count = 1 ∧ location.offset + location.capacity ≤ type.size
  header : forall tag, type.role = .extension tag ->
    Layout.headerSize ≤ location.offset ∨
      location.field ∈ Layout.headerFields type.name ∧
        location.offset = location.field.offset ∧ location.count = 1

theorem spaced_buffer (size : Nat) :
    (Place.region { offset := 0, projection := none } size).Spaced := by
  intro i j hij hj
  have hone : j < 1 := hj
  omega

theorem Start.LeadsTo.wellPlaced (hbuilt : schema.BuiltFrom declarations aliases)
    {origin : Start} {location : Location} (h : origin.LeadsTo schema location)
    (hrooted : origin.Rooted schema) : location.WellPlaced origin.type := by
  have htype := hrooted.type_mem hbuilt
  have hrefines := Leads.refines hbuilt h htype
  have hscalar := Leads.scalar hbuilt h htype
  have haligned := Leads.aligned hbuilt h htype
    ⟨Nat.dvd_zero _, by simp⟩
  -- The buffer starts at zero and is as long as its record type.
  have hstop : forall i, i < location.count ->
      location.elementOffset i + location.capacity ≤ origin.type.size := by
    intro i hi
    rcases hrefines.inside i hi with ⟨j, hj, _, hstop⟩
    simpa [Region.stop, Region.start, Place.region, region, elementOffset] using hstop
  constructor
  · exact hscalar.left
  · intro i hi hne
    have h := hstop i hi
    cases htext : location.text with
    | false =>
        rwa [capacity_of_elements htext] at h
    | true =>
        exact Nat.le_trans
          (Nat.add_le_add_left (elementSize_le_capacity (hne htext)) _) h
  · intro i _
    exact Nat.dvd_add haligned.left (Nat.dvd_trans haligned.right (Nat.dvd_mul_left _ _))
  · intro i j hij hj
    cases htext : location.text with
    | false =>
        have h := hrefines.spaced (spaced_buffer _) i j hij hj
        rw [← capacity_of_elements htext]
        exact h
    | true =>
        have hone := (hscalar.right htext).right
        omega
  · intro htext
    have hone := (hscalar.right htext).right
    have h := hstop 0 (by omega)
    simp only [elementOffset, Nat.zero_mul, Nat.add_zero] at h
    exact ⟨hone, h⟩
  · intro tag hrole
    exact Leads.header hbuilt h htype hrole

theorem wellPlaced_of_resolve (hbuilt : schema.BuiltFrom declarations aliases)
    {path : String} {location : Location} (h : resolve schema path = .ok location) :
    exists type, schema.bufferType? location.target = some type ∧
      location.WellPlaced type ∧
      forall tag name size selector,
        location.target = .extension tag name size selector -> size = type.size := by
  rcases resolve_eq_ok.mp h with ⟨origin, horigin, hleads⟩
  have hrooted := rooted_of_origin? hbuilt horigin
  have htarget : location.target = origin.target := Leads.target_eq hleads
  refine ⟨origin.type, ?_, hleads.wellPlaced hbuilt hrooted, ?_⟩
  · rw [htarget]
    exact hrooted.type_eq
  · intro tag name size selector heq
    exact (hrooted.named tag name size selector (htarget.symm.trans heq)).right

theorem text_eq_false_of_resolve (hbuilt : schema.BuiltFrom declarations aliases)
    {path : String} {location : Location} (h : resolve schema path = .ok location)
    (hkind : location.kind ≠ .char) : location.text = false := by
  rcases resolve_eq_ok.mp h with ⟨origin, horigin, hleads⟩
  have htype := (rooted_of_origin? hbuilt horigin).type_mem hbuilt
  cases htext : location.text with
  | false =>
      rfl
  | true =>
      have htexts := ((Leads.scalar hbuilt hleads htype).right htext).left
      rw [Field.isText, Bool.and_eq_true, decide_eq_true_eq] at htexts
      exact absurd htexts.left hkind

end Location
end VideoConfig
