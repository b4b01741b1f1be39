import VideoConfig.Proofs.Attempt
import VideoConfig.Proofs.Location.Indexes
import VideoConfig.Proofs.Location.Region

/-!
# Walks from records to leaves

A path that resolves is a walk from a record down to a leaf. Every step selects a field and
enters it; the relation `Leads` has one rule for a step into a nested record and one for
the last step, and holds exactly of the walks that `follow` completes.
-/

namespace VideoConfig
namespace Location

/-!
## Selecting elements

What is selected has a position among the elements of the field, and an extent in bytes.
Only arrays of bytes of text are selected as texts, so no record is.
-/

def Selection.position (field : Field) : Selection -> Nat
  | .element indexes => positionIn indexes field.shape
  | _ => 0

def Selection.extent (field : Field) (element : Nat) : Selection -> Nat
  | .text => element * field.count
  | _ => element

theorem Selection.extent_of_ne_text {field : Field} {element : Nat}
    {selection : Selection} (h : selection ≠ .text) :
    selection.extent field element = element := by
  cases selection with
  | text =>
      exact absurd rfl h
  | single =>
      rfl
  | each =>
      rfl
  | element indexes =>
      rfl

theorem select_single {field : Field} {segment : Segment}
    (h : select field segment = .ok .single) : field.shape = [] := by
  unfold select at h
  split at h
  · next harray _ =>
      simpa [Field.isArray] using harray
  · cases h
  · cases h
  · split at h <;> cases h

theorem select_text {field : Field} {segment : Segment}
    (h : select field segment = .ok .text) : field.isText = true := by
  unfold select at h
  split at h
  · cases h
  · cases h
  · cases h
  · split at h
    · next htext =>
        exact htext
    · cases h

theorem select_ne_text_of_record {field : Field} {segment : Segment}
    {selection : Selection} {name : String} (hkind : field.kind = .record name)
    (h : select field segment = .ok selection) : selection ≠ .text := by
  rintro rfl
  have htext := select_text h
  simp [Field.isText, hkind] at htext

/-!
## Entering fields

What is entered are elements of the field in the records at the place, and a part of these
lies inside of them.
-/

/-- A field is entered at its first selected element. The place keeps its projection,
unless every element is selected, and then there was none before. -/
theorem enter_eq_ok {place place' : Place} {field : Field} {element : Nat}
    {segment : Segment} {selection : Selection}
    (h : enter place field element segment selection = .ok place') :
    place'.offset = place.offset + field.offset + element * selection.position field ∧
      (selection = .each ∧ place.projection = none ∧
          place'.projection = some { stride := element, count := field.count } ∨
        selection ≠ .each ∧ place'.projection = place.projection) ∧
      forall indexes, selection = .element indexes -> InShape indexes field.shape := by
  cases selection with
  | single =>
      cases h
      exact ⟨rfl, Or.inr ⟨by simp, rfl⟩, by simp⟩
  | text =>
      cases h
      exact ⟨rfl, Or.inr ⟨by simp, rfl⟩, by simp⟩
  | each =>
      dsimp only [enter] at h
      split at h
      · cases h
      · next hprojection =>
          cases h
          exact ⟨rfl, Or.inl ⟨rfl, hprojection, rfl⟩, by simp⟩
  | element indexes =>
      rcases bind_eq_ok.mp h with ⟨position, hposition, hplace⟩
      rcases linearIndex_eq_ok.mp hposition with ⟨hshape, rfl⟩
      rw [← pure_eq_ok.mp hplace]
      refine ⟨rfl, Or.inr ⟨by simp, rfl⟩, ?_⟩
      intro indexes' heq
      cases heq
      exact hshape

theorem position_add_extent_le {place place' : Place} {field : Field} {element : Nat}
    {segment : Segment} {selection : Selection}
    (hselect : select field segment = .ok selection) (hne : selection ≠ .each)
    (h : enter place field element segment selection = .ok place') :
    element * selection.position field + selection.extent field element ≤
      element * field.count := by
  cases selection with
  | single =>
      simp [Selection.position, Selection.extent, Field.count, select_single hselect,
        elementCount]
  | text =>
      simp [Selection.position, Selection.extent]
  | each =>
      exact absurd rfl hne
  | element indexes =>
      have hshape := (enter_eq_ok h).right.right indexes rfl
      exact Region.row_stop_le (positionIn_lt hshape)

theorem enter_refines_part {place place' : Place} {field : Field} {element : Nat}
    {segment : Segment} {selection : Selection}
    (hselect : select field segment = .ok selection)
    (h : enter place field element segment selection = .ok place') :
    (place'.region (selection.extent field element)).Refines
      (place.part field.offset (element * field.count)) := by
  rcases enter_eq_ok h with ⟨hoffset, hprojection, _⟩
  rcases hprojection with ⟨rfl, hnone, hsome⟩ | ⟨hne, hkeep⟩
  · refine Region.refines_of_row 0 ?_ ?_ ?_ ?_
    · rw [Place.region, Place.part, hoffset]
      rfl
    · rw [Place.region, hsome]
      rfl
    · rw [Place.part, Place.region, hnone]
      exact Nat.one_pos
    · rw [Place.region, hsome, Nat.zero_add]
      exact Nat.le_refl _
  · have hextent := position_add_extent_le hselect hne h
    refine Region.refines_of_shift (element * selection.position field) ?_ ?_ ?_ hextent
    · exact hoffset
    · rw [Place.region, Place.part, Place.region, hkeep]
    · rw [Place.region, Place.part, Place.region, hkeep]

theorem part_refines {place : Place} {shift part size : Nat} (h : shift + part ≤ size) :
    (place.part shift part).Refines (place.region size) :=
  Region.refines_of_shift shift rfl rfl rfl h

theorem enter_refines {place place' : Place} {field : Field} {element size : Nat}
    {segment : Segment} {selection : Selection}
    (hselect : select field segment = .ok selection)
    (hsize : field.offset + element * field.count ≤ size)
    (h : enter place field element segment selection = .ok place') :
    (place'.region (selection.extent field element)).Refines (place.region size) :=
  (enter_refines_part hselect h).trans (part_refines hsize)

/-!
## Leaves

The location of a leaf takes over the projection of its place. A leaf below a projection is
no text.
-/

theorem leaf_eq_ok {target : Target} {place : Place} {field : Field} {segment : Segment}
    {selection : Selection} {location : Location}
    (h : leaf target place field segment selection = .ok location) :
    location.field = field ∧ location.target = target ∧
      location.offset = place.offset ∧ location.text = decide (selection = .text) ∧
      ((exists projection, place.projection = some projection ∧ selection ≠ .text ∧
          location.stride = projection.stride ∧ location.count = projection.count) ∨
        place.projection = none ∧ location.stride = field.size ∧ location.count = 1) := by
  dsimp only [leaf] at h
  split at h
  · cases h
  · next projection hprojection htext =>
      cases h
      exact ⟨rfl, rfl, rfl, rfl, Or.inl ⟨projection, hprojection, by simpa using htext, rfl,
        rfl⟩⟩
  · next hprojection =>
      cases h
      exact ⟨rfl, rfl, rfl, rfl, Or.inr ⟨hprojection, rfl, rfl⟩⟩

theorem leaf_refines {target : Target} {place : Place} {field : Field}
    {segment : Segment} {selection : Selection} {location : Location}
    (h : leaf target place field segment selection = .ok location) :
    location.region.Refines (place.region (selection.extent field field.size)) := by
  rcases leaf_eq_ok h with ⟨hfield, _, hoffset, htext, hcase⟩
  have hcapacity : location.capacity = selection.extent field field.size := by
    unfold capacity
    rw [htext, hfield]
    cases selection <;> rfl
  rcases hcase with ⟨projection, hprojection, _, hstride, hcount⟩ | ⟨hnone, _, hcount⟩
  · have hregion : location.region =
        place.region (selection.extent field field.size) := by
      simp [region, Place.region, hoffset, hstride, hcount, hcapacity, hprojection]
    rw [hregion]
    exact Region.Refines.refl _
  · constructor
    · intro i hi
      have hzero : i = 0 := by
        simp only [region, hcount] at hi
        omega
      refine ⟨0, by simp [Place.region, hnone], ?_, ?_⟩
      · simp [Region.start, region, Place.region, hoffset]
      · simp [Region.stop, Region.start, region, Place.region, hoffset, hcapacity, hzero]
    · intro _ i j hij hj
      simp only [region, hcount] at hj
      omega

/-!
## Walks
-/

/-- The walks that lead from records at a place to the location of a leaf. -/
inductive Leads (schema : Schema) (target : Target) :
    RecordType -> Place -> Path -> Location -> Prop where
  | leaf {type : RecordType} {place place' : Place} {segment : Segment} {field : Field}
      {scalar : Scalar} {selection : Selection} {location : Location} :
      type.field? segment.name = some field ->
      field.kind = .scalar scalar ->
      select field segment = .ok selection ->
      enter place field field.size segment selection = .ok place' ->
      leaf target place' field segment selection = .ok location ->
      Leads schema target type place [segment] location
  | nested {type inner : RecordType} {place place' : Place} {segment : Segment}
      {rest : Path} {field : Field} {name : String} {selection : Selection}
      {location : Location} :
      type.field? segment.name = some field ->
      field.kind = .record name ->
      schema.record? name = some inner ->
      select field segment = .ok selection ->
      enter place field inner.size segment selection = .ok place' ->
      Leads schema target inner place' rest location ->
      Leads schema target type place (segment :: rest) location

theorem Leads.ne_nil {schema : Schema} {target : Target} {type : RecordType}
    {place : Place} {path : Path} {location : Location}
    (h : Leads schema target type place path location) : path ≠ [] := by
  cases h <;> simp

theorem follow_eq_ok {schema : Schema} {target : Target} {type : RecordType}
    {place : Place} {path : Path} {location : Location} :
    follow schema target type place path = .ok location <->
      Leads schema target type place path location := by
  constructor
  · intro h
    induction path generalizing type place with
    | nil =>
        cases h
    | cons segment rest ih =>
        unfold follow at h
        split at h
        · cases h
        · next field hfield =>
            split at h
            · next name hkind =>
                split at h
                · cases h
                · next inner hinner =>
                    split at h
                    · cases h
                    · rcases bind_eq_ok.mp h with ⟨selection, hselect, h⟩
                      rcases bind_eq_ok.mp h with ⟨place', henter, h⟩
                      exact Leads.nested hfield hkind hinner hselect henter (ih h)
            · next scalar hkind =>
                split at h
                · cases h
                · next hrest =>
                    rw [Classical.not_not.mp hrest]
                    rcases bind_eq_ok.mp h with ⟨selection, hselect, h⟩
                    rcases bind_eq_ok.mp h with ⟨place', henter, h⟩
                    exact Leads.leaf hfield hkind hselect henter h
  · intro h
    induction h with
    | leaf hfield hkind hselect henter hleaf =>
        rw [follow, hfield]
        simp only [hkind]
        rw [if_neg (by simp), hselect]
        exact bind_eq_ok.mpr ⟨_, rfl, bind_eq_ok.mpr ⟨_, henter, hleaf⟩⟩
    | nested hfield hkind hinner hselect henter hleads ih =>
        rw [follow, hfield]
        simp only [hkind, hinner]
        rw [if_neg hleads.ne_nil, hselect]
        exact bind_eq_ok.mpr ⟨_, rfl, bind_eq_ok.mpr ⟨_, henter, ih⟩⟩

end Location
end VideoConfig
