import VideoConfig.Proofs.Location.Bounds

/-!
# Elements of an array that is addressed as a whole

A walk that addresses an array as a whole reaches all of its elements at once, as a text or
one stride apart. The walk that has indexes in the place of the whole array reaches a single
one of them, as many strides behind the first one as its position in the array says.
-/

namespace VideoConfig

def Segment.indexed (segment : Segment) (indexes : List Nat) : Segment :=
  { segment with index := some (.element indexes) }

namespace Location

def fieldAt? (schema : Schema) : RecordType -> (before : Path) -> Segment -> Option Field
  | type, [], segment => type.field? segment.name
  | type, first :: rest, segment => do
      let field ← type.field? first.name
      match field.kind with
      | .scalar _ => none
      | .record name => fieldAt? schema (← schema.record? name) rest segment

def Whole (field : Field) (segment : Segment) : Prop :=
  field.isArray = true ∧ (segment.index = none ∨ segment.index = some .all)

/-- A location that is one element of another one, at a position in the array that the other
one addresses as a whole. -/
structure ElementOf (whole element : Location) (position : Nat) : Prop where
  field : element.field = whole.field
  target : element.target = whole.target
  count : element.count = 1
  text : element.text = false
  offset : element.offset = whole.offset + position * whole.stride

/-- What a location addresses of an array that its path addresses as a whole: every element,
or the characters of a text. -/
structure Spans (whole : Location) (field : Field) : Prop where
  elements : whole.text = false -> whole.count = field.count
  characters : whole.text = true -> whole.kind = .char ∧ whole.stride = 1

variable {schema : Schema} {target : Target} {declarations : List Declaration}
  {aliases : List (String × String)}

/-!
## Selecting one element
-/

theorem select_indexed {field : Field} {segment : Segment} {indexes : List Nat}
    (harray : field.isArray = true) :
    select field (segment.indexed indexes) = .ok (.element indexes) := by
  unfold select Segment.indexed
  rw [harray]

theorem select_eq_whole {field : Field} {segment : Segment} {selection : Selection}
    (hwhole : Whole field segment) (h : select field segment = .ok selection) :
    selection = if field.isText then .text else .each := by
  unfold select at h
  rcases hwhole with ⟨harray, hindex | hindex⟩ <;> rw [harray, hindex] at h <;> cases h <;> rfl

theorem enter_of_inShape {place : Place} {field : Field} {element : Nat} {segment : Segment}
    {indexes : List Nat} (h : InShape indexes field.shape) :
    enter place field element segment (.element indexes) =
      .ok { place with
        offset := place.offset + field.offset + element * positionIn indexes field.shape } :=
  bind_eq_ok.mpr ⟨_, linearIndex_eq_ok.mpr ⟨h, rfl⟩, rfl⟩

theorem enter_each_eq_ok {place place' : Place} {field : Field} {element : Nat}
    {segment : Segment} :
    enter place field element segment .each = .ok place' <->
      place.projection = none ∧ place' = {
        offset := place.offset + field.offset
        projection := some { stride := element, count := field.count } } := by
  dsimp only [enter]
  cases place.projection with
  | none =>
      simp [eq_comm]
  | some projection =>
      simp [refuse]

/-!
## Walks below a projection

A step below a projection keeps it, and can be made without it from any other offset.
-/

theorem enter_unprojected {place place' : Place} {field : Field} {element : Nat}
    {segment : Segment} {selection : Selection} {projection : Projection}
    (h : enter place field element segment selection = .ok place')
    (hprojection : place.projection = some projection) (offset : Nat) :
    place'.projection = some projection ∧
      exists entered, enter { offset, projection := none } field element segment selection =
          .ok { offset := entered, projection := none } ∧
        entered + place.offset = place'.offset + offset := by
  cases selection with
  | single =>
      cases h
      exact ⟨hprojection, offset + field.offset, rfl, by dsimp only; omega⟩
  | text =>
      cases h
      exact ⟨hprojection, offset + field.offset, rfl, by dsimp only; omega⟩
  | each =>
      dsimp only [enter] at h
      rw [hprojection] at h
      cases h
  | element indexes =>
      rcases bind_eq_ok.mp h with ⟨position, hposition, hplace⟩
      rw [← pure_eq_ok.mp hplace]
      refine ⟨hprojection, offset + field.offset + element * position, ?_, ?_⟩
      · exact bind_eq_ok.mpr ⟨position, hposition, rfl⟩
      · dsimp only
        omega

/-- Below an array that is addressed as a whole no other is. Without the projection the same
walk leads to a single element. -/
theorem Leads.unprojected {type : RecordType} {place : Place} {path : Path}
    {location : Location} (h : Leads schema target type place path location)
    {projection : Projection} (hprojection : place.projection = some projection)
    (offset : Nat) :
    location.text = false ∧ location.stride = projection.stride ∧
      location.count = projection.count ∧
      exists element, Leads schema target type { offset, projection := none } path element ∧
        element.field = location.field ∧ element.target = location.target ∧
        element.count = 1 ∧ element.text = false ∧
        element.offset + place.offset = location.offset + offset := by
  -- Both walks make the same steps, and so keep their distance.
  induction h generalizing offset with
  | @leaf type place place' segment field scalar selection location hfield hkind hselect henter
      hleaf =>
      rcases enter_unprojected henter hprojection offset with ⟨hkept, entered, hentered, hoffset⟩
      rcases leaf_eq_ok hleaf with ⟨hsame, htarget, hplace, htext, hcase⟩
      rcases hcase with ⟨projection', hprojection', hne, hstride, hcount⟩ | ⟨hnone, _⟩
      · cases hkept.symm.trans hprojection'
        have hnotText : location.text = false := by
          rw [htext]
          exact decide_eq_false hne
        refine ⟨hnotText, hstride, hcount, _, Leads.leaf hfield hkind hselect hentered rfl,
          hsame.symm, htarget.symm, rfl, decide_eq_false hne, ?_⟩
        rw [hplace]
        exact hoffset
      · rw [hkept] at hnone
        cases hnone
  | @nested type inner place place' segment rest field name selection location hfield hkind
      hinner hselect henter _ ih =>
      rcases enter_unprojected henter hprojection offset with ⟨hkept, entered, hentered, hoffset⟩
      rcases ih hkept entered with ⟨htext, hstride, hcount, element, hleads, hsame, htarget,
        hone, hchar, hshift⟩
      refine ⟨htext, hstride, hcount, element,
        Leads.nested hfield hkind hinner hselect hentered hleads, hsame, htarget, hone, hchar, ?_⟩
      omega

/-!
## Walks through the array

All but the last step of a walk go through nested records. With indexes in the place of the
whole array the walk that spans it leads to an element, and they lie in its shape.
-/

theorem Leads.exists_nested {type : RecordType} {place : Place} {first : Segment} {rest : Path}
    {location : Location} (h : Leads schema target type place (first :: rest) location)
    (hne : rest ≠ []) :
    exists field name inner selection place', type.field? first.name = some field ∧
      field.kind = .record name ∧ schema.record? name = some inner ∧
      select field first = .ok selection ∧
      enter place field inner.size first selection = .ok place' ∧
      Leads schema target inner place' rest location := by
  cases h with
  | leaf =>
      exact absurd rfl hne
  | nested hfield hkind hinner hselect henter hrest =>
      exact ⟨_, _, _, _, _, hfield, hkind, hinner, hselect, henter, hrest⟩

theorem leaf_whole (hbuilt : schema.BuiltFrom declarations aliases)
    {type : RecordType} (htype : type ∈ schema.records) {place place' : Place} {field : Field}
    {scalar : Scalar} {segment : Segment} {selection : Selection} {location : Location}
    (hmem : field ∈ type.fields) (hkind : field.kind = .scalar scalar)
    (hwhole : Whole field segment) (hselect : select field segment = .ok selection)
    (henter : enter place field field.size segment selection = .ok place')
    (hleaf : leaf target place' field segment selection = .ok location) :
    place.projection = none ∧ location.offset = place.offset + field.offset ∧
      location.stride = field.size ∧ location.Spans field := by
  rcases leaf_eq_ok hleaf with ⟨hsame, _, hoffset, htext, hcase⟩
  have hselection := select_eq_whole hwhole hselect
  cases hfieldText : field.isText with
  | true =>
      rw [hfieldText, if_pos rfl] at hselection
      subst hselection
      cases henter
      rcases hcase with ⟨_, _, hne, _⟩ | ⟨hnone, hstride, _⟩
      · exact absurd rfl hne
      have hchar : field.kind = .char := by
        have h := hfieldText
        unfold Field.isText at h
        rw [Bool.and_eq_true, decide_eq_true_eq] at h
        exact h.left
      have hsize : field.size = 1 := by
        rw [hkind] at hchar
        cases hchar
        exact (hbuilt.scalar_field htype hmem hkind).left
      refine ⟨hnone, hoffset, hstride, ?_, ?_⟩
      · intro hfalse
        rw [htext] at hfalse
        cases hfalse
      · intro _
        unfold kind
        rw [hsame]
        exact ⟨hchar, hstride.trans hsize⟩
  | false =>
      rw [hfieldText] at hselection
      subst hselection
      rcases enter_each_eq_ok.mp henter with ⟨hnone, rfl⟩
      rcases hcase with ⟨projection, hprojection, _, hstride, hcount⟩ | ⟨hprojection, _⟩
      · cases hprojection
        refine ⟨hnone, hoffset, hstride, fun _ => hcount, ?_⟩
        intro htrue
        rw [htext] at htrue
        cases htrue
      · cases hprojection

theorem exists_element_leaf (hbuilt : schema.BuiltFrom declarations aliases)
    {type : RecordType} (htype : type ∈ schema.records) {place place' : Place} {field : Field}
    {scalar : Scalar} {segment : Segment} {selection : Selection} {location : Location}
    (hfield : type.field? segment.name = some field) (hkind : field.kind = .scalar scalar)
    (hwhole : Whole field segment) (hselect : select field segment = .ok selection)
    (henter : enter place field field.size segment selection = .ok place')
    (hleaf : leaf target place' field segment selection = .ok location) :
    location.Spans field ∧ forall indexes, InShape indexes field.shape ->
      exists element, Leads schema target type place [segment.indexed indexes] element ∧
        ElementOf location element (positionIn indexes field.shape) := by
  rcases leaf_eq_ok hleaf with ⟨hsame, htarget, _, _, _⟩
  rcases leaf_whole hbuilt htype (RecordType.field?_eq_some hfield).left hkind hwhole hselect
    henter hleaf with ⟨hnone, hstart, hstride, hspans⟩
  refine ⟨hspans, ?_⟩
  intro indexes hindexes
  let entered : Place :=
    { offset := place.offset + field.offset + field.size * positionIn indexes field.shape
      projection := none }
  have hentered : enter place field field.size (segment.indexed indexes) (.element indexes) =
      .ok entered := by
    rw [enter_of_inShape hindexes, hnone]
  refine ⟨_, Leads.leaf hfield hkind (select_indexed hwhole.left) hentered rfl, hsame.symm,
    htarget.symm, rfl, rfl, ?_⟩
  dsimp only [entered]
  rw [hstart, hstride, Nat.mul_comm]

theorem Leads.exists_element (hbuilt : schema.BuiltFrom declarations aliases)
    {before after : Path} {segment : Segment} {type : RecordType} {place : Place}
    {location : Location} {field : Field}
    (h : Leads schema target type place (before ++ segment :: after) location)
    (htype : type ∈ schema.records) (hfield : fieldAt? schema type before segment = some field)
    (hwhole : Whole field segment) :
    location.Spans field ∧ forall indexes, InShape indexes field.shape ->
      exists element,
        Leads schema target type place (before ++ segment.indexed indexes :: after) element ∧
          ElementOf location element (positionIn indexes field.shape) := by
  induction before generalizing type place with
  | nil =>
      rw [List.nil_append] at h
      cases h with
      | leaf hfound hkind hselect henter hleaf =>
          cases hfield.symm.trans hfound
          exact exists_element_leaf hbuilt htype hfound hkind hwhole hselect henter hleaf
      | @nested _ inner _ _ _ _ _ _ _ _ hfound hkind hinner hselect henter hrest =>
          cases hfield.symm.trans hfound
          have hnotText : field.isText = false := by
            simp [Field.isText, hkind]
          have hselection := select_eq_whole hwhole hselect
          rw [hnotText] at hselection
          subst hselection
          rcases enter_each_eq_ok.mp henter with ⟨hnone, rfl⟩
          -- The walk below the records is one below a single record at any other offset.
          have hbelow := hrest.unprojected rfl
          constructor
          · constructor
            · intro _
              exact (hbelow 0).right.right.left
            · intro htrue
              rw [(hbelow 0).left] at htrue
              cases htrue
          · intro indexes hindexes
            rcases hbelow (place.offset + field.offset +
                inner.size * positionIn indexes field.shape) with
              ⟨_, hstride, _, element, hleads, hsame, htarget, hone, htext, hoffset⟩
            refine ⟨element, Leads.nested hfound hkind hinner (select_indexed hwhole.left) ?_
              hleads, hsame, htarget, hone, htext, ?_⟩
            · rw [enter_of_inShape hindexes, hnone]
            · dsimp only at hoffset hstride
              rw [hstride, Nat.mul_comm]
              omega
  | cons first before ih =>
      rw [List.cons_append] at h
      rcases h.exists_nested (by simp) with
        ⟨_, _, inner, _, _, hfound, hkind, hinner, hselect, henter, hrest⟩
      simp only [fieldAt?, hfound, hkind, hinner, Option.bind_eq_bind, Option.bind_some] at hfield
      rcases ih hrest (Schema.record?_eq_some hinner).left hfield with ⟨hspans, helements⟩
      refine ⟨hspans, ?_⟩
      intro indexes hindexes
      rcases helements indexes hindexes with ⟨element, hleads, helement⟩
      exact ⟨element, Leads.nested hfound hkind hinner hselect henter hleads, helement⟩

theorem Leads.inShape {before after : Path} {segment : Segment} {type : RecordType}
    {place : Place} {location : Location} {field : Field} {indexes : List Nat}
    (h : Leads schema target type place (before ++ segment.indexed indexes :: after) location)
    (hfield : fieldAt? schema type before segment = some field)
    (harray : field.isArray = true) : InShape indexes field.shape := by
  have hentered : forall {place place' : Place} {element : Nat} {selection : Selection},
      select field (segment.indexed indexes) = .ok selection ->
        enter place field element (segment.indexed indexes) selection = .ok place' ->
          InShape indexes field.shape := by
    intro place place' element selection hselect henter
    cases hselect.symm.trans (select_indexed harray)
    exact (enter_eq_ok henter).right.right indexes rfl
  induction before generalizing type place with
  | nil =>
      cases h with
      | leaf hfound _ hselect henter _ =>
          cases hfield.symm.trans hfound
          exact hentered hselect henter
      | nested hfound _ _ hselect henter _ =>
          cases hfield.symm.trans hfound
          exact hentered hselect henter
  | cons first before ih =>
      rw [List.cons_append] at h
      rcases h.exists_nested (by simp) with ⟨_, _, inner, _, _, hfound, hkind, hinner, _, _, hrest⟩
      simp only [fieldAt?, hfound, hkind, hinner, Option.bind_eq_bind, Option.bind_some] at hfield
      exact ih hrest hfield

end Location
end VideoConfig
