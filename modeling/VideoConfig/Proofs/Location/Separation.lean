import VideoConfig.Proofs.Location.Bounds

/-!
# Walks that part

Two walks in records of one type keep to the same fields for a while. Then they enter two
fields that no overlay puts above each other, or two elements of one field. From there on
they stay apart, whatever else is selected before or behind.
-/

namespace VideoConfig

/-!
## Parts of records

Parts that do not meet in one record do not meet in records that are the same or apart. Two
walks that enter the same field reach such records again.
-/

namespace Location

theorem apart_of_meshes {first second : Place} {size shift shift' part part' : Nat}
    (h : (first.region size).Meshes (second.region size)) (hfirst : shift + part ≤ size)
    (hsecond : shift' + part' ≤ size)
    (hapart : shift + part ≤ shift' ∨ shift' + part' ≤ shift) :
    (first.part shift part).Apart (second.part shift' part') := by
  intro i j hi hj
  have hmeshes := h i j hi hj
  simp only [Region.start, Region.stop, Place.region, Place.part] at hmeshes ⊢
  omega

theorem enter_start (size : Nat) {place place' : Place} {field : Field} {element : Nat}
    {segment : Segment} {selection : Selection}
    (hselect : select field segment = .ok selection) (htext : selection ≠ .text)
    (h : enter place field element segment selection = .ok place') {b : Nat}
    (hb : b < (place'.region element).count) :
    exists i position, i < (place.region size).count ∧ position < field.count ∧
      (place'.region element).start b =
        (place.region size).start i + field.offset + element * position := by
  rcases enter_eq_ok h with ⟨hoffset, hprojection, hindexes⟩
  rcases hprojection with ⟨rfl, hnone, hsome⟩ | ⟨hne, hkeep⟩
  · have hcount : b < field.count := by
      simpa [Place.region, hsome] using hb
    refine ⟨0, b, ?_, hcount, ?_⟩
    · simp [Place.region, hnone]
    · simp only [Region.start, Place.region, hsome, hoffset, Selection.position,
        Option.map_some, Option.getD_some, Nat.mul_comm b]
      omega
  · have hposition : selection.position field < field.count := by
      cases selection with
      | single =>
          rw [Field.count, select_single hselect]
          exact Nat.one_pos
      | text =>
          exact absurd rfl htext
      | each =>
          exact absurd rfl hne
      | element indexes =>
          exact positionIn_lt (hindexes indexes rfl)
    refine ⟨b, selection.position field, ?_, hposition, ?_⟩
    · simpa [Place.region, hkeep] using hb
    · simp only [Region.start, Place.region, hkeep, hoffset]
      omega

theorem meshes_of_enter {first second first' second' : Place} {field : Field}
    {element size : Nat} {segment segment' : Segment} {selection selection' : Selection}
    (h : (first.region size).Meshes (second.region size))
    (hsize : field.offset + element * field.count ≤ size)
    (hselect : select field segment = .ok selection) (htext : selection ≠ .text)
    (henter : enter first field element segment selection = .ok first')
    (hselect' : select field segment' = .ok selection') (htext' : selection' ≠ .text)
    (henter' : enter second field element segment' selection' = .ok second') :
    (first'.region element).Meshes (second'.region element) := by
  intro b b' hb hb'
  rcases enter_start size hselect htext henter hb with ⟨i, p, hi, hp, hstart⟩
  rcases enter_start size hselect' htext' henter' hb' with ⟨j, q, hj, hq, hstart'⟩
  have hmeshes := h i j hi hj
  have hroom : element * p + element ≤ element * field.count := Region.row_stop_le hp
  have hroom' : element * q + element ≤ element * field.count := Region.row_stop_le hq
  have hsizes : (first.region size).size = size ∧ (second.region size).size = size :=
    ⟨rfl, rfl⟩
  have hsizes' : (first'.region element).size = element ∧
      (second'.region element).size = element := ⟨rfl, rfl⟩
  simp only [Region.stop, hstart, hstart', hsizes, hsizes'] at hmeshes ⊢
  -- In the same record the positions decide, and in others the records do.
  rcases Nat.lt_trichotomy p q with hlt | heq | hlt
  · have hstep : element * p + element ≤ element * q := Region.row_stop_le hlt
    omega
  · subst heq
    omega
  · have hstep : element * q + element ≤ element * p := Region.row_stop_le hlt
    omega

/-!
## First steps

A walk stays in what its first step enters, and goes on there if that is a nested record.
Elements of one field with different indexes do not meet.
-/

variable {schema : Schema} {declarations : List Declaration}
  {aliases : List (String × String)}

theorem Leads.first_step (hbuilt : schema.BuiltFrom declarations aliases) {target : Target}
    {type : RecordType} {place : Place} {segment : Segment} {rest : Path}
    {location : Location}
    (h : Leads schema target type place (segment :: rest) location)
    (htype : type ∈ schema.records) :
    exists field selection place', type.field? segment.name = some field ∧
      select field segment = .ok selection ∧
      enter place field field.size segment selection = .ok place' ∧
      location.region.Refines (place'.region (selection.extent field field.size)) := by
  cases h with
  | @leaf _ _ place' _ field scalar selection _ hfield hkind hselect henter hleaf =>
      exact ⟨field, selection, place', hfield, hselect, henter, leaf_refines hleaf⟩
  | @nested _ inner _ place' _ _ field name selection _ hfield hkind hinner hselect henter
      hleads =>
      have hmem := (RecordType.field?_eq_some hfield).left
      have hinnerMem := (Schema.record?_eq_some hinner).left
      have hsize := (hbuilt.record_field htype hmem hkind hinner).left
      rw [← hsize] at henter
      have hrefines := Leads.refines hbuilt hleads hinnerMem
      rw [← hsize] at hrefines
      refine ⟨field, selection, place', hfield, hselect, henter, ?_⟩
      rw [Selection.extent_of_ne_text (select_ne_text_of_record hkind hselect)]
      exact hrefines

theorem Leads.nested_step {target : Target} {type inner : RecordType} {place : Place}
    {segment : Segment} {rest : Path} {location : Location} {field : Field} {name : String}
    (h : Leads schema target type place (segment :: rest) location)
    (hfield : type.field? segment.name = some field) (hkind : field.kind = .record name)
    (hinner : schema.record? name = some inner) :
    exists selection place', select field segment = .ok selection ∧ selection ≠ .text ∧
      enter place field inner.size segment selection = .ok place' ∧
      Leads schema target inner place' rest location := by
  cases h with
  | leaf hfield' hkind' _ _ _ =>
      rw [hfield] at hfield'
      cases hfield'
      rw [hkind] at hkind'
      cases hkind'
  | @nested _ inner' _ place' _ _ field' name' selection _ hfield' hkind' hinner' hselect
      henter hleads =>
      rw [hfield] at hfield'
      cases hfield'
      rw [hkind] at hkind'
      cases hkind'
      rw [hinner] at hinner'
      cases hinner'
      exact ⟨selection, place', hselect, select_ne_text_of_record hkind hselect, henter,
        hleads⟩

theorem enter_element {place place' : Place} {field : Field} {element : Nat}
    {segment : Segment} {indexes : List Nat}
    (h : enter place field element segment (.element indexes) = .ok place') :
    InShape indexes field.shape ∧
      place'.region element =
        place.part (field.offset + element * positionIn indexes field.shape) element := by
  rcases enter_eq_ok h with ⟨hoffset, hprojection, hshape⟩
  refine ⟨hshape indexes rfl, ?_⟩
  rcases hprojection with ⟨heach, _⟩ | ⟨_, hkeep⟩
  · cases heach
  · rw [Place.region, Place.part, Place.region, hkeep, hoffset, Nat.add_assoc]
    rfl

theorem elements_apart {field : Field} (element : Nat) {first second : List Nat}
    (hfirst : InShape first field.shape) (hsecond : InShape second field.shape)
    (hne : first ≠ second) :
    element * positionIn first field.shape + element ≤
        element * positionIn second field.shape ∨
      element * positionIn second field.shape + element ≤
        element * positionIn first field.shape := by
  rcases Nat.lt_trichotomy (positionIn first field.shape) (positionIn second field.shape) with
    hlt | heq | hlt
  · exact Or.inl (Region.row_stop_le hlt)
  · exact absurd (positionIn_injective hfirst hsecond heq) hne
  · exact Or.inr (Region.row_stop_le hlt)

theorem select_of_index {field : Field} {segment : Segment} {selection : Selection}
    {indexes : List Nat} (hindex : segment.index = some (.element indexes))
    (h : select field segment = .ok selection) : selection = .element indexes := by
  unfold select at h
  rw [hindex] at h
  cases harray : field.isArray with
  | false =>
      rw [harray] at h
      cases h
  | true =>
      rw [harray] at h
      cases h
      rfl

end Location

/-!
## Parting

Walks that part in records that are the same or apart lead to regions that are apart.
-/

/-- Two paths in records of one type that part: after steps into the same fields, one goes
on to a field that no overlay puts above the field of the other, or both name one field
and select different elements of it. -/
inductive Parted (schema : Schema) (declarations : List Declaration) :
    RecordType -> Path -> Path -> Prop where
  | names {type : RecordType} {declaration : Declaration} {first second : Segment}
      {rest rest' : Path} :
      declaration ∈ declarations ->
      declaration.name = type.name ->
      first.name ≠ second.name ->
      Layout.entriesOverlay first.name second.name (Layout.fullEntries declaration) =
        false ->
      Parted schema declarations type (first :: rest) (second :: rest')
  | indexes {type : RecordType} {first second : Segment} {rest rest' : Path}
      {indexes indexes' : List Nat} :
      first.name = second.name ->
      first.index = some (.element indexes) ->
      second.index = some (.element indexes') ->
      indexes ≠ indexes' ->
      Parted schema declarations type (first :: rest) (second :: rest')
  | deeper {type inner : RecordType} {first second : Segment} {rest rest' : Path}
      {field : Field} {name : String} :
      first.name = second.name ->
      type.field? first.name = some field ->
      field.kind = .record name ->
      schema.record? name = some inner ->
      Parted schema declarations inner rest rest' ->
      Parted schema declarations type (first :: rest) (second :: rest')

namespace Location

variable {schema : Schema} {declarations : List Declaration}
  {aliases : List (String × String)}

theorem apart_of_parted (hbuilt : schema.BuiltFrom declarations aliases)
    {target target' : Target} {type : RecordType} {path path' : Path}
    (hparted : Parted schema declarations type path path') (htype : type ∈ schema.records)
    {place place' : Place} {location location' : Location}
    (hmeshes : (place.region type.size).Meshes (place'.region type.size))
    (h : Leads schema target type place path location)
    (h' : Leads schema target' type place' path' location') :
    location.region.Apart location'.region := by
  induction hparted generalizing place place' with
  | @names type declaration first second rest rest' hdeclaration hname hne hoverlay =>
      rcases h.first_step hbuilt htype with
        ⟨field, selection, entered, hfield, hselect, henter, hrefines⟩
      rcases h'.first_step hbuilt htype with
        ⟨field', selection', entered', hfield', hselect', henter', hrefines'⟩
      rcases RecordType.field?_eq_some hfield with ⟨hmem, hfieldName⟩
      rcases RecordType.field?_eq_some hfield' with ⟨hmem', hfieldName'⟩
      rw [← hfieldName, ← hfieldName'] at hne hoverlay
      -- The fields are apart in their record, and each walk stays in its field.
      have hapart := (hbuilt.laidOut_of_name hdeclaration htype hname).apart hmem hmem' hne
        hoverlay
      have hparts := apart_of_meshes hmeshes (hbuilt.seated htype hmem).le_stop
        (hbuilt.seated htype hmem').le_stop hapart
      exact hparts.refine (hrefines.trans (enter_refines_part hselect henter))
        (hrefines'.trans (enter_refines_part hselect' henter'))
  | @indexes type first second rest rest' indexes indexes' hname hindex hindex' hne =>
      rcases h.first_step hbuilt htype with
        ⟨field, selection, entered, hfield, hselect, henter, hrefines⟩
      rcases h'.first_step hbuilt htype with
        ⟨field', selection', entered', hfield', hselect', henter', hrefines'⟩
      rw [← hname, hfield] at hfield'
      cases hfield'
      cases select_of_index hindex hselect
      cases select_of_index hindex' hselect'
      have hroom := (hbuilt.seated htype (RecordType.field?_eq_some hfield).left).le_stop
      rcases enter_element henter with ⟨hshape, hregion⟩
      rcases enter_element henter' with ⟨hshape', hregion'⟩
      have hlast : field.size * positionIn indexes field.shape + field.size ≤
          field.size * elementCount field.shape := Region.row_stop_le (positionIn_lt hshape)
      have hlast' : field.size * positionIn indexes' field.shape + field.size ≤
          field.size * elementCount field.shape := Region.row_stop_le (positionIn_lt hshape')
      -- The elements are apart in their field, and each walk stays in its element.
      have hpositions := elements_apart field.size hshape hshape' hne
      rw [Field.bytes, Field.count] at hroom
      have hparts : (entered.region field.size).Apart (entered'.region field.size) := by
        rw [hregion, hregion']
        exact apart_of_meshes hmeshes (by omega) (by omega) (by omega)
      exact hparts.refine hrefines hrefines'
  | @deeper type inner first second rest rest' field name hname hfield hkind hinner _ ih =>
      have hmem := (RecordType.field?_eq_some hfield).left
      have hinnerMem := (Schema.record?_eq_some hinner).left
      have hsize := (hbuilt.record_field htype hmem hkind hinner).left
      have hroom := (hbuilt.seated htype hmem).le_stop
      rw [Field.bytes, hsize] at hroom
      rcases h.nested_step hfield hkind hinner with
        ⟨selection, entered, hselect, htext, henter, hleads⟩
      rw [hname] at hfield
      rcases h'.nested_step hfield hkind hinner with
        ⟨selection', entered', hselect', htext', henter', hleads'⟩
      exact ih hinnerMem
        (meshes_of_enter hmeshes hroom hselect htext henter hselect' htext' henter') hleads
        hleads'

end Location
end VideoConfig
