import VideoConfig.Proofs.Location.Bounds
import VideoConfig.Proofs.Schema.Listing

/-!
# Walks along trails

A trail addresses every array on its way as a whole, and a walk can do so once. A trail with
at most one array is a walk to its leaf, and one with more is none. The walk of any other
path follows a trail as well, and the indexes in it only displace where it ends.
-/

namespace VideoConfig

def Path.wholes (path : Path) : Nat :=
  path.countP fun segment => segment.index = some .all

theorem Path.wholes_cons (segment : Segment) (rest : Path) :
    Path.wholes (segment :: rest) =
      (if segment.index = some .all then 1 else 0) + Path.wholes rest := by
  unfold Path.wholes
  rw [List.countP_cons, Nat.add_comm]
  simp only [decide_eq_true_eq]

def Segment.position (segment : Segment) (field : Field) : Nat :=
  match segment.index with
  | some (.element indexes) => Location.positionIn indexes field.shape
  | _ => 0

namespace Location

/-- The bytes by which the indexes of a path move its location behind that of the first
elements. -/
def displacement (schema : Schema) : RecordType -> Path -> Nat
  | _, [] => 0
  | type, segment :: rest =>
      match type.field? segment.name with
      | none => 0
      | some field =>
          match field.kind with
          | .scalar _ => field.size * segment.position field
          | .record name =>
              match schema.record? name with
              | none => 0
              | some inner =>
                  field.size * segment.position field + displacement schema inner rest

def Place.wholes (place : Place) : Nat :=
  if place.projection.isSome then 1 else 0

variable {schema : Schema}

/-!
## One whole array at most

A segment with `[]` selects every element of a field or a whole text, and a walk can do so
once.
-/

theorem position_of_select {field : Field} {segment : Segment} {selection : Selection}
    (h : select field segment = .ok selection) :
    selection.position field = segment.position field := by
  unfold Segment.position
  unfold select at h
  rcases hindex : segment.index with _ | (_ | indexes) <;> rw [hindex] at h <;>
    cases harray : field.isArray <;> rw [harray] at h
  · cases h
    rfl
  · cases h
    split <;> rfl
  · cases h
  · cases h
    split <;> rfl
  · cases h
  · cases h
    rfl

theorem select_whole {field : Field} {segment : Segment} {selection : Selection}
    (h : select field segment = .ok selection) (hindex : segment.index = some .all) :
    selection = .each ∨ selection = .text := by
  unfold select at h
  rw [hindex] at h
  cases harray : field.isArray <;> rw [harray] at h
  · cases h
  · cases h
    split
    · exact Or.inr rfl
    · exact Or.inl rfl

theorem enter_wholes {place place' : Place} {field : Field} {element : Nat}
    {segment : Segment} {selection : Selection}
    (hselect : select field segment = .ok selection)
    (h : enter place field element segment selection = .ok place') (hne : selection ≠ .text) :
    (if segment.index = some .all then 1 else 0) + place.wholes ≤ place'.wholes := by
  rcases enter_eq_ok h with ⟨_, ⟨_, hnone, hsome⟩ | ⟨hnotEach, hkeep⟩, _⟩
  · unfold Place.wholes
    rw [hnone, hsome]
    split <;> simp
  · have hindex : segment.index ≠ some .all := by
      intro hall
      rcases select_whole hselect hall with heach | htext
      · exact hnotEach heach
      · exact hne htext
    unfold Place.wholes
    exact Nat.le_of_eq (by rw [if_neg hindex, hkeep, Nat.zero_add])

theorem Leads.wholes_le_one {target : Target} {type : RecordType} {place : Place}
    {path : Path} {location : Location}
    (h : Leads schema target type place path location) : path.wholes + place.wholes ≤ 1 := by
  induction h with
  | @leaf type place place' segment field scalar selection location hfield hkind hselect henter
      hleaf =>
      have hlast : Path.wholes [segment] = if segment.index = some .all then 1 else 0 :=
        Path.wholes_cons segment []
      have hplace' : place'.wholes ≤ 1 := by
        unfold Place.wholes
        split <;> decide
      rw [hlast]
      by_cases htext : selection = .text
      · subst htext
        rcases (leaf_eq_ok hleaf).right.right.right.right with ⟨_, _, hne, _⟩ | ⟨hnone, _⟩
        · exact absurd rfl hne
        · rcases enter_eq_ok henter with ⟨_, ⟨heach, _⟩ | ⟨_, hkeep⟩, _⟩
          · cases heach
          · unfold Place.wholes
            rw [← hkeep, hnone]
            split <;> simp
      · -- The place behind the last step holds the one array that was addressed so far.
        exact Nat.le_trans (enter_wholes hselect henter htext) hplace'
  | @nested type inner place place' segment rest field name selection location hfield hkind
      hinner hselect henter _ ih =>
      have hentered := enter_wholes hselect henter (select_ne_text_of_record hkind hselect)
      rw [Path.wholes_cons]
      omega

/-!
## Trails are walks

Every element of a field can be entered from a place, unless another array is addressed
there as a whole.
-/

theorem enter_segment (element : Nat) {place : Place} {field : Field}
    (h : (if field.segment.index = some .all then 1 else 0) + place.wholes ≤ 1) :
    exists selection place', select field field.segment = .ok selection ∧
      enter place field element field.segment selection = .ok place' ∧
      place'.offset = place.offset + field.offset ∧
      (selection = .text -> place'.projection = none) ∧
      place'.wholes ≤ (if field.segment.index = some .all then 1 else 0) + place.wholes := by
  cases harray : field.isArray with
  | false =>
      have hindex : field.segment.index = none := by simp [Field.segment, harray]
      refine ⟨.single, { place with offset := place.offset + field.offset }, ?_, rfl, rfl, ?_, ?_⟩
      · simp [select, harray, hindex]
      · intro htext
        cases htext
      · exact Nat.le_add_left _ _
  | true =>
      have hindex : field.segment.index = some .all := by simp [Field.segment, harray]
      have hnone : place.projection = none := by
        rw [if_pos hindex] at h
        unfold Place.wholes at h
        split at h
        · omega
        · next hsome =>
            simpa using hsome
      cases htext : field.isText with
      | true =>
          refine ⟨.text, { place with offset := place.offset + field.offset }, ?_, rfl, rfl, ?_, ?_⟩
          · simp [select, harray, hindex, htext]
          · exact fun _ => hnone
          · exact Nat.le_add_left _ _
      | false =>
          let entered : Place := {
            offset := place.offset + field.offset
            projection := some { stride := element, count := field.count } }
          refine ⟨.each, entered, ?_, ?_, rfl, ?_, ?_⟩
          · simp [select, harray, hindex, htext]
          · dsimp only [enter]
            rw [hnone]
          · intro htext
            cases htext
          · rw [if_pos hindex]
            exact Nat.le_add_right _ _

theorem exists_leaf (target : Target) {place : Place} (field : Field) (segment : Segment)
    {selection : Selection} (h : selection = .text -> place.projection = none) :
    exists location, leaf target place field segment selection = .ok location := by
  dsimp only [leaf]
  split
  · next hprojection htext =>
      rw [h (of_decide_eq_true htext)] at hprojection
      cases hprojection
  · exact ⟨_, rfl⟩
  · exact ⟨_, rfl⟩

theorem leads_of_trail {declarations : List Declaration} {aliases : List (String × String)}
    (hbuilt : schema.BuiltFrom declarations aliases) (target : Target) {type : RecordType}
    (htype : type ∈ schema.records) {path : Path} {last : Field} {shift : Nat}
    (h : Schema.Trail schema type.fields path last shift) {place : Place}
    (hwholes : path.wholes + place.wholes ≤ 1) :
    exists location, Leads schema target type place path location ∧ location.field = last ∧
      location.offset = place.offset + shift := by
  generalize hfields : type.fields = fields at h
  induction h generalizing type place with
  | @leaf fields field scalar hmem hkind =>
      subst hfields
      have hfield := (hbuilt.field?_eq_some_iff htype).mpr ⟨hmem, rfl⟩
      rw [Path.wholes_cons] at hwholes
      rcases enter_segment field.size hwholes with
        ⟨selection, place', hselect, henter, hoffset, htext, _⟩
      rcases exists_leaf target field field.segment htext with
        ⟨location, hleaf⟩
      rcases leaf_eq_ok hleaf with ⟨hsame, _, hplace, _⟩
      exact ⟨location, Leads.leaf hfield hkind hselect henter hleaf, hsame, hplace.trans hoffset⟩
  | @nested fields field last name inner rest shift hmem hkind hinner _ ih =>
      subst hfields
      have hfield := (hbuilt.field?_eq_some_iff htype).mpr ⟨hmem, rfl⟩
      rw [Path.wholes_cons] at hwholes
      have hfirst : (if field.segment.index = some .all then 1 else 0) + place.wholes ≤ 1 := by
        omega
      rcases enter_segment inner.size hfirst with
        ⟨selection, place', hselect, henter, hoffset, _, hentered⟩
      have hinside : rest.wholes + place'.wholes ≤
          (if field.segment.index = some .all then 1 else 0) + rest.wholes + place.wholes := by
        omega
      rcases ih (Schema.record?_eq_some hinner).left (Nat.le_trans hinside hwholes) rfl with
        ⟨location, hleads, hsame, hlocation⟩
      refine ⟨location, Leads.nested hfield hkind hinner hselect henter hleads, hsame, ?_⟩
      rw [hlocation, hoffset, Nat.add_assoc]

/-!
## Walks follow trails
-/

theorem Leads.exists_trail {declarations : List Declaration}
    {aliases : List (String × String)} (hbuilt : schema.BuiltFrom declarations aliases)
    {target : Target} {type : RecordType} {place : Place} {path : Path} {location : Location}
    (h : Leads schema target type place path location) (htype : type ∈ schema.records) :
    exists trail shift, Schema.Trail schema type.fields trail location.field shift ∧
      location.offset = place.offset + shift + displacement schema type path := by
  induction h with
  | @leaf type place place' segment field scalar selection location hfield hkind hselect henter
      hleaf =>
      have hmem := (RecordType.field?_eq_some hfield).left
      rcases leaf_eq_ok hleaf with ⟨rfl, _, hplace, _⟩
      refine ⟨_, _, Schema.Trail.leaf hmem hkind, ?_⟩
      rw [hplace, (enter_eq_ok henter).left, position_of_select hselect]
      simp only [displacement, hfield, hkind]
  | @nested type inner place place' segment rest field name selection location hfield hkind
      hinner hselect henter _ ih =>
      have hmem := (RecordType.field?_eq_some hfield).left
      rcases ih (Schema.record?_eq_some hinner).left with ⟨trail, shift, htrail, hlocation⟩
      refine ⟨_, _, Schema.Trail.nested hmem hkind hinner htrail, ?_⟩
      rw [hlocation, (enter_eq_ok henter).left, position_of_select hselect,
        ← (hbuilt.record_field htype hmem hkind hinner).left]
      simp only [displacement, hfield, hkind, hinner]
      omega

end Location
end VideoConfig
