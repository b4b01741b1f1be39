import VideoConfig.Proofs.Path.Reading
import VideoConfig.Proofs.Schema

/-!
# Lists of leaves

The leaves of a record type are listed by a recursion through nested records that has no
bound of its own. A record embeds only records declared before it, so the recursion ends, and
the bound with which it is computed cuts nothing off. What is listed are the trails that lead
from a record down to a leaf, each with the text of its names.
-/

namespace VideoConfig

def Field.segment (field : Field) : Segment :=
  { name := field.name, index := if field.isArray then some .all else none
    span := { offset := 0, length := 0 } }

namespace Schema

def Named (fields : List Field) : Prop :=
  forall field, field ∈ fields -> Path.isName field.name.toList = true

theorem Named.tail {field : Field} {rest : List Field} (h : Named (field :: rest)) :
    Named rest :=
  fun other hother => h other (List.mem_cons_of_mem _ hother)

/-!
## The recursion

A list of leaves names an array for all of its elements. Over a record type of a schema that
is built the recursion ends, and it lists what is computed.
-/

def fieldPath (outer : String) (field : Field) : String :=
  if field.isArray then joinPath outer field.name ++ "[]" else joinPath outer field.name

def leafOf (path : String) (field : Field) (offset : Nat) : Leaf :=
  { path, kind := field.kind, category := field.category, offset, shape := field.shape }

/-- The runs of the recursion over fields behind a path, with the leaves that they list.
Nothing bounds how far records are followed. -/
inductive Lists (schema : Schema) : (outer : String) -> (offset : Nat) -> List Field ->
    List Leaf -> Prop where
  | done {outer : String} {offset : Nat} : Lists schema outer offset [] []
  | leaf {outer : String} {offset : Nat} {field : Field} {rest : List Field}
      {leaves : List Leaf} {scalar : Scalar} :
      field.kind = .scalar scalar ->
      Lists schema outer offset rest leaves ->
      Lists schema outer offset (field :: rest)
        (leafOf (fieldPath outer field) field (offset + field.offset) :: leaves)
  | nested {outer : String} {offset : Nat} {field : Field} {rest : List Field}
      {inside leaves : List Leaf} {name : String} {inner : RecordType} :
      field.kind = .record name ->
      schema.record? name = some inner ->
      Lists schema (fieldPath outer field) (offset + field.offset) inner.fields inside ->
      Lists schema outer offset rest leaves ->
      Lists schema outer offset (field :: rest) (inside ++ leaves)
  | unknown {outer : String} {offset : Nat} {field : Field} {rest : List Field}
      {leaves : List Leaf} {name : String} :
      field.kind = .record name ->
      schema.record? name = none ->
      Lists schema outer offset rest leaves ->
      Lists schema outer offset (field :: rest) leaves

variable {schema : Schema}

theorem Lists.unique {outer : String} {offset : Nat} {fields : List Field}
    {leaves leaves' : List Leaf} (h : Lists schema outer offset fields leaves)
    (h' : Lists schema outer offset fields leaves') : leaves = leaves' := by
  induction h generalizing leaves' with
  | done =>
      cases h'
      rfl
  | leaf hkind _ ih =>
      cases h' with
      | leaf _ hrest =>
          rw [ih hrest]
      | nested hkind' =>
          cases hkind.symm.trans hkind'
      | unknown hkind' =>
          cases hkind.symm.trans hkind'
  | nested hkind hinner _ _ ih ih' =>
      cases h' with
      | leaf hkind' =>
          cases hkind.symm.trans hkind'
      | nested hkind' hinner' hinside hrest =>
          cases hkind.symm.trans hkind'
          cases hinner.symm.trans hinner'
          rw [ih hinside, ih' hrest]
      | unknown hkind' hinner' =>
          cases hkind.symm.trans hkind'
          cases hinner.symm.trans hinner'
  | unknown hkind hinner _ ih =>
      cases h' with
      | leaf hkind' =>
          cases hkind.symm.trans hkind'
      | nested hkind' hinner' =>
          cases hkind.symm.trans hkind'
          cases hinner.symm.trans hinner'
      | unknown _ _ hrest =>
          exact ih hrest

def fieldLeaves (schema : Schema) (depth : Nat) (outer : String) (offset : Nat)
    (field : Field) : List Leaf :=
  match field.kind with
  | .scalar _ => [leafOf (fieldPath outer field) field (offset + field.offset)]
  | .record name =>
      match schema.record? name with
      | some inner => leavesOf schema depth (fieldPath outer field) (offset + field.offset) inner
      | none => []

theorem leavesOf_succ (depth : Nat) (outer : String) (offset : Nat) (type : RecordType) :
    leavesOf schema (depth + 1) outer offset type =
      type.fields.flatMap (fieldLeaves schema depth outer offset) := by
  rw [leavesOf]
  refine List.flatMap_congr fun field _ => ?_
  unfold fieldLeaves leafOf fieldPath
  cases field.kind <;> rfl

theorem lists_flatMap {depth : Nat} {fields : List Field} {outer : String} {offset : Nat}
    (h : forall field name inner, field ∈ fields -> field.kind = .record name ->
      schema.record? name = some inner -> forall outer offset,
        Lists schema outer offset inner.fields (leavesOf schema depth outer offset inner)) :
    Lists schema outer offset fields
      (fields.flatMap (fieldLeaves schema depth outer offset)) := by
  induction fields with
  | nil =>
      exact Lists.done
  | cons field rest ih =>
      have hrest := ih fun other name inner hother =>
        h other name inner (List.mem_cons_of_mem _ hother)
      rw [List.flatMap_cons, fieldLeaves]
      cases hkind : field.kind with
      | scalar scalar =>
          exact Lists.leaf hkind hrest
      | record name =>
          dsimp only
          cases hinner : schema.record? name with
          | none =>
              exact Lists.unknown hkind hinner hrest
          | some inner =>
              exact Lists.nested hkind hinner
                (h field name inner List.mem_cons_self hkind hinner _ _) hrest

variable {declarations : List Declaration} {aliases : List (String × String)}

/-- Among record types that embed only those before them, a depth of their number is enough
for every one of them. -/
theorem lists_leavesOf_of_grounded (hbuilt : schema.BuiltFrom declarations aliases)
    {known : List RecordType} (hgrounded : Layout.Grounded known)
    (hknown : forall type, type ∈ known -> type ∈ schema.records) {type : RecordType}
    (htype : type ∈ known) {depth : Nat} (hdepth : known.length ≤ depth) (outer : String)
    (offset : Nat) :
    Lists schema outer offset type.fields (leavesOf schema depth outer offset type) := by
  induction hgrounded generalizing type depth outer offset with
  | nil =>
      cases htype
  | @append known last _ hembeds ih =>
      have hearlier : forall type, type ∈ known -> type ∈ schema.records :=
        fun type hmem => hknown type (List.mem_append_left _ hmem)
      rw [List.length_append, List.length_singleton] at hdepth
      rcases List.mem_append.mp htype with hmem | hmem
      · exact ih hearlier hmem (Nat.le_of_succ_le hdepth) outer offset
      · -- One step of the depth is for the last type, and the others are enough for those
        -- before it.
        rw [List.mem_singleton.mp hmem]
        rcases Nat.exists_eq_add_of_lt (Nat.lt_of_succ_le hdepth) with ⟨more, rfl⟩
        rw [leavesOf_succ]
        refine lists_flatMap ?_
        intro field name inner hfield hkind hinner outer' offset'
        rcases hembeds field name hfield hkind with ⟨found, hfound, hname⟩
        have hsame : found = inner := Option.some.inj
          ((hbuilt.record?_eq_some_iff.mpr ⟨hearlier found hfound, hname⟩).symm.trans hinner)
        rw [← hsame]
        exact ih hearlier hfound (Nat.le_add_right _ _) outer' offset'

theorem lists_leavesOf (hbuild : build declarations aliases = .ok schema) {type : RecordType}
    (htype : type ∈ schema.records) (outer : String) (offset : Nat) :
    Lists schema outer offset type.fields
      (leavesOf schema schema.records.length outer offset type) :=
  lists_leavesOf_of_grounded (builtFrom_of_build hbuild) (grounded_of_build hbuild)
    (fun _ hmem => hmem) htype (Nat.le_refl _) outer offset

/-!
## Trails

A trail starts with the name of one of the fields: it leads through the first of them or
through the others.
-/

/-- The trails from fields of a record down to a leaf: the segments on the way, the field of
the leaf, and its distance from the start of the record, where every array on the way is
entered at its first element. -/
inductive Trail (schema : Schema) : List Field -> Path -> Field -> Nat -> Prop where
  | leaf {fields : List Field} {field : Field} {scalar : Scalar} :
      field ∈ fields ->
      field.kind = .scalar scalar ->
      Trail schema fields [field.segment] field field.offset
  | nested {fields : List Field} {field last : Field} {name : String} {inner : RecordType}
      {rest : Path} {shift : Nat} :
      field ∈ fields ->
      field.kind = .record name ->
      schema.record? name = some inner ->
      Trail schema inner.fields rest last shift ->
      Trail schema fields (field.segment :: rest) last (field.offset + shift)

theorem Trail.ne_nil {fields : List Field} {path : Path} {last : Field} {shift : Nat}
    (h : Trail schema fields path last shift) : path ≠ [] := by
  cases h <;> exact List.cons_ne_nil _ _

theorem trail_cons_iff {field : Field} {rest : List Field} {path : Path} {last : Field}
    {shift : Nat} :
    Trail schema (field :: rest) path last shift <->
      Trail schema [field] path last shift ∨ Trail schema rest path last shift := by
  constructor
  · intro h
    cases h with
    | leaf hmem hkind =>
        rcases List.mem_cons.mp hmem with rfl | hmem
        · exact Or.inl (Trail.leaf List.mem_cons_self hkind)
        · exact Or.inr (Trail.leaf hmem hkind)
    | nested hmem hkind hinner htrail =>
        rcases List.mem_cons.mp hmem with rfl | hmem
        · exact Or.inl (Trail.nested List.mem_cons_self hkind hinner htrail)
        · exact Or.inr (Trail.nested hmem hkind hinner htrail)
  · have hmono : forall fields, (forall other, other ∈ fields -> other ∈ field :: rest) ->
        Trail schema fields path last shift ->
          Trail schema (field :: rest) path last shift := by
      intro fields hfields h
      cases h with
      | leaf hmem hkind =>
          exact Trail.leaf (hfields _ hmem) hkind
      | nested hmem hkind hinner htrail =>
          exact Trail.nested (hfields _ hmem) hkind hinner htrail
    rintro (h | h)
    · exact hmono _
        (fun other hother => List.mem_cons.mpr (Or.inl (List.mem_singleton.mp hother))) h
    · exact hmono _ (fun other => List.mem_cons_of_mem _) h

theorem trail_scalar_iff {field : Field} {scalar : Scalar} (hkind : field.kind = .scalar scalar)
    {path : Path} {last : Field} {shift : Nat} :
    Trail schema [field] path last shift <->
      path = [field.segment] ∧ last = field ∧ shift = field.offset := by
  constructor
  · intro h
    cases h with
    | leaf hmem _ =>
        rw [List.mem_singleton.mp hmem]
        exact ⟨rfl, rfl, rfl⟩
    | nested hmem hkind' _ _ =>
        rw [List.mem_singleton.mp hmem] at hkind'
        cases hkind.symm.trans hkind'
  · rintro ⟨rfl, rfl, rfl⟩
    exact Trail.leaf List.mem_cons_self hkind

theorem trail_record_iff {field : Field} {name : String} (hkind : field.kind = .record name)
    {path : Path} {last : Field} {shift : Nat} :
    Trail schema [field] path last shift <->
      exists inner rest inside, schema.record? name = some inner ∧
        Trail schema inner.fields rest last inside ∧
        path = field.segment :: rest ∧ shift = field.offset + inside := by
  constructor
  · intro h
    cases h with
    | leaf hmem hkind' =>
        rw [List.mem_singleton.mp hmem] at hkind'
        cases hkind.symm.trans hkind'
    | nested hmem hkind' hinner htrail =>
        rw [List.mem_singleton.mp hmem] at hkind' ⊢
        cases hkind.symm.trans hkind'
        exact ⟨_, _, _, hinner, htrail, rfl, rfl⟩
  · rintro ⟨inner, rest, inside, hinner, htrail, rfl, rfl⟩
    exact Trail.nested List.mem_cons_self hkind hinner htrail

theorem Trail.exists_first {fields : List Field} {path : Path} {last : Field} {shift : Nat}
    (h : Trail schema fields path last shift) :
    exists field rest, field ∈ fields ∧ path = field.segment :: rest := by
  cases h with
  | leaf hfield _ =>
      exact ⟨_, _, hfield, rfl⟩
  | nested hfield _ _ _ =>
      exact ⟨_, _, hfield, rfl⟩

theorem spelled_segment {field : Field} (h : Path.isName field.name.toList = true) :
    field.segment.Spelled := by
  constructor
  · exact h
  · unfold Field.segment
    dsimp only
    split <;> simp

theorem Trail.spelled (hnames : forall type, type ∈ schema.records -> Named type.fields)
    {fields : List Field} {path : Path} {last : Field} {shift : Nat}
    (h : Trail schema fields path last shift) (hfields : Named fields) : path.Spelled := by
  induction h with
  | leaf hfield _ =>
      exact List.forall_mem_singleton.mpr (spelled_segment (hfields _ hfield))
  | nested hfield _ hinner _ ih =>
      exact List.forall_mem_cons.mpr
        ⟨spelled_segment (hfields _ hfield), ih (hnames _ (record?_eq_some hinner).left)⟩

/-!
## Texts of trails

What is listed behind a path are the leaves at the ends of trails.
-/

theorem joinPath_text {first second : Path} (hfirst : first.Spelled) (hsecond : second ≠ []) :
    joinPath first.text second.text = Path.text (first ++ second) := by
  unfold joinPath
  cases first with
  | nil =>
      rfl
  | cons segment rest =>
      have hne := List.cons_ne_nil segment rest
      rw [Path.text_ne_empty hne hfirst, Path.text_append hne hsecond]
      rfl

theorem joinPath_append (outer name more : String) :
    joinPath outer name ++ more = joinPath outer (name ++ more) := by
  unfold joinPath
  split
  · rfl
  · rw [String.append_assoc]

theorem fieldPath_text {outer : Path} (houter : outer.Spelled) (field : Field) :
    fieldPath outer.text field = Path.text (outer ++ [field.segment]) := by
  have hsegment : Path.text [field.segment] =
      if field.isArray then field.name ++ "[]" else field.name := by
    have hbrackets : "[]" = String.ofList ['[', ']'] := rfl
    rw [Path.text_singleton]
    unfold Segment.text Field.segment
    dsimp only
    split
    · rw [hbrackets, String.ofList_append, String.ofList_toList]
      rfl
    · simp
  rw [← joinPath_text houter (List.cons_ne_nil _ _), hsegment]
  unfold fieldPath
  split
  · exact joinPath_append _ _ _
  · rfl

theorem spelled_append_segment {outer : Path} (houter : outer.Spelled) {field : Field}
    (h : Path.isName field.name.toList = true) : Path.Spelled (outer ++ [field.segment]) :=
  List.forall_mem_append.mpr ⟨houter, List.forall_mem_singleton.mpr (spelled_segment h)⟩

theorem Lists.mem_iff (hnames : forall type, type ∈ schema.records -> Named type.fields)
    {outer : Path} {offset : Nat} {fields : List Field} {leaves : List Leaf}
    (h : Lists schema outer.text offset fields leaves) (houter : outer.Spelled)
    (hfields : Named fields) {leaf : Leaf} :
    leaf ∈ leaves <-> exists path last shift, Trail schema fields path last shift ∧
      leaf = leafOf (Path.text (outer ++ path)) last (offset + shift) := by
  generalize htext : outer.text = text at h
  induction h generalizing outer leaf with
  | done =>
      constructor
      · intro hleaf
        cases hleaf
      · rintro ⟨path, last, shift, htrail, _⟩
        rcases htrail.exists_first with ⟨_, _, hmem, _⟩
        cases hmem
  | @leaf _ offset field rest leaves scalar hkind _ ih =>
      subst htext
      have hrest := hfields.tail
      rw [List.mem_cons, ih houter hrest rfl, fieldPath_text houter]
      simp only [trail_cons_iff, trail_scalar_iff hkind, or_and_right, exists_or]
      refine or_congr ?_ Iff.rfl
      constructor
      · rintro rfl
        exact ⟨_, _, _, ⟨rfl, rfl, rfl⟩, rfl⟩
      · rintro ⟨_, _, _, ⟨rfl, rfl, rfl⟩, rfl⟩
        rfl
  | @nested _ offset field rest inside leaves name inner hkind hinner _ _ ih ih' =>
      subst htext
      have hrest := hfields.tail
      have hspelled := spelled_append_segment houter (hfields field List.mem_cons_self)
      rw [List.mem_append, ih' houter hrest rfl,
        ih hspelled (hnames inner (record?_eq_some hinner).left) (fieldPath_text houter field).symm]
      simp only [trail_cons_iff, trail_record_iff hkind, or_and_right, exists_or]
      refine or_congr ?_ Iff.rfl
      -- Inside of the record the outer path has one segment more and the trail one less.
      constructor
      · rintro ⟨path, last, shift, htrail, rfl⟩
        refine ⟨_, last, _, ⟨inner, path, shift, hinner, htrail, rfl, rfl⟩, ?_⟩
        rw [List.append_assoc, List.singleton_append, Nat.add_assoc]
      · rintro ⟨_, last, _, ⟨inner', path, shift, hinner', htrail, rfl, rfl⟩, rfl⟩
        cases hinner.symm.trans hinner'
        refine ⟨path, last, shift, htrail, ?_⟩
        rw [List.append_assoc, List.singleton_append, Nat.add_assoc]
  | @unknown _ offset field rest leaves name hkind hunknown _ ih =>
      have hrest := hfields.tail
      rw [ih houter hrest htext]
      simp only [trail_cons_iff, trail_record_iff hkind, hunknown, reduceCtorEq, false_and,
        exists_false, false_or]

end Schema
end VideoConfig
