import VideoConfig.Proofs.Location.Origin
import VideoConfig.Proofs.Schema.Listing

/-!
# Leaves of a schema

The leaves of a schema are those of its buffers, behind the name of an extension for all but
the base record. If names tell the parts of a schema apart, a path in the list tells the
buffer and the trail in it, and so no path is listed twice.
-/

namespace VideoConfig
namespace Schema

/-!
## Leaves of a buffer

Before the fields of an extension stands the name of its record type, and nothing before
those of the base record. The leaves listed for a target are at the ends of the trails in
its record type.
-/

def extensionSegment (type : RecordType) : Segment :=
  { name := type.name, index := none, span := { offset := 0, length := 0 } }

def front (type : RecordType) : Target -> Path
  | .base => []
  | .extension _ _ _ _ => [extensionSegment type]

def leavesAt (schema : Schema) (target : Target) : List Leaf :=
  match schema.bufferType? target with
  | some type => schema.leavesOf schema.records.length (front type target).text 0 type
  | none => []

/-- Whether the names of a schema tell its parts apart: they are names of paths, no field of
the base record and no short name is called like an extension, and no field of the base record
like the base record itself. -/
structure Unambiguous (schema : Schema) : Prop where
  typeNames : forall type, type ∈ schema.records -> Path.isName type.name.toList = true
  fieldNames : forall type, type ∈ schema.records -> Named type.fields
  extensions : forall type, type ∈ schema.extensions ->
    schema.base.field? type.name = none ∧ schema.alias? type.name = none
  base : schema.base.field? schema.base.name = none

variable {schema : Schema} {declarations : List Declaration}
  {aliases : List (String × String)}

theorem text_extensionSegment (type : RecordType) :
    Path.text [extensionSegment type] = type.name := by
  rw [Path.text_singleton]
  simp [extensionSegment, Segment.text]

theorem spelled_front {type : RecordType} (h : Path.isName type.name.toList = true)
    (target : Target) : (front type target).Spelled := by
  cases target with
  | base =>
      exact List.forall_mem_nil _
  | extension tag name size selector =>
      exact List.forall_mem_singleton.mpr ⟨h, by simp [extensionSegment]⟩

theorem bufferType?_mem (hbuilt : schema.BuiltFrom declarations aliases) {target : Target}
    {type : RecordType} (h : schema.bufferType? target = some type) : type ∈ schema.records := by
  cases target with
  | base =>
      cases h
      exact hbuilt.base_mem
  | extension tag name size selector =>
      exact (hbuilt.extensionTagged?_eq_some_iff.mp h).left

theorem leavesAt_extension (hbuilt : schema.BuiltFrom declarations aliases) {type : RecordType}
    {tag : Tag} (htype : type ∈ schema.records) (htag : type.tag? = some tag) (name : String)
    (size : Nat) (selector : Option Nat) :
    schema.leavesAt (.extension tag name size selector) =
      schema.leavesOf schema.records.length type.name 0 type := by
  unfold leavesAt
  rw [bufferType?, hbuilt.extensionTagged?_eq_some_iff.mpr ⟨htype, htag⟩]
  dsimp only [front]
  rw [text_extensionSegment]

theorem mem_leaves_iff (hbuilt : schema.BuiltFrom declarations aliases) {leaf : Leaf} :
    leaf ∈ schema.leaves <-> exists target, leaf ∈ schema.leavesAt target := by
  unfold leaves
  rw [List.mem_append, List.mem_flatMap]
  constructor
  · rintro (hbase | ⟨type, htype, hleaf⟩)
    · exact ⟨.base, hbase⟩
    · rcases mem_extensions_iff.mp htype with ⟨hmem, tag, htag⟩
      refine ⟨.extension tag type.name type.size none, ?_⟩
      rw [leavesAt_extension hbuilt hmem htag]
      exact hleaf
  · rintro ⟨target, hleaf⟩
    cases target with
    | base =>
        exact Or.inl hleaf
    | extension tag name size selector =>
        cases htype : schema.extensionTagged? tag with
        | none =>
            rw [leavesAt, bufferType?, htype] at hleaf
            cases hleaf
        | some type =>
            rcases hbuilt.extensionTagged?_eq_some_iff.mp htype with ⟨hmem, htag⟩
            rw [leavesAt_extension hbuilt hmem htag] at hleaf
            exact Or.inr ⟨type, mem_extensions_iff.mpr ⟨hmem, tag, htag⟩, hleaf⟩

theorem mem_leavesAt_iff (hbuild : build declarations aliases = .ok schema)
    (hnames : schema.Unambiguous) {target : Target} {leaf : Leaf} :
    leaf ∈ schema.leavesAt target <->
      exists type path last shift, schema.bufferType? target = some type ∧
        Trail schema type.fields path last shift ∧
        leaf = leafOf (Path.text (front type target ++ path)) last shift := by
  unfold leavesAt
  cases htype : schema.bufferType? target with
  | none =>
      simp
  | some type =>
      have hmem := bufferType?_mem (builtFrom_of_build hbuild) htype
      have hlists := lists_leavesOf hbuild hmem (front type target).text 0
      dsimp only
      rw [hlists.mem_iff hnames.fieldNames (spelled_front (hnames.typeNames type hmem) target)
        (hnames.fieldNames type hmem)]
      simp only [Nat.zero_add, Option.some.injEq, exists_and_left, exists_eq_left']

theorem Trail.spelled_behind (hbuilt : schema.BuiltFrom declarations aliases)
    (hnames : schema.Unambiguous) {target : Target} {type : RecordType} {path : Path}
    {last : Field} {shift : Nat} (htype : schema.bufferType? target = some type)
    (h : Trail schema type.fields path last shift) :
    Path.Spelled (front type target ++ path) := by
  have hmem := bufferType?_mem hbuilt htype
  exact List.forall_mem_append.mpr ⟨spelled_front (hnames.typeNames type hmem) target,
    h.spelled hnames.fieldNames (hnames.fieldNames type hmem)⟩

/-!
## No path twice

The first name of a path in the leaves of a target tells its record type, and there the
recursion lists no path twice.
-/

theorem Lists.paths_disjoint (hnames : schema.Unambiguous) {outer : Path}
    (houter : outer.Spelled) {offset : Nat} {first second : List Field}
    {leaves others : List Leaf} (h : Lists schema outer.text offset first leaves)
    (h' : Lists schema outer.text offset second others) (hfirst : Named first)
    (hsecond : Named second)
    (hne : forall field other, field ∈ first -> other ∈ second -> field.name ≠ other.name) :
    List.Disjoint (leaves.map Leaf.path) (others.map Leaf.path) := by
  intro path hpath hpath'
  rcases List.mem_map.mp hpath with ⟨leaf, hleaf, rfl⟩
  rcases List.mem_map.mp hpath' with ⟨other, hother, heq⟩
  rcases (h.mem_iff hnames.fieldNames houter hfirst).mp hleaf with ⟨path, _, _, htrail, rfl⟩
  rcases (h'.mem_iff hnames.fieldNames houter hsecond).mp hother with ⟨path', _, _, htrail', rfl⟩
  have hsame := Path.names_eq_of_text_eq (by simp [htrail.ne_nil]) (by simp [htrail'.ne_nil])
    (List.forall_mem_append.mpr ⟨houter, htrail.spelled hnames.fieldNames hfirst⟩)
    (List.forall_mem_append.mpr ⟨houter, htrail'.spelled hnames.fieldNames hsecond⟩) heq.symm
  rcases htrail.exists_first with ⟨field, rest, hfield, rfl⟩
  rcases htrail'.exists_first with ⟨field', rest', hfield', rfl⟩
  rw [List.map_append, List.map_append] at hsame
  have hhead := List.append_cancel_left hsame
  rw [List.map_cons, List.map_cons, List.cons.injEq] at hhead
  exact hne field field' hfield hfield' hhead.left

theorem Lists.nodup (hnames : schema.Unambiguous)
    (hdistinct : forall type, type ∈ schema.records -> (type.fields.map Field.name).Nodup)
    {outer : Path} {offset : Nat} {fields : List Field} {leaves : List Leaf}
    (h : Lists schema outer.text offset fields leaves) (houter : outer.Spelled)
    (hfields : Named fields) (hnodup : (fields.map Field.name).Nodup) :
    (leaves.map Leaf.path).Nodup := by
  generalize htext : outer.text = text at h
  induction h generalizing outer with
  | done =>
      exact List.nodup_nil
  | @leaf _ offset field rest leaves scalar hkind hlists ih =>
      subst htext
      have hrest := hfields.tail
      rw [List.map_cons, List.nodup_cons] at hnodup
      have hdisjoint := (Lists.leaf hkind Lists.done).paths_disjoint hnames houter hlists
        (List.forall_mem_singleton.mpr (hfields field List.mem_cons_self)) hrest
        (fun other next hother hnext heq => hnodup.left
          (List.mem_map.mpr ⟨next, hnext, by rw [← heq, List.mem_singleton.mp hother]⟩))
      rw [List.map_cons, List.nodup_cons]
      exact ⟨hdisjoint List.mem_cons_self, ih houter hrest hnodup.right rfl⟩
  | @nested _ offset field rest inside leaves name inner hkind hinner hinside hlists ih ih' =>
      subst htext
      have hrest := hfields.tail
      have hmem := (record?_eq_some hinner).left
      rw [List.map_cons, List.nodup_cons] at hnodup
      have hdisjoint := (Lists.nested hkind hinner hinside Lists.done).paths_disjoint hnames
        houter hlists (List.forall_mem_singleton.mpr (hfields field List.mem_cons_self)) hrest
        (fun other next hother hnext heq => hnodup.left
          (List.mem_map.mpr ⟨next, hnext, by rw [← heq, List.mem_singleton.mp hother]⟩))
      rw [List.append_nil] at hdisjoint
      rw [List.map_append]
      refine List.Nodup.append ?_ (ih' houter hrest hnodup.right rfl) hdisjoint
      exact ih (spelled_append_segment houter (hfields field List.mem_cons_self))
        (hnames.fieldNames inner hmem) (hdistinct inner hmem) (fieldPath_text houter field).symm
  | @unknown _ offset field rest leaves name hkind hunknown _ ih =>
      have hrest := hfields.tail
      rw [List.map_cons, List.nodup_cons] at hnodup
      exact ih houter hrest hnodup.right htext

theorem leavesAt_nodup (hbuild : build declarations aliases = .ok schema)
    (hnames : schema.Unambiguous) (target : Target) :
    ((schema.leavesAt target).map Leaf.path).Nodup := by
  have hbuilt := builtFrom_of_build hbuild
  have hdistinct : forall type, type ∈ schema.records ->
      (type.fields.map Field.name).Nodup := by
    intro type htype
    rcases hbuilt.exists_declaration htype with ⟨_, _, hlaidOut⟩
    exact hlaidOut.names_nodup
  unfold leavesAt
  cases htype : schema.bufferType? target with
  | none =>
      exact List.nodup_nil
  | some type =>
      have hmem := bufferType?_mem hbuilt htype
      exact (lists_leavesOf hbuild hmem (front type target).text 0).nodup hnames hdistinct
        (spelled_front (hnames.typeNames type hmem) target) (hnames.fieldNames type hmem)
        (hdistinct type hmem)

theorem type_eq_of_first (hbuilt : schema.BuiltFrom declarations aliases)
    (hnames : schema.Unambiguous) {target target' : Target} {type type' : RecordType}
    {path path' : Path} {last last' : Field} {shift shift' : Nat}
    (htype : schema.bufferType? target = some type)
    (htype' : schema.bufferType? target' = some type')
    (h : Trail schema type.fields path last shift)
    (h' : Trail schema type'.fields path' last' shift')
    (hfirst : ((front type target ++ path).map Segment.name).head? =
      ((front type' target' ++ path').map Segment.name).head?) : type = type' := by
  have hbase : forall {field : Field} {type : RecordType} {tag : Tag},
      field ∈ schema.base.fields -> schema.extensionTagged? tag = some type ->
        field.name ≠ type.name := by
    intro field type tag hfield htype heq
    rcases hbuilt.extensionTagged?_eq_some_iff.mp htype with ⟨hmem, htag⟩
    have hnone := (hnames.extensions type (mem_extensions_iff.mpr ⟨hmem, tag, htag⟩)).left
    rw [(hbuilt.field?_eq_some_iff hbuilt.base_mem).mpr ⟨hfield, heq⟩] at hnone
    cases hnone
  rcases h.exists_first with ⟨field, rest, hfield, rfl⟩
  rcases h'.exists_first with ⟨field', rest', hfield', rfl⟩
  cases target with
  | base =>
      cases htype
      cases target' with
      | base =>
          cases htype'
          rfl
      | extension tag name size selector =>
          exact absurd (Option.some.inj hfirst) (hbase hfield htype')
  | extension tag name size selector =>
      cases target' with
      | base =>
          cases htype'
          exact absurd (Option.some.inj hfirst).symm (hbase hfield' htype)
      | extension tag' name' size' selector' =>
          exact List.inj_on_of_nodup_map hbuilt.names_nodup
            (hbuilt.extensionTagged?_eq_some_iff.mp htype).left
            (hbuilt.extensionTagged?_eq_some_iff.mp htype').left (Option.some.inj hfirst)

theorem leavesAt_disjoint (hbuild : build declarations aliases = .ok schema)
    (hnames : schema.Unambiguous) {target target' : Target} {type type' : RecordType}
    (htype : schema.bufferType? target = some type)
    (htype' : schema.bufferType? target' = some type') (hne : type ≠ type') :
    List.Disjoint ((schema.leavesAt target).map Leaf.path)
      ((schema.leavesAt target').map Leaf.path) := by
  have hbuilt := builtFrom_of_build hbuild
  intro path hpath hpath'
  rcases List.mem_map.mp hpath with ⟨leaf, hleaf, rfl⟩
  rcases List.mem_map.mp hpath' with ⟨other, hother, heq⟩
  rcases (mem_leavesAt_iff hbuild hnames).mp hleaf with ⟨_, path, _, _, hsame, htrail, rfl⟩
  rcases (mem_leavesAt_iff hbuild hnames).mp hother with ⟨_, path', _, _, hsame', htrail', rfl⟩
  cases htype.symm.trans hsame
  cases htype'.symm.trans hsame'
  have hnamesEq := Path.names_eq_of_text_eq (by simp [htrail'.ne_nil]) (by simp [htrail.ne_nil])
    (htrail'.spelled_behind hbuilt hnames htype') (htrail.spelled_behind hbuilt hnames htype) heq
  exact hne (type_eq_of_first hbuilt hnames htype htype' htrail htrail'
    (congrArg List.head? hnamesEq).symm)

theorem leaves_nodup (hbuild : build declarations aliases = .ok schema)
    (hnames : schema.Unambiguous) : (schema.leaves.map Leaf.path).Nodup := by
  have hbuilt := builtFrom_of_build hbuild
  have hextension : forall {type : RecordType}, type ∈ schema.extensions ->
      exists target, schema.bufferType? target = some type ∧ schema.bufferType? .base ≠ some type ∧
        schema.leavesAt target = schema.leavesOf schema.records.length type.name 0 type := by
    intro type htype
    rcases mem_extensions_iff.mp htype with ⟨hmem, tag, htag⟩
    refine ⟨.extension tag type.name type.size none,
      hbuilt.extensionTagged?_eq_some_iff.mpr ⟨hmem, htag⟩, ?_,
      leavesAt_extension hbuilt hmem htag _ _ _⟩
    intro heq
    have hrole := hbuilt.base_role
    rw [Option.some.inj heq, role_of_tag? htag] at hrole
    cases hrole
  unfold leaves
  rw [List.map_append, List.map_flatMap, List.nodup_append', List.nodup_flatMap]
  refine ⟨leavesAt_nodup hbuild hnames .base, ⟨?_, ?_⟩, ?_⟩
  · intro type htype
    rcases hextension htype with ⟨target, _, _, hleaves⟩
    rw [← hleaves]
    exact leavesAt_nodup hbuild hnames target
  · have hdistinct : schema.extensions.Nodup := (List.Nodup.of_map _ hbuilt.names_nodup).filter _
    refine hdistinct.imp_of_mem ?_
    intro first second hfirst hsecond hne
    rcases hextension hfirst with ⟨target, htype, _, hleaves⟩
    rcases hextension hsecond with ⟨target', htype', _, hleaves'⟩
    rw [Function.onFun_apply, ← hleaves, ← hleaves']
    exact leavesAt_disjoint hbuild hnames htype htype' hne
  · intro path hbase hpath
    rcases List.mem_flatMap.mp hpath with ⟨type, htype, hpath⟩
    rcases hextension htype with ⟨target, htarget, hne, hleaves⟩
    rw [← hleaves] at hpath
    have hfirst : schema.bufferType? .base = some schema.base := rfl
    exact leavesAt_disjoint hbuild hnames hfirst htarget
      (fun heq => hne (congrArg some heq)) hbase hpath

end Schema
end VideoConfig
