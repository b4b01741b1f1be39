import VideoConfig.Proofs.Catalog
import VideoConfig.Proofs.Location.Spelling
import VideoConfig.Proofs.Location.Trails
import VideoConfig.Proofs.Schema.Leaves

/-!
# Listed leaves and paths that resolve

The list of leaves and the resolution of paths go over the same record types in two different
ways. If names tell the parts of a schema apart, they agree: a listed path resolves to what is
listed as far as a path may address whole arrays, and every path that resolves ends in a
listed leaf.
-/

namespace VideoConfig
namespace Schema

open Location

variable {schema : Schema} {declarations : List Declaration}
  {aliases : List (String × String)}

/-!
## Brackets in listed paths

In the text of a path without element indexes there is a bracket for every array that is
addressed as a whole.
-/

def Plain (path : Path) : Prop :=
  forall segment, segment ∈ path -> segment.index = none ∨ segment.index = some .all

theorem plain_segment (field : Field) :
    field.segment.index = none ∨ field.segment.index = some .all := by
  unfold Field.segment
  dsimp only
  split
  · exact Or.inr rfl
  · exact Or.inl rfl

theorem Trail.plain {fields : List Field} {path : Path} {last : Field} {shift : Nat}
    (h : Trail schema fields path last shift) : Plain path := by
  induction h with
  | leaf _ _ =>
      exact List.forall_mem_singleton.mpr (plain_segment _)
  | nested _ _ _ _ ih =>
      exact List.forall_mem_cons.mpr ⟨plain_segment _, ih⟩

theorem plain_front (type : RecordType) (target : Target) : Plain (front type target) := by
  cases target with
  | base =>
      exact List.forall_mem_nil _
  | extension tag name size selector =>
      exact List.forall_mem_singleton.mpr (Or.inl rfl)

theorem Plain.inLimits {path : Path} (h : Plain path) : path.InLimits := by
  intro segment hsegment indexes hindex
  rcases h segment hsegment with hnone | hall
  · rw [hnone] at hindex
    cases hindex
  · rw [hall] at hindex
    cases hindex

theorem count_segment {segment : Segment} (hspelled : segment.Spelled)
    (hplain : segment.index = none ∨ segment.index = some .all) :
    segment.text.count '[' = if segment.index = some .all then 1 else 0 := by
  have hname : segment.name.toList.count '[' = 0 := by
    rw [List.count_eq_zero]
    intro hbracket
    exact absurd (Path.isNameChar_of_isName hspelled.name hbracket) (by decide)
  rw [Segment.text_eq, List.count_append, hname, Nat.zero_add, Segment.suffix]
  rcases hplain with hnone | hall
  · rw [hnone]
    rfl
  · rw [hall]
    rfl

theorem count_text {path : Path} (hspelled : path.Spelled) (hplain : Plain path) :
    path.text.toList.count '[' = path.wholes := by
  unfold Path.text
  rw [String.toList_ofList]
  induction path with
  | nil =>
      rfl
  | cons segment rest ih =>
      rcases List.forall_mem_cons.mp hspelled with ⟨hsegment, hrest⟩
      rcases List.forall_mem_cons.mp hplain with ⟨hindex, hindexes⟩
      have hfirst := count_segment hsegment hindex
      rw [Path.wholes_cons, ← hfirst, ← ih hrest hindexes]
      cases rest with
      | nil =>
          simp [Path.chars, List.intercalate_singleton]
      | cons next others =>
          simp [Path.chars, List.intercalate_cons_cons, List.count_append]

/-!
## Starts of listed paths

A listed path starts in the buffer in whose leaves it is listed: one behind the name of an
extension in a buffer of that extension, if no field of the base record and no short name is
called so.
-/

theorem start_of_field (hbuilt : schema.BuiltFrom declarations aliases)
    (hnames : schema.Unambiguous) {field : Field} (hfield : field ∈ schema.base.fields)
    (rest : Path) :
    start schema (field.segment :: rest) = .ok (.base schema (field.segment :: rest)) := by
  have hfound : schema.base.field? field.name = some field :=
    (hbuilt.field?_eq_some_iff hbuilt.base_mem).mpr ⟨hfield, rfl⟩
  have hkept : dropQualifier schema (field.segment :: rest) = field.segment :: rest := by
    refine if_neg ?_
    rintro ⟨hname, _⟩
    have hnone := hnames.base
    rw [← hname] at hnone
    cases hfound.symm.trans hnone
  exact start_eq_ok.mpr ⟨_, _, hkept, Begins.field (Option.isSome_iff_exists.mpr ⟨_, hfound⟩)⟩

theorem extension?_of_tagged (hbuilt : schema.BuiltFrom declarations aliases)
    {type : RecordType} {tag : Tag} (htype : schema.extensionTagged? tag = some type) :
    extension? schema type.name = some (type, tag) := by
  rcases hbuilt.extensionTagged?_eq_some_iff.mp htype with ⟨hmem, htag⟩
  have hnamed : schema.extensionNamed? type.name = some type := by
    refine Layout.find?_eq_some_of_unique (mem_extensions_iff.mpr ⟨hmem, tag, htag⟩) (by simp) ?_
    intro other hother hname
    exact List.inj_on_of_nodup_map hbuilt.names_nodup (mem_extensions_iff.mp hother).left hmem
      (by simpa using hname)
  unfold extension?
  rw [hnamed]
  simp [htag]

theorem BuiltFrom.extension_name_ne_base (hbuilt : schema.BuiltFrom declarations aliases)
    {type : RecordType} {tag : Tag} (htype : schema.extensionTagged? tag = some type) :
    type.name ≠ schema.base.name := by
  rcases hbuilt.extensionTagged?_eq_some_iff.mp htype with ⟨hmem, htag⟩
  intro hname
  have hsame : type = schema.base :=
    List.inj_on_of_nodup_map hbuilt.names_nodup hmem hbuilt.base_mem hname
  have hrole := hbuilt.base_role
  rw [← hsame, role_of_tag? htag] at hrole
  cases hrole

theorem start_of_extension (hbuilt : schema.BuiltFrom declarations aliases)
    {type : RecordType} {tag : Tag} (htype : schema.extensionTagged? tag = some type)
    (hfield : schema.base.field? type.name = none) (halias : schema.alias? type.name = none)
    {path : Path} (hne : path ≠ []) :
    start schema (extensionSegment type :: path) =
      .ok { target := .extension tag type.name type.size none, type, path } := by
  have hkept : dropQualifier schema (extensionSegment type :: path) =
      extensionSegment type :: path :=
    if_neg fun hqualified => hbuilt.extension_name_ne_base htype hqualified.left
  refine start_eq_ok.mpr ⟨_, _, hkept, Begins.extension hfield halias
    (extension?_of_tagged hbuilt htype) ?_⟩
  exact bind_eq_ok.mpr ⟨none, rfl, if_neg hne⟩

theorem exists_start (hbuilt : schema.BuiltFrom declarations aliases)
    (hnames : schema.Unambiguous) {target : Target} {type : RecordType} {path : Path}
    {last : Field} {shift : Nat} (htype : schema.bufferType? target = some type)
    (h : Trail schema type.fields path last shift) :
    exists origin, start schema (front type target ++ path) = .ok origin ∧
      origin.type = type ∧ origin.path = path ∧
      schema.bufferType? origin.target = some type := by
  cases target with
  | base =>
      cases htype
      rcases h.exists_first with ⟨field, rest, hfield, rfl⟩
      exact ⟨_, start_of_field hbuilt hnames hfield rest, rfl, rfl, rfl⟩
  | extension tag name size selector =>
      rcases hbuilt.extensionTagged?_eq_some_iff.mp htype with ⟨hmem, htag⟩
      rcases hnames.extensions type (mem_extensions_iff.mpr ⟨hmem, tag, htag⟩) with
        ⟨hfield, halias⟩
      exact ⟨_, start_of_extension hbuilt htype hfield halias h.ne_nil, rfl, rfl, htype⟩

/-!
## Agreement
-/

/-- How the list of leaves and the resolution of paths agree. -/
structure Addressed (schema : Schema) : Prop where
  ends : forall type, type ∈ schema.records -> forall outer offset leaves,
    Lists schema outer offset type.fields leaves <->
      leaves = schema.leavesOf schema.records.length outer offset type
  nodup : (schema.leaves.map Leaf.path).Nodup
  targets : forall leaf, leaf ∈ schema.leaves <-> exists target, leaf ∈ schema.leavesAt target
  resolves : forall target leaf, leaf ∈ schema.leavesAt target ->
    leaf.path.toList.count '[' ≤ 1 ->
      exists location, resolve schema leaf.path = .ok location ∧
        schema.bufferType? location.target = schema.bufferType? target ∧
        location.kind = leaf.kind ∧ location.field.category = leaf.category ∧
        location.field.shape = leaf.shape ∧ location.offset = leaf.offset
  refused : forall leaf, leaf ∈ schema.leaves -> 2 ≤ leaf.path.toList.count '[' ->
    exists obstacle span,
      resolve schema leaf.path = .error (.refused (.notFound leaf.path obstacle span))
  complete : forall path location, resolve schema path = .ok location ->
    exists origin leaf, schema.origin? path = some origin ∧
      leaf ∈ schema.leavesAt location.target ∧
      leaf.kind = location.kind ∧ leaf.category = location.field.category ∧
      leaf.shape = location.field.shape ∧
      leaf.offset + displacement schema origin.type origin.path = location.offset

section

variable (hbuild : build declarations aliases = .ok schema) (hnames : schema.Unambiguous)

include hbuild hnames

theorem exists_start_of_mem {target : Target} {leaf : Leaf}
    (h : leaf ∈ schema.leavesAt target) :
    exists (path : Path) (origin : Start) (last : Field) (shift : Nat),
      leaf = leafOf path.text last shift ∧ path ≠ [] ∧ path.Spelled ∧ Plain path ∧
      start schema path = .ok origin ∧
      origin.type ∈ schema.records ∧ path.wholes = origin.path.wholes ∧
      schema.bufferType? origin.target = schema.bufferType? target ∧
      Trail schema origin.type.fields origin.path last shift := by
  have hbuilt := builtFrom_of_build hbuild
  rcases (mem_leavesAt_iff hbuild hnames).mp h with ⟨type, path, last, shift, htype, htrail, rfl⟩
  have hmem := bufferType?_mem hbuilt htype
  rcases exists_start hbuilt hnames htype htrail with ⟨origin, hstart, rfl, rfl, htarget⟩
  refine ⟨front origin.type target ++ origin.path, origin, last, shift, rfl, ?_, ?_, ?_, hstart,
    hmem, ?_, htarget.trans htype.symm, htrail⟩
  · simp [htrail.ne_nil]
  · exact htrail.spelled_behind hbuilt hnames htype
  · exact List.forall_mem_append.mpr ⟨plain_front _ target, htrail.plain⟩
  · cases target with
    | base =>
        rfl
    | extension tag name size selector =>
        exact (Path.wholes_cons _ _).trans (Nat.zero_add _)

theorem resolves_of_mem {target : Target} {leaf : Leaf} (h : leaf ∈ schema.leavesAt target)
    (hcount : leaf.path.toList.count '[' ≤ 1) :
    exists location, resolve schema leaf.path = .ok location ∧
      schema.bufferType? location.target = schema.bufferType? target ∧
      location.kind = leaf.kind ∧ location.field.category = leaf.category ∧
      location.field.shape = leaf.shape ∧ location.offset = leaf.offset := by
  rcases exists_start_of_mem hbuild hnames h with ⟨path, origin, last, shift, rfl, hne, hspelled,
    hplain, hstart, hmem, hwholes, htarget, htrail⟩
  have hone : origin.path.wholes + Place.wholes { offset := 0, projection := none } ≤ 1 := by
    rw [← hwholes, ← count_text hspelled hplain]
    exact hcount
  rcases leads_of_trail (builtFrom_of_build hbuild) origin.target hmem htrail hone with
    ⟨location, hleads, rfl, hoffset⟩
  have hread := (Path.read_text hne hspelled).mpr ⟨hplain.inLimits, rfl⟩
  refine ⟨location, (resolve_of_read hread (Path.alike_spannedFrom path 0) hstart).mpr hleads,
    ?_, rfl, rfl, rfl, ?_⟩
  · rw [hleads.target_eq]
    exact htarget
  · rw [hoffset]
    exact Nat.zero_add shift

theorem refused_of_mem {target : Target} {leaf : Leaf} (h : leaf ∈ schema.leavesAt target)
    (hcount : 2 ≤ leaf.path.toList.count '[') :
    exists obstacle span,
      resolve schema leaf.path = .error (.refused (.notFound leaf.path obstacle span)) := by
  rcases exists_start_of_mem hbuild hnames h with ⟨path, origin, last, shift, rfl, hne, hspelled,
    hplain, hstart, _, hwholes, _, _⟩
  have hread := (Path.read_text hne hspelled).mpr ⟨hplain.inLimits, rfl⟩
  refine resolve_eq_notFound hread (Path.alike_spannedFrom path 0) hstart ?_
  intro location hleads
  have hone := Leads.wholes_le_one hleads
  have htwo : 2 ≤ path.text.toList.count '[' := hcount
  rw [count_text hspelled hplain, hwholes] at htwo
  omega

theorem exists_leaf_of_resolve {path : String} {location : Location}
    (h : resolve schema path = .ok location) :
    exists origin leaf, schema.origin? path = some origin ∧
      leaf ∈ schema.leavesAt location.target ∧
      leaf.kind = location.kind ∧ leaf.category = location.field.category ∧
      leaf.shape = location.field.shape ∧
      leaf.offset + displacement schema origin.type origin.path = location.offset := by
  have hbuilt := builtFrom_of_build hbuild
  rcases resolve_eq_ok.mp h with ⟨origin, horigin, hleads⟩
  have hrooted := rooted_of_origin? hbuilt horigin
  rcases Leads.exists_trail hbuilt hleads (hrooted.type_mem hbuilt) with
    ⟨trail, shift, htrail, hoffset⟩
  have htarget : location.target = origin.target := Leads.target_eq hleads
  refine ⟨origin, leafOf (Path.text (front origin.type location.target ++ trail)) location.field
    shift, horigin, ?_, rfl, rfl, rfl, ?_⟩
  · refine (mem_leavesAt_iff hbuild hnames).mpr ⟨origin.type, trail, location.field, shift, ?_,
      htrail, rfl⟩
    rw [htarget]
    exact hrooted.type_eq
  · rw [hoffset, Nat.zero_add]
    rfl

/-- The list of leaves has exactly the leaves that paths lead to, each once. -/
theorem leaves_addressed : schema.Addressed where
  ends := by
    intro type htype outer offset leaves
    have hlists := lists_leavesOf hbuild htype outer offset
    constructor
    · intro h
      exact h.unique hlists
    · rintro rfl
      exact hlists
  nodup := leaves_nodup hbuild hnames
  targets := fun _ => mem_leaves_iff (builtFrom_of_build hbuild)
  resolves := fun _ _ => resolves_of_mem hbuild hnames
  refused := by
    intro leaf hleaf
    rcases (mem_leaves_iff (builtFrom_of_build hbuild)).mp hleaf with ⟨target, htarget⟩
    exact refused_of_mem hbuild hnames htarget
  complete := fun _ _ => exists_leaf_of_resolve hbuild hnames

end

/-- Names tell the parts of the description of an implementation apart. -/
theorem leaves_addressed_implementationDescription :
    Catalog.implementationDescription.Unambiguous ∧
      Catalog.implementationDescription.Addressed := by
  have hnames : Catalog.implementationDescription.Unambiguous := {
    typeNames := by decide +kernel
    fieldNames := by
      unfold Named
      decide +kernel
    extensions := by decide +kernel
    base := by decide +kernel }
  exact ⟨hnames, leaves_addressed Catalog.build_implementationDescription hnames⟩

end Schema
end VideoConfig
