import VideoConfig.Proofs.Catalog
import VideoConfig.Proofs.Layout.Faults
import VideoConfig.Proofs.Schema

/-!
# Declarations that make a schema

A schema is built exactly from consistent declarations: they can be laid out one behind the
other, one of them declares a base record, and no tag is declared twice. The error that is
told otherwise names the first disagreement. In a schema that is built every record type is
found under its name, and the extensions under their names as well as under their tags.
-/

namespace VideoConfig

def Declaration.tag? (declaration : Declaration) : Option Tag :=
  match declaration.role with
  | .extension tag => some tag
  | _ => none

theorem Declaration.tag?_eq_some {declaration : Declaration} {tag : Tag} :
    declaration.tag? = some tag <-> declaration.role = .extension tag := by
  unfold tag?
  split <;> simp_all

namespace Schema

/-- Declarations from which a schema can be built. -/
structure Consistent (declarations : List Declaration) : Prop
    extends Layout.Coherent declarations where
  base_declared : exists declaration, declaration ∈ declarations ∧ declaration.role = .base
  tags_nodup : (declarations.filterMap Declaration.tag?).Nodup

/-- The first disagreement of declarations. A declaration that does not fit those before it
is told first, then that none declares a base record, and then the first extension whose tag
another one has before. -/
inductive Disagreement (declarations : List Declaration) : LayoutError -> Prop where
  | fault {before after : List Declaration} {declaration : Declaration} {error : LayoutError} :
      declarations = before ++ declaration :: after ->
      Layout.Coherent before ->
      Layout.Fault (before.map Declaration.name) declaration error ->
      Disagreement declarations error
  | missingBase :
      Layout.Coherent declarations ->
      (forall declaration, declaration ∈ declarations -> declaration.role ≠ .base) ->
      Disagreement declarations .missingBase
  | repeatedTag {before after : List Declaration} {declaration : Declaration} {tag : Tag} :
      Layout.Coherent declarations ->
      (exists declaration, declaration ∈ declarations ∧ declaration.role = .base) ->
      declarations = before ++ declaration :: after ->
      declaration.role = .extension tag ->
      (before.filterMap Declaration.tag?).Nodup ->
      tag ∈ before.filterMap Declaration.tag? ->
      Disagreement declarations (.duplicateRecord declaration.name)

/-- What is found in a schema of declarations. Every record type that is declared is found
under its name, the first that is declared as a base record is the base, and the extensions
are found under their names and under their tags. Nothing else is found. -/
structure Finds (schema : Schema) (declarations : List Declaration) : Prop where
  declared : forall declaration, declaration ∈ declarations ->
    exists type, schema.record? declaration.name = some type ∧
      Layout.Natural schema.records declaration type
  declared_only : forall name type, schema.record? name = some type ->
    exists declaration, declaration ∈ declarations ∧ declaration.name = name ∧
      Layout.Natural schema.records declaration type
  base : exists before declaration after, declarations = before ++ declaration :: after ∧
    declaration.role = .base ∧ (forall other, other ∈ before -> other.role ≠ .base) ∧
    schema.record? declaration.name = some schema.base
  extensions : List.Forall₂ (Layout.Natural schema.records)
    (declarations.filter fun declaration => declaration.tag?.isSome) schema.extensions
  agree : forall declaration tag, declaration ∈ declarations ->
    declaration.role = .extension tag ->
      schema.extensionNamed? declaration.name = schema.record? declaration.name ∧
        schema.extensionTagged? tag = schema.record? declaration.name
  named_only : forall name type, schema.extensionNamed? name = some type ->
    exists declaration tag, declaration ∈ declarations ∧ declaration.role = .extension tag ∧
      declaration.name = name
  tagged_only : forall tag type, schema.extensionTagged? tag = some type ->
    exists declaration, declaration ∈ declarations ∧ declaration.role = .extension tag

/-!
## Record types beside their declarations

A record type has the tag and the role of its declaration.
-/

theorem forall₂_middle_iff {α β : Type} {relation : α -> β -> Prop} {items : List α}
    {before after : List β} {item : β} :
    List.Forall₂ relation items (before ++ item :: after) <->
      exists before' item' after', items = before' ++ item' :: after' ∧
        List.Forall₂ relation before' before ∧ relation item' item ∧
        List.Forall₂ relation after' after := by
  induction before generalizing items with
  | nil =>
      rw [List.nil_append, List.forall₂_cons_right_iff]
      constructor
      · rintro ⟨item', after', hitem, hafter, rfl⟩
        exact ⟨[], item', after', rfl, List.Forall₂.nil, hitem, hafter⟩
      · rintro ⟨before', item', after', rfl, hbefore, hitem, hafter⟩
        cases hbefore
        exact ⟨item', after', hitem, hafter, rfl⟩
  | cons first before ih =>
      rw [List.cons_append, List.forall₂_cons_right_iff]
      constructor
      · rintro ⟨first', rest, hfirst, hrest, rfl⟩
        rcases ih.mp hrest with ⟨before', item', after', rfl, hbefore, hitem, hafter⟩
        exact ⟨first' :: before', item', after', rfl, hbefore.cons hfirst, hitem, hafter⟩
      · rintro ⟨before', item', after', rfl, hbefore, hitem, hafter⟩
        cases hbefore with
        | cons hfirst hbefore =>
            exact ⟨_, _, hfirst, ih.mpr ⟨_, _, _, rfl, hbefore, hitem, hafter⟩, rfl⟩

theorem tag?_of_natural {records : List RecordType} {declaration : Declaration}
    {type : RecordType} (h : Layout.Natural records declaration type) :
    type.tag? = declaration.tag? := by
  unfold RecordType.tag? Declaration.tag?
  exact h.role_eq ▸ rfl

theorem tags_of_natural {records types : List RecordType} {declarations : List Declaration}
    (h : List.Forall₂ (Layout.Natural records) declarations types) :
    types.filterMap RecordType.tag? = declarations.filterMap Declaration.tag? := by
  induction h with
  | nil =>
      rfl
  | cons hfirst _ ih =>
      rw [List.filterMap_cons, List.filterMap_cons, tag?_of_natural hfirst, ih]

theorem roles_of_natural {records types : List RecordType} {declarations : List Declaration}
    (h : List.Forall₂ (Layout.Natural records) declarations types) :
    (forall type, type ∈ types -> type.role ≠ .base) <->
      forall declaration, declaration ∈ declarations -> declaration.role ≠ .base := by
  induction h with
  | nil =>
      simp
  | cons hfirst _ ih =>
      rw [List.forall_mem_cons, List.forall_mem_cons, ih, hfirst.role_eq]

/-!
## Tags that are repeated
-/

theorem repeatedTag?_eq_firstRepeat? (seen : List Tag) (types : List RecordType) :
    repeatedTag? seen types = Layout.firstRepeat? RecordType.tag? seen types := by
  induction types generalizing seen with
  | nil =>
      rfl
  | cons type rest ih =>
      unfold repeatedTag? Layout.firstRepeat?
      cases type.tag? <;> simp [ih]

theorem repeatedTag?_eq_none_iff {types : List RecordType} :
    repeatedTag? [] types = none <-> (types.filterMap RecordType.tag?).Nodup := by
  rw [repeatedTag?_eq_firstRepeat?, Layout.firstRepeat?_eq_none]
  simp

theorem repeatedTag?_eq_some {types : List RecordType} {type : RecordType} :
    repeatedTag? [] types = some type <->
      exists before after tag, types = before ++ type :: after ∧ type.tag? = some tag ∧
        (before.filterMap RecordType.tag?).Nodup ∧
        tag ∈ before.filterMap RecordType.tag? := by
  rw [repeatedTag?_eq_firstRepeat?, Layout.firstRepeat?_eq_some]
  simp only [← repeatedTag?_eq_firstRepeat?, repeatedTag?_eq_none_iff, List.not_mem_nil,
    false_or]

/-!
## The schema that is built, or the disagreement

Of record types that are laid out, the base and the tags decide. The base record that is
found is laid out from the first declaration of one, and an extension that is told from the
first declaration that repeats a tag.
-/

section

variable {declarations : List Declaration} {aliases : List (String × String)}
  {types : List RecordType}

theorem build_of_layOutAll (h : Layout.layOutAll [] declarations = .ok types) :
    build declarations aliases =
      match types.find? fun type => type.role = .base with
      | none => .error .missingBase
      | some base =>
          match repeatedTag? [] types with
          | some type => .error (.duplicateRecord type.name)
          | none => .ok { base, records := types, aliases } := by
  unfold build
  rw [h]
  rfl

theorem find?_base_eq_none
    (h : List.Forall₂ (Layout.Natural types) declarations types) :
    (types.find? fun type => type.role = .base) = none <->
      forall declaration, declaration ∈ declarations -> declaration.role ≠ .base := by
  rw [List.find?_eq_none, ← roles_of_natural h]
  simp

theorem find?_base_eq_some
    (h : List.Forall₂ (Layout.Natural types) declarations types) {base : RecordType}
    (hbase : (types.find? fun type => type.role = .base) = some base) :
    exists before declaration after, declarations = before ++ declaration :: after ∧
      declaration.role = .base ∧ (forall other, other ∈ before -> other.role ≠ .base) ∧
      declaration.name = base.name := by
  rcases List.find?_eq_some_iff_append.mp hbase with ⟨hrole, front, back, hsplit, hfront⟩
  rw [hsplit, forall₂_middle_iff] at h
  rcases h with ⟨before, declaration, after, rfl, hbefore, hnatural, _⟩
  refine ⟨before, declaration, after, rfl, ?_, ?_, hnatural.name_eq.symm⟩
  · rw [← hnatural.role_eq]
    simpa using hrole
  · exact (roles_of_natural hbefore).mp (by simpa using hfront)

theorem repeatedTag?_declared
    (h : List.Forall₂ (Layout.Natural types) declarations types) {name : String} :
    (exists type, repeatedTag? [] types = some type ∧ type.name = name) <->
      exists before declaration after tag, declarations = before ++ declaration :: after ∧
        declaration.role = .extension tag ∧
        (before.filterMap Declaration.tag?).Nodup ∧
        tag ∈ before.filterMap Declaration.tag? ∧ declaration.name = name := by
  constructor
  · rintro ⟨type, hrepeated, rfl⟩
    rcases repeatedTag?_eq_some.mp hrepeated with
      ⟨front, back, tag, hsplit, htag, hnodup, hmem⟩
    rw [hsplit, forall₂_middle_iff] at h
    rcases h with ⟨before, declaration, after, rfl, hbefore, hnatural, _⟩
    rw [tag?_of_natural hnatural] at htag
    rw [tags_of_natural hbefore] at hnodup hmem
    exact ⟨before, declaration, after, tag, rfl, Declaration.tag?_eq_some.mp htag, hnodup,
      hmem, hnatural.name_eq.symm⟩
  · rintro ⟨before, declaration, after, tag, rfl, hrole, hnodup, hmem, rfl⟩
    rcases forall₂_middle_iff.mp h.flip with ⟨front, type, back, hsplit, hfront, hnatural, _⟩
    rw [← Declaration.tag?_eq_some, ← tag?_of_natural hnatural] at hrole
    rw [← tags_of_natural hfront.flip] at hnodup hmem
    exact ⟨type, repeatedTag?_eq_some.mpr ⟨front, back, tag, hsplit, hrole, hnodup, hmem⟩,
      hnatural.name_eq⟩

theorem exists_build_iff :
    (exists schema, build declarations aliases = .ok schema) <-> Consistent declarations := by
  constructor
  · rintro ⟨schema, hbuild⟩
    rcases bind_eq_ok.mp hbuild with ⟨types, htypes, _⟩
    have hnatural := Layout.natural_of_layOutAll htypes
    rw [build_of_layOutAll htypes] at hbuild
    split at hbuild
    · cases hbuild
    · next base hbase =>
        split at hbuild
        · cases hbuild
        · next hunrepeated =>
            rcases find?_base_eq_some hnatural hbase with
              ⟨before, declaration, after, rfl, hrole, _, _⟩
            exact {
              toCoherent := Layout.exists_layOutAll_iff.mp ⟨types, htypes⟩
              base_declared := ⟨declaration, by simp, hrole⟩
              tags_nodup := by
                rw [← tags_of_natural hnatural]
                exact repeatedTag?_eq_none_iff.mp hunrepeated }
  · intro h
    rcases Layout.exists_layOutAll_iff.mpr h.toCoherent with ⟨types, htypes⟩
    have hnatural := Layout.natural_of_layOutAll htypes
    rcases h.base_declared with ⟨declaration, hmem, hrole⟩
    have hunrepeated : repeatedTag? [] types = none := by
      rw [repeatedTag?_eq_none_iff, tags_of_natural hnatural]
      exact h.tags_nodup
    rw [build_of_layOutAll htypes, hunrepeated]
    cases hbase : types.find? fun type => type.role = .base with
    | none =>
        exact absurd hrole ((find?_base_eq_none hnatural).mp hbase declaration hmem)
    | some base =>
        exact ⟨_, rfl⟩

theorem build_eq_error {error : LayoutError} :
    build declarations aliases = .error error <-> Disagreement declarations error := by
  constructor
  · intro h
    cases htypes : Layout.layOutAll [] declarations with
    | error fault =>
        have herror : build declarations aliases = .error fault :=
          bind_eq_error.mpr (Or.inl htypes)
        cases h.symm.trans herror
        rcases Layout.layOutAll_eq_error.mp htypes with
          ⟨before, declaration, after, hsplit, hcoherent, hfault⟩
        exact Disagreement.fault hsplit hcoherent hfault
    | ok types =>
        have hcoherent := Layout.exists_layOutAll_iff.mp ⟨types, htypes⟩
        have hnatural := Layout.natural_of_layOutAll htypes
        rw [build_of_layOutAll htypes] at h
        split at h
        · next hbase =>
            cases h
            exact Disagreement.missingBase hcoherent ((find?_base_eq_none hnatural).mp hbase)
        · next base hbase =>
            split at h
            · next type hrepeated =>
                cases h
                rcases find?_base_eq_some hnatural hbase with
                  ⟨_, declared, _, hdeclared, hrole, _, _⟩
                rcases (repeatedTag?_declared hnatural).mp ⟨type, hrepeated, rfl⟩ with
                  ⟨before, declaration, after, tag, hsplit, htag, hnodup, hmem, hname⟩
                rw [← hname]
                exact Disagreement.repeatedTag hcoherent
                  ⟨declared, by simp [hdeclared], hrole⟩ hsplit htag hnodup hmem
            · cases h
  · intro h
    cases h with
    | fault hsplit hcoherent hfault =>
        exact bind_eq_error.mpr (Or.inl
          (Layout.layOutAll_eq_error.mpr ⟨_, _, _, hsplit, hcoherent, hfault⟩))
    | missingBase hcoherent hnone =>
        rcases Layout.exists_layOutAll_iff.mpr hcoherent with ⟨types, htypes⟩
        have hnatural := Layout.natural_of_layOutAll htypes
        rw [build_of_layOutAll htypes, (find?_base_eq_none hnatural).mpr hnone]
    | repeatedTag hcoherent hbase hsplit htag hnodup hmem =>
        rcases Layout.exists_layOutAll_iff.mpr hcoherent with ⟨types, htypes⟩
        have hnatural := Layout.natural_of_layOutAll htypes
        rcases (repeatedTag?_declared hnatural).mpr
          ⟨_, _, _, _, hsplit, htag, hnodup, hmem, rfl⟩ with ⟨type, hrepeated, hname⟩
        rcases hbase with ⟨declared, hdeclared, hrole⟩
        rw [build_of_layOutAll htypes, hrepeated, ← hname]
        cases hfound : types.find? fun type => type.role = .base with
        | none =>
            exact absurd hrole ((find?_base_eq_none hnatural).mp hfound declared hdeclared)
        | some base =>
            rfl

/-!
## What is found in the schema
-/

theorem natural_of_build {schema : Schema} (h : build declarations aliases = .ok schema) :
    List.Forall₂ (Layout.Natural schema.records) declarations schema.records ∧
      (schema.records.find? fun type => type.role = .base) = some schema.base := by
  rcases bind_eq_ok.mp h with ⟨types, htypes, _⟩
  have hnatural := Layout.natural_of_layOutAll htypes
  rw [build_of_layOutAll htypes] at h
  split at h
  · cases h
  · next base hbase =>
      split at h
      · cases h
      · cases h
        exact ⟨hnatural, hbase⟩

theorem finds_of_build {schema : Schema} (h : build declarations aliases = .ok schema) :
    schema.Finds declarations := by
  have hbuilt := builtFrom_of_build h
  rcases natural_of_build h with ⟨hnatural, hbase⟩
  have hdeclared : forall declaration, declaration ∈ declarations ->
      exists type, schema.record? declaration.name = some type ∧
        Layout.Natural schema.records declaration type := by
    intro declaration hmem
    rcases List.append_of_mem hmem with ⟨before, after, hsplit⟩
    rcases forall₂_middle_iff.mp (hsplit ▸ hnatural.flip) with
      ⟨front, type, back, htypes, _, htype, _⟩
    refine ⟨type, hbuilt.record?_eq_some_iff.mpr ⟨?_, htype.name_eq⟩, htype⟩
    simp [htypes]
  have hpartner : forall type, type ∈ schema.records ->
      exists declaration, declaration ∈ declarations ∧
        Layout.Natural schema.records declaration type := by
    intro type hmem
    rcases List.append_of_mem hmem with ⟨front, back, hsplit⟩
    have hnatural' := hnatural
    rw [hsplit, forall₂_middle_iff] at hnatural'
    rcases hnatural' with ⟨before, declaration, after, rfl, _, htype, _⟩
    rw [← hsplit] at htype
    exact ⟨declaration, by simp, htype⟩
  exact {
    declared := hdeclared
    declared_only := by
      intro name type hfind
      rcases hbuilt.record?_eq_some_iff.mp hfind with ⟨hmem, rfl⟩
      rcases hpartner type hmem with ⟨declaration, hdeclaration, htype⟩
      exact ⟨declaration, hdeclaration, htype.name_eq.symm, htype⟩
    base := by
      rcases find?_base_eq_some hnatural hbase with
        ⟨before, declaration, after, hsplit, hrole, hfirst, hname⟩
      refine ⟨before, declaration, after, hsplit, hrole, hfirst, ?_⟩
      exact hbuilt.record?_eq_some_iff.mpr ⟨hbuilt.base_mem, hname.symm⟩
    extensions := by
      refine List.rel_filter ?_ hnatural
      intro declaration type htype
      change declaration.tag?.isSome = true <-> type.tag?.isSome = true
      rw [tag?_of_natural htype]
    agree := by
      intro declaration tag hmem hrole
      rcases hdeclared declaration hmem with ⟨type, hfind, htype⟩
      have htag : type.tag? = some tag := by
        rw [tag?_of_natural htype]
        exact Declaration.tag?_eq_some.mpr hrole
      rw [hfind]
      exact ⟨hbuilt.extensionNamed?_eq_some_iff.mpr ⟨hfind, tag, htag⟩,
        hbuilt.extensionTagged?_eq_some_iff.mpr ⟨(record?_eq_some hfind).left, htag⟩⟩
    named_only := by
      intro name type hfind
      rcases hbuilt.extensionNamed?_eq_some_iff.mp hfind with ⟨hfind, tag, htag⟩
      rcases hbuilt.record?_eq_some_iff.mp hfind with ⟨hmem, rfl⟩
      rcases hpartner type hmem with ⟨declaration, hdeclaration, htype⟩
      rw [tag?_of_natural htype, Declaration.tag?_eq_some] at htag
      exact ⟨declaration, tag, hdeclaration, htag, htype.name_eq.symm⟩
    tagged_only := by
      intro tag type hfind
      rcases hbuilt.extensionTagged?_eq_some_iff.mp hfind with ⟨hmem, htag⟩
      rcases hpartner type hmem with ⟨declaration, hdeclaration, htype⟩
      rw [tag?_of_natural htype, Declaration.tag?_eq_some] at htag
      exact ⟨declaration, hdeclaration, htag⟩ }

end

/-- Consistent declarations make a schema in which everything that is declared is found, and
of all others the first disagreement is told. -/
theorem build_settles (declarations : List Declaration) (aliases : List (String × String)) :
    ((exists schema, build declarations aliases = .ok schema) <-> Consistent declarations) ∧
      (forall error, build declarations aliases = .error error <->
        Disagreement declarations error) ∧
      forall schema, build declarations aliases = .ok schema -> schema.Finds declarations :=
  ⟨exists_build_iff, fun _ => build_eq_error, fun _ => finds_of_build⟩

/-- The video parameters are found as they are declared. With one of their extensions
declared under another name as well, the second declaration of the tag is told. -/
theorem build_settles_videoParameters :
    let again : Declaration :=
      { name := "mfxExtCodingOptionAgain", role := .extension (Catalog.tag "CDO2"), entries := [] }
    Consistent Catalog.videoDeclarations ∧
      Catalog.videoParameters.Finds Catalog.videoDeclarations ∧
      Disagreement (Catalog.videoDeclarations ++ [again])
        (.duplicateRecord "mfxExtCodingOptionAgain") := by
  intro again
  rcases build_settles Catalog.videoDeclarations Catalog.videoAliases with ⟨hok, _, hfinds⟩
  rcases build_settles (Catalog.videoDeclarations ++ [again]) [] with ⟨_, herror, _⟩
  have hrepeated : build (Catalog.videoDeclarations ++ [again]) [] =
      .error (.duplicateRecord "mfxExtCodingOptionAgain") := by
    decide +kernel
  exact ⟨hok.mp ⟨_, Catalog.build_videoParameters⟩, hfinds _ Catalog.build_videoParameters,
    (herror _).mp hrepeated⟩

end Schema
end VideoConfig
