import VideoConfig.Proofs.Layout.RecordTypes
import VideoConfig.Schema

/-!
# Schemas that are built

A schema that is built from declarations holds a record type for each of them. Names and
tags tell its record types apart, and a field that embeds a record has the size and the
alignment of a record type of the schema.
-/

namespace VideoConfig
namespace Schema

structure BuiltFrom (schema : Schema) (declarations : List Declaration)
    (aliases : List (String × String)) : Prop where
  laidOut : List.Forall₂ (Layout.LaidOut schema.records) declarations schema.records
  names_nodup : (schema.records.map RecordType.name).Nodup
  base_mem : schema.base ∈ schema.records
  base_role : schema.base.role = .base
  tag_injective : forall first second tag, first ∈ schema.records ->
    second ∈ schema.records -> first.tag? = some tag -> second.tag? = some tag ->
      first = second
  aliases_eq : schema.aliases = aliases

/-!
## Tags
-/

theorem repeatedTag?_eq_none {seen : List Tag} {types : List RecordType}
    (h : repeatedTag? seen types = none) :
    (forall type tag, type ∈ types -> type.tag? = some tag -> tag ∉ seen) ∧
      forall first second tag, first ∈ types -> second ∈ types ->
        first.tag? = some tag -> second.tag? = some tag -> first = second := by
  induction types generalizing seen with
  | nil =>
      constructor
      · intro type tag hmem
        cases hmem
      · intro first second tag hmem
        cases hmem
  | cons type rest ih =>
      unfold repeatedTag? at h
      cases htag : type.tag? with
      | none =>
          simp only [htag] at h
          rcases ih h with ⟨hseen, hinjective⟩
          constructor
          · intro other tag hmem hother
            rcases List.mem_cons.mp hmem with rfl | hmem
            · rw [htag] at hother
              cases hother
            · exact hseen other tag hmem hother
          · intro first second tag hfirst hsecond hfirstTag hsecondTag
            rcases List.mem_cons.mp hfirst with rfl | hfirst
            · rw [htag] at hfirstTag
              cases hfirstTag
            · rcases List.mem_cons.mp hsecond with rfl | hsecond
              · rw [htag] at hsecondTag
                cases hsecondTag
              · exact hinjective first second tag hfirst hsecond hfirstTag hsecondTag
      | some own =>
          simp only [htag] at h
          split at h
          · cases h
          · next hnew =>
              rcases ih h with ⟨hseen, hinjective⟩
              have hown : forall other tag, other ∈ rest -> other.tag? = some tag ->
                  tag ≠ own := by
                intro other tag hmem hother heq
                exact hseen other tag hmem hother (heq ▸ List.mem_cons_self)
              constructor
              · intro other tag hmem hother
                rcases List.mem_cons.mp hmem with rfl | hmem
                · rw [htag] at hother
                  cases hother
                  simpa using hnew
                · intro hin
                  exact hseen other tag hmem hother (List.mem_cons_of_mem own hin)
              · intro first second tag hfirst hsecond hfirstTag hsecondTag
                rcases List.mem_cons.mp hfirst with rfl | hfirstRest <;>
                  rcases List.mem_cons.mp hsecond with rfl | hsecondRest
                · rfl
                · rw [htag] at hfirstTag
                  cases hfirstTag
                  exact absurd rfl (hown second own hsecondRest hsecondTag)
                · rw [htag] at hsecondTag
                  cases hsecondTag
                  exact absurd rfl (hown first own hfirstRest hfirstTag)
                · exact hinjective first second tag hfirstRest hsecondRest hfirstTag
                    hsecondTag

theorem role_of_tag? {type : RecordType} {tag : Tag} (h : type.tag? = some tag) :
    type.role = .extension tag := by
  unfold RecordType.tag? at h
  split at h
  · next hrole =>
      cases h
      exact hrole
  · cases h

/-!
## Building

A record type is laid out from the declaration of its name, and embeds only record types
that are declared before it.
-/

theorem builtFrom_of_build {declarations : List Declaration}
    {aliases : List (String × String)} {schema : Schema}
    (h : build declarations aliases = .ok schema) :
    schema.BuiltFrom declarations aliases := by
  rcases bind_eq_ok.mp h with ⟨records, hrecords, h⟩
  have hempty : Layout.AllAligned [] := by
    intro type hmem
    cases hmem
  rcases Layout.layOutAll_laidOut hempty List.nodup_nil hrecords with
    ⟨new, hnew, hlaidOut, hnodup⟩
  have hrecordsNew : records = new := hnew
  split at h
  · cases h
  · next base hbase =>
      split at h
      · cases h
      · next hrepeated =>
          cases h
          exact {
            laidOut := by
              have hlaidOut' : List.Forall₂ (Layout.LaidOut records) declarations records := by
                rw [← hrecordsNew] at hlaidOut
                exact hlaidOut
              exact hlaidOut'
            names_nodup := hnodup
            base_mem := List.mem_of_find?_eq_some hbase
            base_role := by simpa using List.find?_some hbase
            tag_injective := (repeatedTag?_eq_none hrepeated).right
            aliases_eq := rfl }

theorem grounded_of_build {declarations : List Declaration}
    {aliases : List (String × String)} {schema : Schema}
    (h : build declarations aliases = .ok schema) : Layout.Grounded schema.records := by
  rcases bind_eq_ok.mp h with ⟨records, hrecords, h⟩
  have hempty : Layout.AllAligned [] := by
    intro type hmem
    cases hmem
  split at h
  · cases h
  · split at h
    · cases h
    · cases h
      exact Layout.layOutAll_grounded hempty Layout.Grounded.nil hrecords

theorem record?_eq_some {schema : Schema} {name : String} {type : RecordType}
    (h : schema.record? name = some type) : type ∈ schema.records ∧ type.name = name :=
  ⟨List.mem_of_find?_eq_some h, by simpa using List.find?_some h⟩

theorem mem_extensions_iff {schema : Schema} {type : RecordType} :
    type ∈ schema.extensions <-> type ∈ schema.records ∧ exists tag, type.tag? = some tag := by
  unfold extensions
  rw [List.mem_filter, Option.isSome_iff_exists]

theorem extensionNamed?_eq_some {schema : Schema} {name : String} {type : RecordType}
    (hfind : schema.extensionNamed? name = some type) :
    type ∈ schema.records ∧ type.name = name :=
  ⟨List.mem_of_mem_filter (List.mem_of_find?_eq_some hfind),
    by simpa using List.find?_some hfind⟩

namespace BuiltFrom

variable {schema : Schema} {declarations : List Declaration}
  {aliases : List (String × String)}

theorem exists_declaration (h : schema.BuiltFrom declarations aliases)
    {type : RecordType} (hmem : type ∈ schema.records) :
    exists declaration, declaration ∈ declarations ∧
      Layout.LaidOut schema.records declaration type := by
  rcases List.mem_iff_getElem.mp hmem with ⟨i, hi, rfl⟩
  have hlength := h.laidOut.length_eq
  refine ⟨declarations[i], List.getElem_mem (hlength ▸ hi), ?_⟩
  exact h.laidOut.get (hlength ▸ hi) hi

theorem laidOut_of_name (h : schema.BuiltFrom declarations aliases)
    {declaration : Declaration} {type : RecordType} (hdeclaration : declaration ∈ declarations)
    (htype : type ∈ schema.records) (hname : declaration.name = type.name) :
    Layout.LaidOut schema.records declaration type := by
  rcases List.mem_iff_getElem.mp hdeclaration with ⟨i, hi, rfl⟩
  have hlength := h.laidOut.length_eq
  have hi' : i < schema.records.length := hlength ▸ hi
  have hlaidOut := h.laidOut.get hi hi'
  have hsame : schema.records[i] = type := by
    refine List.inj_on_of_nodup_map h.names_nodup (List.getElem_mem _) htype ?_
    exact hlaidOut.name_eq.trans hname
  rw [← hsame]
  exact hlaidOut

theorem record?_eq_some_iff (h : schema.BuiltFrom declarations aliases) {name : String}
    {type : RecordType} :
    schema.record? name = some type <-> type ∈ schema.records ∧ type.name = name := by
  constructor
  · exact record?_eq_some
  · rintro ⟨hmem, rfl⟩
    refine Layout.find?_eq_some_of_unique hmem (by simp) ?_
    intro other hother htest
    exact List.inj_on_of_nodup_map h.names_nodup hother hmem (by simpa using htest)

theorem extensionNamed?_eq_some_iff (h : schema.BuiltFrom declarations aliases)
    {name : String} {type : RecordType} :
    schema.extensionNamed? name = some type <->
      schema.record? name = some type ∧ exists tag, type.tag? = some tag := by
  rw [h.record?_eq_some_iff]
  constructor
  · intro hfind
    have hmem := mem_extensions_iff.mp (List.mem_of_find?_eq_some hfind)
    exact ⟨⟨hmem.left, by simpa using List.find?_some hfind⟩, hmem.right⟩
  · rintro ⟨⟨hmem, rfl⟩, htag⟩
    refine Layout.find?_eq_some_of_unique (mem_extensions_iff.mpr ⟨hmem, htag⟩) (by simp) ?_
    intro other hother htest
    exact List.inj_on_of_nodup_map h.names_nodup (mem_extensions_iff.mp hother).left hmem
      (by simpa using htest)

theorem extensionTagged?_eq_some_iff (h : schema.BuiltFrom declarations aliases)
    {tag : Tag} {type : RecordType} :
    schema.extensionTagged? tag = some type <->
      type ∈ schema.records ∧ type.tag? = some tag := by
  constructor
  · intro hfind
    have hmem := List.mem_of_find?_eq_some hfind
    exact ⟨List.mem_of_mem_filter hmem, by simpa using List.find?_some hfind⟩
  · rintro ⟨hmem, htag⟩
    have hextension : type ∈ schema.extensions :=
      List.mem_filter.mpr ⟨hmem, by rw [htag]; rfl⟩
    refine Layout.find?_eq_some_of_unique hextension (by simp [htag]) ?_
    intro other hother htest
    exact h.tag_injective other type tag (List.mem_of_mem_filter hother) hmem
      (by simpa using htest) htag

/-!
## Fields of its record types

The alignment of a field divides its offset and the alignment of its record. The header fits
every extension.
-/

theorem field?_eq_some_iff (h : schema.BuiltFrom declarations aliases)
    {type : RecordType} (htype : type ∈ schema.records) {name : String} {field : Field} :
    type.field? name = some field <-> field ∈ type.fields ∧ field.name = name := by
  rcases h.exists_declaration htype with ⟨_, _, hlaidOut⟩
  exact hlaidOut.field?_eq_some_iff

theorem seated (h : schema.BuiltFrom declarations aliases) {type : RecordType}
    (htype : type ∈ schema.records) {field : Field} (hfield : field ∈ type.fields) :
    Layout.Seated schema.records type.align 0 type.size field := by
  rcases h.exists_declaration htype with ⟨_, _, hlaidOut⟩
  exact hlaidOut.seated field hfield

theorem allAligned (h : schema.BuiltFrom declarations aliases) :
    Layout.AllAligned schema.records := by
  intro type htype
  rcases h.exists_declaration htype with ⟨_, _, hlaidOut⟩
  exact hlaidOut.isAlignment

theorem measure_dvd (h : schema.BuiltFrom declarations aliases) {type : RecordType}
    (htype : type ∈ schema.records) {field : Field} (hfield : field ∈ type.fields) :
    exists element, Layout.measure schema.records field.owner field.kind = .ok element ∧
      field.size = element.size ∧ element.align ∣ field.offset ∧
        element.align ∣ type.align := by
  rcases (h.seated htype hfield).measured with ⟨element, hmeasure, hsize, hdvd, hle⟩
  refine ⟨element, hmeasure, hsize, hdvd, ?_⟩
  exact (Layout.measure_isAlignment h.allAligned hmeasure).dvd_of_le
    (h.allAligned type htype) hle

theorem scalar_field (h : schema.BuiltFrom declarations aliases) {type : RecordType}
    (htype : type ∈ schema.records) {field : Field} (hfield : field ∈ type.fields)
    {scalar : Scalar} (hkind : field.kind = .scalar scalar) :
    field.size = scalar.size ∧ field.size ∣ field.offset ∧ field.size ∣ type.align := by
  rcases h.measure_dvd htype hfield with ⟨element, hmeasure, hsize, hoffset, halign⟩
  rw [hkind] at hmeasure
  cases hmeasure
  rw [hsize]
  exact ⟨rfl, hoffset, halign⟩

theorem record_field (h : schema.BuiltFrom declarations aliases) {type : RecordType}
    (htype : type ∈ schema.records) {field : Field} (hfield : field ∈ type.fields)
    {name : String} (hkind : field.kind = .record name) {inner : RecordType}
    (hinner : schema.record? name = some inner) :
    field.size = inner.size ∧ inner.align ∣ field.offset ∧ inner.align ∣ type.align := by
  rcases h.measure_dvd htype hfield with ⟨element, hmeasure, hsize, hoffset, halign⟩
  rw [hkind] at hmeasure
  rcases Layout.measure_record_eq_ok.mp hmeasure with ⟨found, hfind, rfl⟩
  have hsame : found = inner := by
    have hfind' : schema.record? name = some found := hfind
    rw [hinner] at hfind'
    cases hfind'
    rfl
  subst hsame
  exact ⟨hsize, hoffset, halign⟩

theorem headerSize_le (h : schema.BuiltFrom declarations aliases) {tag : Tag}
    {type : RecordType} (hfind : schema.extensionTagged? tag = some type) :
    Layout.headerSize ≤ type.size := by
  rcases h.extensionTagged?_eq_some_iff.mp hfind with ⟨htype, htag⟩
  rcases h.exists_declaration htype with ⟨_, _, hlaidOut⟩
  rcases hlaidOut.header tag (role_of_tag? htag) with ⟨body, hfields, _⟩
  have hlast : { name := "BufferSz", kind := .u32, category := .value, offset := 4
                 size := 4, shape := [], owner := type.name } ∈ type.fields := by
    rw [hfields]
    exact List.mem_append_left body (by simp [Layout.headerFields])
  exact (hlaidOut.seated _ hlast).le_stop

end BuiltFrom
end Schema
end VideoConfig
