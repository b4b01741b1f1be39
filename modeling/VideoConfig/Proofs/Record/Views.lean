import VideoConfig.Proofs.Access.Applying
import VideoConfig.Proofs.Location.Agreement
import VideoConfig.Proofs.Schema.Addressing
import VideoConfig.Record.View

/-!
# Views and paths

A view cuts the bytes of a nested record out of those of the record around it, and a path adds
up offsets from the start of the buffer. Along the same names both come to the same bytes. What
a view has of a field is the first of the values that are got through the path.
-/

namespace VideoConfig

theorem Bytes.slice?_slice? {buffer part : Bytes} {offset size shift length : Nat}
    (h : buffer.slice? offset size = some part) (hinside : shift + length ≤ size) :
    part.slice? shift length = buffer.slice? (offset + shift) length := by
  have hlength := length_of_slice? h
  rcases slice?_eq_some.mp h with ⟨hfits, hpart⟩
  have htaken : (part.drop shift).take length = (buffer.drop (offset + shift)).take length := by
    rw [← hpart, List.drop_take, List.take_take, List.drop_drop]
    congr 1
    omega
  unfold slice?
  rw [if_pos (by omega), if_pos (by omega), htaken]

def Schema.Filled (schema : Schema) : Prop :=
  forall type, type ∈ schema.records -> forall field, field ∈ type.fields ->
    forall length, length ∈ field.shape -> 0 < length

instance (schema : Schema) : Decidable schema.Filled :=
  inferInstanceAs (Decidable (forall type, type ∈ schema.records ->
    forall field, field ∈ type.fields -> forall length, length ∈ field.shape -> 0 < length))

theorem elementCount_pos {shape : List Nat} (h : forall length, length ∈ shape -> 0 < length) :
    0 < elementCount shape := by
  induction shape with
  | nil =>
      exact Nat.one_pos
  | cons length rest ih =>
      rcases List.forall_mem_cons.mp h with ⟨hlength, hrest⟩
      exact Nat.mul_pos hlength (ih hrest)

section Built

variable {schema : Schema} {declarations : List Declaration}
  {aliases : List (String × String)}

/-!
## Fields of a view
-/

namespace View

theorem get?_text {view : View} {name : String} {field : Field} {scalar : Scalar}
    (hfield : view.type.field? name = some field) (hkind : field.kind = .scalar scalar)
    (htext : field.isText = true) :
    view.get? name = (view.bytes.slice? field.offset field.bytes).map Value.ofTextBytes := by
  unfold get?
  rw [hfield]
  simp only [Option.bind_eq_bind, Option.bind_some, hkind, htext, if_true]
  cases view.bytes.slice? field.offset field.bytes <;> rfl

theorem get?_scalar {view : View} {name : String} {field : Field} {scalar : Scalar}
    (hfield : view.type.field? name = some field) (hkind : field.kind = .scalar scalar)
    (htext : field.isText = false) :
    view.get? name =
      (view.bytes.slice? field.offset field.size).bind (Value.decodeScalar? scalar) := by
  unfold get?
  rw [hfield]
  simp only [Option.bind_eq_bind, Option.bind_some, hkind, htext, Bool.false_eq_true, if_false]

theorem nested?_record {view : View} {name inner : String} {field : Field} {type : RecordType}
    (hfield : view.type.field? name = some field) (hkind : field.kind = .record inner)
    (hinner : view.schema.record? inner = some type) :
    view.nested? name = (view.bytes.slice? field.offset type.size).map fun bytes =>
      { schema := view.schema, type, bytes } := by
  unfold nested?
  rw [hfield]
  simp only [Option.bind_eq_bind, Option.bind_some, hkind, hinner]
  cases view.bytes.slice? field.offset type.size <;> rfl

theorem descend?_cons {view : View} {name inner : String} {others : List String} {field : Field}
    {type : RecordType} {bytes : Bytes} (hfield : view.type.field? name = some field)
    (hkind : field.kind = .record inner) (hinner : view.schema.record? inner = some type)
    (hslice : view.bytes.slice? field.offset type.size = some bytes) :
    view.descend? (name :: others) =
      View.descend? { schema := view.schema, type, bytes } others := by
  unfold descend?
  rw [List.foldlM_cons, nested?_record hfield hkind hinner, hslice]
  rfl

end View

namespace Location

/-!
## The first element of a location

Where no array is empty a walk leads to at least one element.
-/

def first? (location : Location) (buffer : Bytes) : Option Value :=
  if location.text then
    (buffer.slice? location.offset location.capacity).map Value.ofTextBytes
  else
    location.readElement? buffer 0

theorem WellPlaced.exists_first? {location : Location} {type : RecordType}
    (h : location.WellPlaced type) (hcount : 0 < location.count) {buffer : Bytes}
    (hlength : buffer.length = type.size) :
    exists value rest, location.read buffer = value :: rest ∧
      location.first? buffer = some value := by
  unfold first?
  cases htext : location.text with
  | true =>
      rcases h.read_text htext hlength with ⟨part, hpart, hread⟩
      refine ⟨_, [], hread, ?_⟩
      rw [if_pos rfl, hpart]
      rfl
  | false =>
      rcases h.read_elements htext hlength with ⟨hlengthRead, helements⟩
      cases hread : location.read buffer with
      | nil =>
          rw [hread] at hlengthRead
          exact absurd hlengthRead (Nat.ne_of_lt hcount)
      | cons value rest =>
          have hfirst := helements 0 hcount
          rw [hread, List.getElem?_cons_zero] at hfirst
          exact ⟨value, rest, rfl, hfirst.symm⟩

theorem enter_filled (hfilled : schema.Filled) {type : RecordType} (htype : type ∈ schema.records)
    {place place' : Place} {field : Field} {element : Nat} {segment : Segment}
    {selection : Selection} (hfield : type.field? segment.name = some field)
    (h : enter place field element segment selection = .ok place')
    (hplace : forall projection, place.projection = some projection -> 0 < projection.count) :
    forall projection, place'.projection = some projection -> 0 < projection.count := by
  intro projection hprojection
  rcases (enter_eq_ok h).right.left with ⟨_, _, hall⟩ | ⟨_, hkeep⟩
  · cases hall.symm.trans hprojection
    exact elementCount_pos (hfilled type htype field (RecordType.field?_eq_some hfield).left)
  · rw [hkeep] at hprojection
    exact hplace projection hprojection

theorem Leads.count_pos (hfilled : schema.Filled) {target : Target} {type : RecordType}
    {place : Place} {path : Path} {location : Location}
    (h : Leads schema target type place path location) (htype : type ∈ schema.records)
    (hplace : forall projection, place.projection = some projection -> 0 < projection.count) :
    0 < location.count := by
  induction h with
  | leaf hfield _ _ henter hleaf =>
      rcases leaf_eq_ok hleaf with
        ⟨_, _, _, _, ⟨projection, hprojection, _, _, hcount⟩ | ⟨_, _, hcount⟩⟩
      · rw [hcount]
        exact enter_filled hfilled htype hfield henter hplace projection hprojection
      · rw [hcount]
        exact Nat.one_pos
  | nested hfield _ hinner _ henter _ ih =>
      exact ih (Schema.record?_eq_some hinner).left
        (enter_filled hfilled htype hfield henter hplace)

/-!
## Views along a walk

Without an index a text is selected exactly in an array of bytes of text. What stands first
at the location of a field is cut out of the bytes of the record around it.
-/

theorem enter_unindexed {place place' : Place} {field : Field} {element : Nat}
    {segment : Segment} {selection : Selection} (hindex : segment.index = none)
    (hselect : select field segment = .ok selection)
    (h : enter place field element segment selection = .ok place') :
    place'.offset = place.offset + field.offset := by
  have hposition : segment.position field = 0 := by
    unfold Segment.position
    rw [hindex]
  rw [(enter_eq_ok h).left, position_of_select hselect, hposition, Nat.mul_zero, Nat.add_zero]

theorem select_unindexed {field : Field} {segment : Segment} {selection : Selection}
    (hindex : segment.index = none) (h : select field segment = .ok selection) :
    decide (selection = .text) = field.isText := by
  unfold select at h
  rw [hindex] at h
  cases harray : field.isArray with
  | false =>
      rw [harray] at h
      cases h
      simp [Field.isText, harray]
  | true =>
      rw [harray] at h
      cases h
      cases field.isText <;> rfl

theorem field_stop_le (hbuilt : schema.BuiltFrom declarations aliases)
    (hfilled : schema.Filled) {type : RecordType} (htype : type ∈ schema.records) {name : String}
    {field : Field} (hfield : type.field? name = some field) :
    field.offset + field.size ≤ type.size := by
  have hmem := (RecordType.field?_eq_some hfield).left
  have hstop : field.offset + field.size * field.count ≤ type.size :=
    (hbuilt.seated htype hmem).le_stop
  have hone : field.size * 1 ≤ field.size * field.count :=
    Nat.mul_le_mul_left _ (elementCount_pos (hfilled type htype field hmem))
  omega

theorem leaf_view_first? (hbuilt : schema.BuiltFrom declarations aliases)
    (hfilled : schema.Filled) {target : Target} {type : RecordType} {place place' : Place}
    {segment : Segment} {field : Field} {scalar : Scalar} {selection : Selection}
    {location : Location} (htype : type ∈ schema.records)
    (hfield : type.field? segment.name = some field) (hkind : field.kind = .scalar scalar)
    (hindex : segment.index = none) (hselect : select field segment = .ok selection)
    (henter : enter place field field.size segment selection = .ok place')
    (hleaf : leaf target place' field segment selection = .ok location)
    {buffer bytes : Bytes} (hslice : buffer.slice? place.offset type.size = some bytes) :
    View.get? { schema, type, bytes } segment.name = location.first? buffer := by
  rcases leaf_eq_ok hleaf with ⟨rfl, _, hoffset, htext, _⟩
  rw [select_unindexed hindex hselect] at htext
  rw [enter_unindexed hindex hselect henter] at hoffset
  unfold first? capacity
  rw [htext, hoffset]
  cases hisText : location.field.isText with
  | true =>
      have hmem := (RecordType.field?_eq_some hfield).left
      rw [View.get?_text hfield hkind hisText,
        Bytes.slice?_slice? hslice (hbuilt.seated htype hmem).le_stop]
      rfl
  | false =>
      rw [View.get?_scalar hfield hkind hisText,
        Bytes.slice?_slice? hslice (field_stop_le hbuilt hfilled htype hfield)]
      unfold readElement? elementOffset elementSize kind
      rw [hkind, hoffset, Nat.zero_mul, Nat.add_zero]
      rfl

/-- A view of the record at a place reads along names without an index what stands first at
the location to which they lead. -/
theorem Leads.view_first? (hbuilt : schema.BuiltFrom declarations aliases)
    (hfilled : schema.Filled) {target : Target} {type : RecordType} {place : Place}
    {path : Path} {location : Location}
    (h : Leads schema target type place path location) (htype : type ∈ schema.records)
    {names : List String} {last : String} (hnames : path.map Segment.name = names ++ [last])
    (hindexes : forall segment, segment ∈ path -> segment.index = none)
    {buffer bytes : Bytes} (hslice : buffer.slice? place.offset type.size = some bytes) :
    (View.descend? { schema, type, bytes } names).bind (fun view => view.get? last) =
      location.first? buffer := by
  induction h generalizing names bytes with
  | @leaf type place place' segment field scalar selection location hfield hkind hselect henter
      hleaf =>
      have hname : names = [] ∧ segment.name = last := by
        cases names with
        | nil =>
            simpa using hnames
        | cons name others =>
            simp at hnames
      rcases hname with ⟨rfl, rfl⟩
      exact leaf_view_first? hbuilt hfilled htype hfield hkind
        (hindexes segment List.mem_cons_self) hselect henter hleaf hslice
  | @nested type inner place place' segment rest field name selection location hfield hkind
      hinner hselect henter hrest ih =>
      rcases List.forall_mem_cons.mp hindexes with ⟨hindex, hothers⟩
      have hsize : field.size = inner.size :=
        (hbuilt.record_field htype (RecordType.field?_eq_some hfield).left hkind hinner).left
      have hfits : field.offset + inner.size ≤ type.size := by
        rw [← hsize]
        exact field_stop_le hbuilt hfilled htype hfield
      cases names with
      | nil =>
          have hnil : rest = [] := by simpa using congrArg List.length hnames
          exact absurd hnil hrest.ne_nil
      | cons first others =>
          rw [List.map_cons, List.cons_append, List.cons.injEq] at hnames
          rcases hnames with ⟨rfl, hrestNames⟩
          -- The bytes of the nested record are cut out of those of the record around it.
          have hpart := Bytes.slice?_slice? hslice hfits
          have hroom : field.offset + inner.size ≤ bytes.length := by
            rw [Bytes.length_of_slice? hslice]
            exact hfits
          rcases Bytes.exists_slice? hroom with ⟨part, hbytes, _⟩
          rw [hbytes, ← enter_unindexed hindex hselect henter] at hpart
          rw [View.descend?_cons hfield hkind hinner hbytes]
          exact ih (Schema.record?_eq_some hinner).left hrestNames hothers hpart.symm

theorem Start.LeadsTo.view_first (hbuilt : schema.BuiltFrom declarations aliases)
    (hfilled : schema.Filled) {origin : Start} {location : Location}
    (h : origin.LeadsTo schema location) (hrooted : origin.Rooted schema)
    {names : List String} {last : String}
    (hnames : origin.path.map Segment.name = names ++ [last])
    (hindexes : forall segment, segment ∈ origin.path -> segment.index = none)
    {buffer : Bytes} (hlength : buffer.length = origin.type.size) :
    exists value rest, location.read buffer = value :: rest ∧
      (View.descend? { schema, type := origin.type, bytes := buffer } names).bind
        (fun view => view.get? last) = some value := by
  have htype := hrooted.type_mem hbuilt
  have hcount := Leads.count_pos hfilled h htype (by simp)
  rcases (h.wellPlaced hbuilt hrooted).exists_first? hcount hlength with
    ⟨value, rest, hread, hfirst⟩
  have hslice : buffer.slice? 0 origin.type.size = some buffer :=
    Bytes.slice?_eq_some.mpr ⟨by omega, by rw [List.drop_zero, ← hlength, List.take_length]⟩
  have hview := Leads.view_first? hbuilt hfilled h htype hnames hindexes hslice
  exact ⟨value, rest, hread, hview.trans hfirst⟩

end Location

/-!
## Paths of names

Names with points between them are read as their path.
-/

namespace Path

def ofNames (names : List String) : Path :=
  names.map fun name => { name, index := none, span := { offset := 0, length := 0 } }

theorem names_ofNames (names : List String) :
    (ofNames names).map Segment.name = names := by
  simp [ofNames, Function.comp_def]

theorem index_ofNames {names : List String} {segment : Segment}
    (h : segment ∈ ofNames names) : segment.index = none := by
  rcases List.mem_map.mp h with ⟨name, _, rfl⟩
  rfl

theorem text_ofNames (names : List String) :
    (ofNames names).text = String.intercalate "." names := by
  refine String.toList_inj.mp ?_
  rw [text, String.toList_ofList, String.toList_intercalate, chars, ofNames, List.map_map]
  congr 1
  refine List.map_congr_left ?_
  intro name _
  simp [Segment.text]

theorem read_ofNames {names : List String} (hne : names ≠ [])
    (hnames : forall name, name ∈ names -> isName name.toList = true) :
    exists read, Path.read (String.intercalate "." names) = .ok read ∧
      read.Alike (ofNames names) := by
  have hpath : ofNames names ≠ [] := by simpa [ofNames] using hne
  have hspelled : (ofNames names).Spelled := by
    intro segment hsegment
    rcases List.mem_map.mp hsegment with ⟨name, hname, rfl⟩
    exact ⟨hnames name hname, by simp⟩
  have hlimits : (ofNames names).InLimits := by
    intro segment hsegment indexes hindex
    rw [index_ofNames hsegment] at hindex
    cases hindex
  rw [← text_ofNames]
  exact ⟨_, (read_text hpath hspelled).mpr ⟨hlimits, rfl⟩, alike_spannedFrom _ 0⟩

end Path

namespace Record

variable {record : Record}

/-!
## Views of attached buffers

An extension is viewed in the buffer that its path means without a selector. Where none is
attached, neither the view nor the path has anything to read.
-/

theorem extensionView?_eq {tag : Tag} {type : RecordType}
    (htype : record.schema.extensionTagged? tag = some type) (name : String) (size : Nat) :
    record.extensionView? tag =
      (record.bufferOf? (.extension tag name size none)).map fun bytes =>
        { schema := record.schema, type, bytes } := by
  have hfirst : (record.attachments.find? fun attachment => attachment.tag = tag) =
      (record.attachmentsOf tag)[0]? := by
    rw [← List.head?_eq_getElem?, attachmentsOf, List.head?_filter]
  have hbuffer : record.bufferOf? (.extension tag name size none) =
      (record.attachmentsOf tag)[0]?.map Attachment.bytes :=
    bind_findInstance? record tag 0
  unfold extensionView?
  rw [htype, hfirst, hbuffer]
  simp only [Option.bind_eq_bind, Option.bind_some]
  cases (record.attachmentsOf tag)[0]? <;> rfl

theorem get_of_found {path : String} {location : Location} {slot : Slot} {buffer : Bytes}
    (hresolve : resolve record.schema path = .ok location)
    (hnegotiate : record.negotiate path location = .ok slot)
    (hbuffer : record.buffer? slot = some buffer) :
    record.get path = .ok (location.read buffer) :=
  get_eq_ok.mpr ⟨location, slot, buffer, hresolve, hnegotiate, hbuffer, rfl⟩

theorem WellFormed.baseView_agrees (hbuilt : schema.BuiltFrom declarations aliases)
    (hfilled : schema.Filled) (hbase : schema.base.field? schema.base.name = none)
    (h : record.WellFormed schema) {names : List String} {last : String}
    (hnames : forall name, name ∈ names ++ [last] -> Path.isName name.toList = true)
    (hfield : (schema.base.field? (names.headD last)).isSome = true) {location : Location}
    (hresolve : resolve schema (String.intercalate "." (names ++ [last])) = .ok location) :
    exists value rest,
      record.get (String.intercalate "." (names ++ [last])) = .ok (value :: rest) ∧
        (record.baseView.descend? names).bind (fun view => view.get? last) = some value := by
  rcases Path.read_ofNames (by simp) hnames with ⟨read, hread, halike⟩
  have hstart : Location.start schema (Path.ofNames (names ++ [last])) =
      .ok (.base schema (Path.ofNames (names ++ [last]))) := by
    cases names with
    | nil =>
        exact Location.start_at_field hfield hbase
    | cons first others =>
        exact Location.start_at_field hfield hbase
  have hleads := (Location.resolve_of_read hread halike hstart).mp hresolve
  have htarget : location.target = .base := Location.Leads.target_eq hleads
  have hnegotiate := record.negotiate_base (String.intercalate "." (names ++ [last])) htarget
  rcases hleads.view_first hbuilt hfilled (Location.Start.base_rooted schema _)
    (Path.names_ofNames _) (fun _ => Path.index_ofNames) h.base_length with
    ⟨value, rest, hvalues, hview⟩
  rw [← h.schema_eq] at hresolve
  refine ⟨value, rest, ?_, ?_⟩
  · rw [get_of_found hresolve hnegotiate rfl, hvalues]
  · unfold baseView
    rw [h.schema_eq]
    exact hview

theorem WellFormed.extensionView_agrees (hbuilt : schema.BuiltFrom declarations aliases)
    (hfilled : schema.Filled) (h : record.WellFormed schema) {tag : Tag} {type : RecordType}
    (htype : schema.extensionTagged? tag = some type)
    (hname : Path.isName type.name.toList = true)
    (hfield : schema.base.field? type.name = none) (halias : schema.alias? type.name = none)
    {names : List String} {last : String}
    (hnames : forall name, name ∈ names ++ [last] -> Path.isName name.toList = true)
    {location : Location}
    (hresolve : resolve schema (String.intercalate "." (type.name :: names ++ [last])) =
      .ok location) :
    (record.instanceCount tag = 0 ->
      record.extensionView? tag = none ∧
        record.get (String.intercalate "." (type.name :: names ++ [last])) =
          missing (String.intercalate "." (type.name :: names ++ [last])) tag type.size) ∧
      (0 < record.instanceCount tag ->
        exists view value rest, record.extensionView? tag = some view ∧
          record.get (String.intercalate "." (type.name :: names ++ [last])) =
            .ok (value :: rest) ∧
          (view.descend? names).bind (fun view => view.get? last) = some value) := by
  have hall : forall name, name ∈ type.name :: names ++ [last] ->
      Path.isName name.toList = true := by
    intro name hmem
    rcases List.mem_cons.mp hmem with rfl | hmem
    · exact hname
    · exact hnames name hmem
  rcases Path.read_ofNames (by simp) hall with ⟨read, hread, halike⟩
  have hstart : Location.start schema (Path.ofNames (type.name :: names ++ [last])) =
      .ok {
        target := .extension tag type.name type.size none
        type
        path := Path.ofNames (names ++ [last]) } :=
    Schema.start_of_extension hbuilt htype hfield halias (by simp)
  have hleads := (Location.resolve_of_read hread halike hstart).mp hresolve
  have htarget : location.target = .extension tag type.name type.size none :=
    Location.Leads.target_eq hleads
  rw [← h.schema_eq] at hresolve
  have hview := extensionView?_eq (h.schema_eq.symm ▸ htype) type.name type.size
  constructor
  · intro hnone
    have hmissing : record.findInstance? tag 0 = none :=
      findInstance?_eq_none_iff.mpr (Nat.le_of_eq hnone)
    have hbuffer : record.bufferOf? (.extension tag type.name type.size none) = none := by
      change (record.findInstance? tag 0).bind record.buffer? = none
      rw [hmissing, Option.bind_none]
    rw [hview, hbuffer]
    refine ⟨rfl, ?_⟩
    exact get_of_negotiate_error hresolve
      ((negotiate_error_iff _ htarget).mpr (Nat.le_of_eq hnone))
  · intro hsome
    rcases (exists_negotiate_iff (String.intercalate "." (type.name :: names ++ [last]))
      htarget).mpr hsome with ⟨slot, hnegotiate⟩
    rcases h.located hbuilt hresolve hnegotiate with ⟨type', buffer, htype', _, hbuffer, hlength⟩
    rw [htarget] at htype'
    cases htype'.symm.trans htype
    -- The view is of the first buffer of the tag, and that is the one that is negotiated.
    have hfirst := bufferOf?_of_negotiate hnegotiate
    rw [htarget, hbuffer] at hfirst
    rcases hleads.view_first hbuilt hfilled (Location.start_rooted hbuilt hstart)
      (Path.names_ofNames _) (fun _ => Path.index_ofNames) hlength with
      ⟨value, rest, hvalues, hfound⟩
    rw [hview, hfirst, h.schema_eq]
    refine ⟨_, value, rest, rfl, ?_, hfound⟩
    rw [get_of_found hresolve hnegotiate hbuffer, hvalues]

/-!
## Every record
-/

/-- In every record that a run leads to, a chain of names along which a path resolves is read
by views as well: what a view of the base record has at its end is the first value that is got
through the path, and the same holds of the first buffer of an extension and a path behind the
name of the extension, if this is a name that no field of the base record and no short name
takes. Where no buffer of the extension is attached there is no view, and getting the property
says that one is missing. -/
theorem views_agree (hbuild : Schema.build declarations aliases = .ok schema)
    (hfilled : schema.Filled) (hbase : schema.base.field? schema.base.name = none)
    (hreachable : Reachable schema record) {names : List String} {last : String}
    (hnames : forall name, name ∈ names ++ [last] -> Path.isName name.toList = true) :
    ((schema.base.field? (names.headD last)).isSome = true ->
      forall location,
        resolve schema (String.intercalate "." (names ++ [last])) = .ok location ->
        exists value rest,
          record.get (String.intercalate "." (names ++ [last])) = .ok (value :: rest) ∧
          (record.baseView.descend? names).bind (fun view => view.get? last) = some value) ∧
      forall tag type, schema.extensionTagged? tag = some type ->
        Path.isName type.name.toList = true -> schema.base.field? type.name = none ->
        schema.alias? type.name = none ->
        forall location,
          resolve schema (String.intercalate "." (type.name :: names ++ [last])) =
            .ok location ->
          (record.instanceCount tag = 0 ->
            record.extensionView? tag = none ∧
            record.get (String.intercalate "." (type.name :: names ++ [last])) =
              missing (String.intercalate "." (type.name :: names ++ [last])) tag type.size) ∧
          (0 < record.instanceCount tag ->
            exists view value rest, record.extensionView? tag = some view ∧
              record.get (String.intercalate "." (type.name :: names ++ [last])) =
                .ok (value :: rest) ∧
              (view.descend? names).bind (fun view => view.get? last) = some value) := by
  have hbuilt := Schema.builtFrom_of_build hbuild
  have h := hreachable.wellFormed hbuilt
  constructor
  · intro hfield location hresolve
    exact h.baseView_agrees hbuilt hfilled hbase hnames hfield hresolve
  · intro tag type htype hname hfield halias location hresolve
    exact h.extensionView_agrees hbuilt hfilled htype hname hfield halias hnames hresolve

/-- A field two records deep in an extension, before and after a buffer is attached. -/
theorem views_agree_decoder :
    let path := String.intercalate "." ["mfxDecoderDescription", "decoder", "decprofile", "Profile"]
    let tag := Catalog.decoderTag
    let empty := new Catalog.implementationDescription
    let record := empty.run [.attachZeroed tag, .set path "100"]
    empty.extensionView? tag = none ∧
      (exists size, empty.get path = missing path tag size) ∧
      exists view value rest, record.extensionView? tag = some view ∧
        record.get path = .ok (value :: rest) ∧
        (view.descend? ["decoder", "decprofile"]).bind (fun view => view.get? "Profile") =
          some value := by
  intro path tag empty record
  have htype : (Catalog.implementationDescription.extensionTagged? tag).map
      (fun type => (type.name,
        (Catalog.implementationDescription.base.field? type.name).isNone,
        (Catalog.implementationDescription.alias? type.name).isNone)) =
      some ("mfxDecoderDescription", true, true) := by
    decide +kernel
  rcases Option.map_eq_some_iff.mp htype with ⟨type, htype, hfacts⟩
  simp only [Prod.mk.injEq, Option.isNone_iff_eq_none] at hfacts
  rcases hfacts with ⟨hname, hfield, halias⟩
  have hresolved : (resolve Catalog.implementationDescription path).toOption.isSome = true := by
    decide +kernel
  rcases Option.isSome_iff_exists.mp hresolved with ⟨location, hresolve⟩
  rw [toOption_eq_some] at hresolve
  have hcount : 0 < record.instanceCount tag := by
    decide +kernel
  have hnames : forall name, name ∈ ["decoder", "decprofile"] ++ ["Profile"] ->
      Path.isName name.toList = true := by
    decide
  have hagree := fun {record : Record}
      (hreachable : Reachable Catalog.implementationDescription record) =>
    (views_agree Catalog.build_implementationDescription (by decide +kernel) (by decide +kernel)
      hreachable hnames).right tag type htype (by rw [hname]; decide) hfield halias location
      (by rw [hname]; exact hresolve)
  rw [hname] at hagree
  rcases (hagree ⟨[], rfl⟩).left rfl with ⟨hview, hget⟩
  exact ⟨hview, ⟨_, hget⟩, (hagree ⟨_, rfl⟩).right hcount⟩

end Record

end Built

/-!
## An extension with brackets in its name

The second extension is called like the first with an index. The record has a zeroed buffer
of the first, and one of the second that holds a seven.
-/

namespace BracketedName

def declarations : List Declaration := [
  { name := "B", role := .base, entries := [.field "X" .u8 [] .value] },
  { name := "E", role := .extension (Catalog.tag "EXT1")
    entries := [.field "Y" .u8 [] .value] },
  { name := "E[0]", role := .extension (Catalog.tag "EXT2")
    entries := [.field "Y" .u8 [] .value] }]

def schema : Schema :=
  (Schema.build declarations []).toOption.getD Catalog.emptySchema

def record : Record :=
  (Record.new schema).run [.attachZeroed (Catalog.tag "EXT1"),
    .attach (Catalog.tag "EXT2") [0, 0, 0, 0, 0, 0, 0, 0, 7, 0, 0, 0]]

/-- The name of the second extension is read as the first one with an index, so the path leads
to another buffer than the view. -/
theorem view_disagrees :
    Schema.build declarations [] = .ok schema ∧ schema.Filled ∧
      schema.base.field? schema.base.name = none ∧ Record.Reachable schema record ∧
      (schema.extensionTagged? (Catalog.tag "EXT2")).map RecordType.name = some "E[0]" ∧
      schema.base.field? "E[0]" = none ∧ schema.alias? "E[0]" = none ∧
      (exists location, resolve schema "E[0].Y" = .ok location) ∧
      ¬ exists view value rest, record.extensionView? (Catalog.tag "EXT2") = some view ∧
        record.get "E[0].Y" = .ok (value :: rest) ∧ view.get? "Y" = some value := by
  have hresolved : (resolve schema "E[0].Y").toOption.isSome = true := by
    decide +kernel
  have hget : record.get "E[0].Y" = .ok [.int ⟨false, .w8⟩ 0] :=
    toOption_eq_some.mp (by decide +kernel)
  have hview : (record.extensionView? (Catalog.tag "EXT2")).bind (fun view => view.get? "Y") =
      some (.int ⟨false, .w8⟩ 7) := by
    decide +kernel
  refine ⟨Catalog.build_eq_ok (by decide +kernel), by decide +kernel, by decide +kernel,
    ⟨_, rfl⟩, by decide +kernel, by decide +kernel, by decide +kernel, ?_, ?_⟩
  · rcases Option.isSome_iff_exists.mp hresolved with ⟨location, hresolve⟩
    exact ⟨location, toOption_eq_some.mp hresolve⟩
  · rintro ⟨view, value, rest, hfound, hvalues, hfirst⟩
    rw [hfound, Option.bind_some, hfirst] at hview
    rw [hget] at hvalues
    cases hvalues
    cases hview

end BracketedName
end VideoConfig
