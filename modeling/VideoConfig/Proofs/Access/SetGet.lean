import VideoConfig.Proofs.Catalog
import VideoConfig.Proofs.Record.Runs

/-!
# Setting and getting a property

What is set is what is got afterwards, and nothing else changes: neither the elements for
which the text has no value, nor any other byte of any buffer. Where setting fails, nothing
changes at all.
-/

namespace VideoConfig

def Schema.CodesFit (schema : Schema) : Prop :=
  forall type, type ∈ schema.records -> forall field, field ∈ type.fields ->
    Coercion.CodesFit field.kind field.category

instance (schema : Schema) : Decidable schema.CodesFit :=
  inferInstanceAs (Decidable (forall type, type ∈ schema.records ->
    forall field, field ∈ type.fields -> Coercion.CodesFit field.kind field.category))

theorem Catalog.codesFit_videoParameters : videoParameters.CodesFit := by
  decide +kernel

variable {schema : Schema} {declarations : List Declaration}
  {aliases : List (String × String)} {record : Record}

/-!
## Storing a payload

A payload that a text gives is written in full and read back over what was there; a text
stands in front of zeros and is read up to its first NUL. Since a payload suits its buffer,
only a path can end a run with nothing to report.
-/

namespace Location

theorem Leads.field_mem {target : Target}
    {type : RecordType} {place : Place} {path : Path} {location : Location}
    (h : Leads schema target type place path location) (htype : type ∈ schema.records) :
    exists owner, owner ∈ schema.records ∧ location.field ∈ owner.fields := by
  induction h with
  | @leaf type _ _ _ field _ _ location hfield _ _ _ hleaf =>
      have hmem := (RecordType.field?_eq_some hfield).left
      rw [← (leaf_eq_ok hleaf).left] at hmem
      exact ⟨type, htype, hmem⟩
  | nested _ _ hinner _ _ _ ih =>
      exact ih (Schema.record?_eq_some hinner).left

theorem codesFit_of_resolve (hbuilt : schema.BuiltFrom declarations aliases)
    (hcodes : schema.CodesFit) {path : String} {location : Location}
    (h : resolve schema path = .ok location) :
    Coercion.CodesFit location.field.kind location.field.category := by
  rcases resolve_eq_ok.mp h with ⟨origin, horigin, hleads⟩
  have hrooted := rooted_of_origin? hbuilt horigin
  rcases Leads.field_mem hleads (hrooted.type_mem hbuilt) with ⟨owner, howner, hmem⟩
  exact hcodes owner howner location.field hmem

theorem WellPlaced.write?_payload {location : Location} {type : RecordType}
    (h : location.WellPlaced type)
    (hcodes : Coercion.CodesFit location.field.kind location.field.category)
    {buffer : Bytes} (hlength : buffer.length = type.size) {value : String}
    {payload : Payload} (hpayload : location.payload value = .ok payload) :
    exists after, location.write? buffer payload = some after ∧
      location.read after = location.updated (location.read buffer) payload := by
  rcases h.scalar with ⟨scalar, hkind, _⟩
  have hsuits := suits_of_payload hpayload
  cases payload with
  | elements values =>
      exact h.write?_elements hlength hkind hsuits
        (isScalar_of_payload hkind hcodes hpayload)
  | text bytes =>
      rcases h.write?_text hlength hsuits with ⟨after, hwrite, _, hread⟩
      exact ⟨after, hwrite, hread⟩

theorem WellPlaced.write?_payload_text {location : Location} {type : RecordType}
    (h : location.WellPlaced type) {buffer : Bytes} (hlength : buffer.length = type.size)
    (htext : location.text = true) {value : String} {payload : Payload}
    (hpayload : location.payload value = .ok payload) {after : Bytes}
    (hwrite : location.write? buffer payload = some after) :
    after.slice? location.offset location.capacity = some (Text.encodeUtf8 value ++
        Bytes.zeros (location.capacity - (Text.encodeUtf8 value).length)) ∧
      location.read after = [.text (Text.untilNul value)] := by
  have hsuits := suits_of_payload hpayload
  cases payload with
  | elements values =>
      have helements : location.text = false := hsuits
      rw [htext] at helements
      cases helements
  | text bytes =>
      rcases text_of_payload hpayload with ⟨_, hbytes⟩
      rcases h.write?_text hlength hsuits with ⟨written, hwritten, hslice, hread⟩
      have hsame : written = after := Option.some.inj (hwritten.symm.trans hwrite)
      rw [hsame] at hslice hread
      constructor
      · rw [hslice, hbytes]
      · rw [hread, hbytes, Value.ofTextBytes_encode]

end Location

namespace Record

/-- What a record is after a text is stored in a property: the property is read as what was
read before with the new values in front, and the bytes of the elements that have no new
value, those of other fields and those of other buffers are as before. -/
structure Updates (before after : Record) (path value : String) (location : Location)
    (slot : Slot) (payload : Payload) : Prop where
  resolved : resolve before.schema path = .ok location
  negotiated : before.negotiate path location = .ok slot
  coerced : location.payload value = .ok payload
  reads : exists values, before.get path = .ok values ∧
    after.get path = .ok (location.updated values payload)
  text : location.text = true ->
    after.get path = .ok [.text (Text.untilNul value)] ∧
      exists buffer, after.buffer? slot = some buffer ∧
        buffer.slice? location.offset location.capacity = some (Text.encodeUtf8 value ++
          Bytes.zeros (location.capacity - (Text.encodeUtf8 value).length))
  bytes : exists old new, before.buffer? slot = some old ∧ after.buffer? slot = some new ∧
    new.length = old.length ∧
      forall k, ¬ location.Touches payload k -> new[k]? = old[k]?
  others : forall other, other ≠ slot -> after.buffer? other = before.buffer? other
  tags : after.tags = before.tags
  schema : after.schema = before.schema

theorem Storing.get_result {path value : String} (steps : Storing record path value) :
    steps.result.get path = .ok (steps.location.read steps.after) := by
  refine get_eq_ok.mpr ⟨steps.location, steps.slot, steps.after, ?_, ?_, ?_, rfl⟩
  · rw [Storing.result, setBuffer_schema]
    exact steps.resolved
  · have htags : steps.result.tags = record.tags := tags_setBuffer _ _ _
    rw [negotiate_congr htags]
    exact steps.negotiated
  · exact buffer?_setBuffer_same steps.found

theorem WellFormed.updates (hbuilt : schema.BuiltFrom declarations aliases)
    (hcodes : schema.CodesFit) (h : record.WellFormed schema) {path value : String}
    (steps : Storing record path value) :
    Updates record steps.result path value steps.location steps.slot steps.payload := by
  rcases h.located hbuilt steps.resolved steps.negotiated with
    ⟨type, buffer, _, hplaced, hbuffer, hlength⟩
  have hbefore : buffer = steps.before := Option.some.inj (hbuffer.symm.trans steps.found)
  subst hbefore
  have hresolved := steps.resolved
  rw [h.schema_eq] at hresolved
  have hcodes' := Location.codesFit_of_resolve hbuilt hcodes hresolved
  rcases hplaced.write?_payload hcodes' hlength steps.coerced with ⟨after, hwrite, hread⟩
  have hafter : after = steps.after := Option.some.inj (hwrite.symm.trans steps.written)
  subst hafter
  have hget := Storing.get_result steps
  have hnew : steps.result.buffer? steps.slot = some steps.after :=
    buffer?_setBuffer_same steps.found
  rcases Location.write?_frame steps.written with ⟨hsame, hframe⟩
  exact {
    resolved := steps.resolved
    negotiated := steps.negotiated
    coerced := steps.coerced
    reads := by
      refine ⟨steps.location.read steps.before, ?_, ?_⟩
      · exact get_eq_ok.mpr
          ⟨_, _, _, steps.resolved, steps.negotiated, steps.found, rfl⟩
      · rw [hget, hread]
    text := by
      intro htext
      rcases hplaced.write?_payload_text hlength htext steps.coerced steps.written with
        ⟨hslice, htextRead⟩
      exact ⟨hget.trans (congrArg _ htextRead), steps.after, hnew, hslice⟩
    bytes := ⟨steps.before, steps.after, steps.found, hnew, hsame, hframe⟩
    others := fun _ hne => buffer?_setBuffer_of_ne hne
    tags := tags_setBuffer _ _ _
    schema := setBuffer_schema _ _ _ }

theorem WellFormed.resolve_of_abandoned (hbuilt : schema.BuiltFrom declarations aliases)
    (hcodes : schema.CodesFit) (h : record.WellFormed schema) {path value : String}
    (hstored : record.stored path value = .error .abandoned) :
    resolve schema path = .error .abandoned := by
  rcases stored_eq_abandoned.mp hstored with hresolved |
    ⟨location, slot, payload, buffer, hresolved, _, hslot, hpayload, hbuffer, hwrite⟩
  · rw [← h.schema_eq]
    exact hresolved
  · rcases h.located hbuilt hresolved hslot with ⟨type, found, _, hplaced, hfound, hlength⟩
    rw [h.schema_eq] at hresolved
    have hcodes' := Location.codesFit_of_resolve hbuilt hcodes hresolved
    rcases hplaced.write?_payload hcodes' hlength hpayload with ⟨after, hwritten, _⟩
    have hsame : found = buffer := Option.some.inj (hfound.symm.trans hbuffer)
    rw [hsame, hwrite] at hwritten
    cases hwritten

/-!
## Every record
-/

/-- In every record that a run leads to, a text that cannot be set leaves the record as it
was, and one that is set is got back and changes nothing else. A run is abandoned only over
a path. -/
theorem set_get_frame (hbuild : Schema.build declarations aliases = .ok schema)
    (hcodes : schema.CodesFit) (hreachable : Reachable schema record)
    (path value : String) :
    (forall failure, (record.set path value).result = .error failure ->
      (record.set path value).record = record ∧
        (failure = .abandoned -> resolve schema path = .error .abandoned)) ∧
      ((record.set path value).result = .ok () ->
        exists location slot payload,
          Updates record (record.set path value).record path value location slot
            payload) := by
  have hbuilt := Schema.builtFrom_of_build hbuild
  have h := hreachable.wellFormed hbuilt
  rcases set_cases record path value with ⟨failure, hstored, hset⟩ | ⟨steps, hset⟩
  · rw [hset]
    constructor
    · intro failure' heq
      cases heq
      refine ⟨rfl, ?_⟩
      rintro rfl
      exact h.resolve_of_abandoned hbuilt hcodes hstored
    · intro hok
      cases hok
  · rw [hset]
    constructor
    · intro failure herror
      cases herror
    · intro _
      exact ⟨_, _, _, h.updates hbuilt hcodes steps⟩

/-- Two values for the eight members of an array of records in an extension. -/
theorem set_get_frame_layers :
    let path := "mfxExtVP9TemporalLayers.Layer[].TargetKbps"
    let record := (new Catalog.videoParameters).run [.attachZeroed (Catalog.tag "9TML")]
    (record.set path "300, 500").result = .ok () ∧
      exists location slot payload,
        Updates record (record.set path "300, 500").record path "300, 500" location slot
          payload := by
  intro path record
  have hset : (record.set path "300, 500").result = .ok () :=
    toOption_eq_some.mp (by decide +kernel)
  exact ⟨hset, (set_get_frame Catalog.build_videoParameters (by decide +kernel) ⟨_, rfl⟩
    path "300, 500").right hset⟩

end Record
end VideoConfig
