import VideoConfig.Proofs.Access.Payload
import VideoConfig.Proofs.Access.Storing

/-!
# Runs of operations on a record

A record is changed by attaching and detaching buffers and by setting properties. Whatever
is done in whatever order, the base record keeps its size, and every attached buffer has a
tag of the schema, the size of its extension, and its header in front.
-/

namespace VideoConfig

inductive Operation where
  | attach (tag : Tag) (bytes : Bytes)
  | attachZeroed (tag : Tag)
  | detach (tag : Tag)
  | set (path value : String)
  | apply (path value : String)
deriving DecidableEq, Repr

namespace Record

def perform (record : Record) : Operation -> Record
  | .attach tag bytes => (record.attach tag bytes).toOption.getD record
  | .attachZeroed tag => (record.attachZeroed tag).toOption.getD record
  | .detach tag => ((record.detach? tag).map Prod.snd).getD record
  | .set path value => (record.set path value).record
  | .apply path value => (record.apply path value).record

def run (record : Record) (operations : List Operation) : Record :=
  operations.foldl perform record

/-- The records that a run leads to from the empty one of a schema. -/
def Reachable (schema : Schema) (record : Record) : Prop :=
  exists operations, (new schema).run operations = record

end Record

/-!
## Well-formed records
-/

structure Attachment.WellFormed (attachment : Attachment) (schema : Schema) : Prop where
  sized : exists type, schema.extensionTagged? attachment.tag = some type ∧
    attachment.bytes.length = type.size
  headed : attachment.bytes.take Layout.headerSize =
    Record.header attachment.tag attachment.bytes.length

theorem Attachment.WellFormed.replaced {attachment : Attachment} {schema : Schema}
    (h : attachment.WellFormed schema) {bytes : Bytes}
    (hlength : bytes.length = attachment.bytes.length)
    (hheader : bytes.take Layout.headerSize = attachment.bytes.take Layout.headerSize) :
    { attachment with bytes }.WellFormed schema := by
  constructor
  · rcases h.sized with ⟨type, htype, hsize⟩
    exact ⟨type, htype, hlength.trans hsize⟩
  · dsimp only
    rw [hheader, h.headed, hlength]

/-- A record of a schema whose buffers all have the sizes of their record types. -/
structure Record.WellFormed (record : Record) (schema : Schema) : Prop where
  schema_eq : record.schema = schema
  base_length : record.base.length = schema.base.size
  attached : forall attachment, attachment ∈ record.attachments ->
    attachment.WellFormed schema

namespace Record

theorem new_wellFormed (schema : Schema) : (new schema).WellFormed schema where
  schema_eq := rfl
  base_length := Bytes.length_zeros _
  attached := by
    intro attachment hmem
    cases hmem

@[simp] theorem length_header (tag : Tag) (size : Nat) :
    (header tag size).length = Layout.headerSize := by
  simp [header, Tag.bytes, Layout.headerSize]

variable {schema : Schema} {declarations : List Declaration}
  {aliases : List (String × String)} {record : Record}

/-!
## Buffers in which properties lie

The buffer that is found for a location has the size of the record type in which the
location is well placed. Writing a payload changes no byte outside of the location, and in
an extension none of the header.
-/

theorem WellFormed.located (hbuilt : schema.BuiltFrom declarations aliases)
    (h : record.WellFormed schema) {path : String} {location : Location} {slot : Slot}
    (hresolve : resolve record.schema path = .ok location)
    (hslot : record.negotiate path location = .ok slot) :
    exists type buffer, schema.bufferType? location.target = some type ∧
      location.WellPlaced type ∧ record.buffer? slot = some buffer ∧
      buffer.length = type.size := by
  rw [h.schema_eq] at hresolve
  rcases Location.wellPlaced_of_resolve hbuilt hresolve with ⟨type, htype, hplaced, _⟩
  rcases negotiate_eq_ok hslot with ⟨htarget, rfl⟩ |
    ⟨tag, name, size, selector, position, attachment, htarget, rfl, hget, rfl⟩
  · rw [htarget] at htype
    refine ⟨type, record.base, by rw [htarget]; exact htype, hplaced, rfl, ?_⟩
    rw [h.base_length, Option.some.inj htype]
  · rw [htarget] at htype
    rcases (h.attached attachment (List.mem_of_getElem? hget)).sized with
      ⟨type', htype', hlength⟩
    have hsame : type' = type := Option.some.inj (htype'.symm.trans htype)
    refine ⟨type, attachment.bytes, by rw [htarget]; exact htype, hplaced, ?_, ?_⟩
    · simp [buffer?, hget]
    · rw [hlength, hsame]

theorem Storing.frame (hbuilt : schema.BuiltFrom declarations aliases)
    (h : record.WellFormed schema) {path value : String}
    (steps : Storing record path value) :
    steps.after.length = steps.before.length ∧
      forall k, ¬ steps.location.region.Covers k -> steps.after[k]? = steps.before[k]? := by
  rcases h.located hbuilt steps.resolved steps.negotiated with ⟨type, _, _, hplaced, _, _⟩
  rcases Location.write?_frame steps.written with ⟨hlength, hframe⟩
  refine ⟨hlength, ?_⟩
  intro k hk
  refine hframe k ?_
  intro htouches
  exact hk (hplaced.covers_of_touches (Location.suits_of_payload steps.coerced) htouches)

theorem Storing.keeps_header (hbuilt : schema.BuiltFrom declarations aliases)
    (h : record.WellFormed schema) {path value : String}
    (steps : Storing record path value) (hslot : steps.slot ≠ .base) :
    steps.after.take Layout.headerSize = steps.before.take Layout.headerSize := by
  have hbehind : Layout.headerSize ≤ steps.location.offset := by
    rcases negotiate_eq_ok steps.negotiated with ⟨_, hbase⟩ | ⟨_, _, _, _, _, _, htarget, _⟩
    · exact absurd hbase hslot
    · have hbody := steps.body
      unfold Location.isHeader at hbody
      rw [htarget] at hbody
      simpa using hbody
  refine Bytes.take_congr ?_
  intro k _ hk
  -- The guard looks at the first element; the others stand behind it.
  refine (Storing.frame hbuilt h steps).right k ?_
  rintro ⟨i, _, hstart, _⟩
  have hstart' : steps.location.offset ≤ k := Nat.le_trans (Nat.le_add_right _ _) hstart
  omega

/-!
## What one operation keeps

Whether it succeeds or not, an operation keeps a record well-formed.
-/

theorem WellFormed.replaced (h : record.WellFormed schema) {slot : Slot}
    {before after : Bytes} (hfound : record.buffer? slot = some before)
    (hlength : after.length = before.length)
    (hheader : slot ≠ .base ->
      after.take Layout.headerSize = before.take Layout.headerSize) :
    (record.setBuffer slot after).WellFormed schema where
  schema_eq := (setBuffer_schema _ _ _).trans h.schema_eq
  base_length := (length_base_setBuffer hfound hlength).trans h.base_length
  attached := by
    intro attachment hmem
    rcases mem_attachments_setBuffer hfound hmem with hmem | ⟨hslot, old, hold, hbytes, rfl⟩
    · exact h.attached attachment hmem
    · exact (h.attached old hold).replaced (hbytes ▸ hlength) (hbytes ▸ hheader hslot)

theorem WellFormed.result (hbuilt : schema.BuiltFrom declarations aliases)
    (h : record.WellFormed schema) {path value : String}
    (steps : Storing record path value) : steps.result.WellFormed schema :=
  h.replaced steps.found (Storing.frame hbuilt h steps).left
    (Storing.keeps_header hbuilt h steps)

theorem WellFormed.set (hbuilt : schema.BuiltFrom declarations aliases)
    (h : record.WellFormed schema) (path value : String) :
    (record.set path value).record.WellFormed schema := by
  rcases set_cases record path value with ⟨failure, _, hset⟩ | ⟨steps, hset⟩
  · rw [hset]
    exact h
  · rw [hset]
    exact h.result hbuilt steps

theorem attach_eq_ok {changed : Record} {tag : Tag} {bytes : Bytes} :
    record.attach tag bytes = .ok changed <->
      exists type, record.schema.extensionTagged? tag = some type ∧
        bytes.length = type.size ∧
        changed = { record with
          attachments := record.attachments ++
            [{ tag, bytes := bytes.overwrite 0 (header tag type.size) }] } := by
  unfold attach
  cases htype : record.schema.extensionTagged? tag with
  | none =>
      simp
  | some type =>
      dsimp only
      split
      · next hsize =>
          simp [hsize, eq_comm]
      · next hsize =>
          simp [hsize]

theorem WellFormed.attach (hbuilt : schema.BuiltFrom declarations aliases)
    (h : record.WellFormed schema) {changed : Record} {tag : Tag} {bytes : Bytes}
    (hattach : record.attach tag bytes = .ok changed) : changed.WellFormed schema := by
  rcases attach_eq_ok.mp hattach with ⟨type, htype, hsize, rfl⟩
  rw [h.schema_eq] at htype
  have hroom : (header tag type.size).length ≤ bytes.length := by
    rw [length_header, hsize]
    exact hbuilt.headerSize_le htype
  have hlength : (bytes.overwrite 0 (header tag type.size)).length = type.size := by
    rw [Bytes.length_overwrite, hsize]
  have hnew : Attachment.WellFormed
      { tag, bytes := bytes.overwrite 0 (header tag type.size) } schema := by
    constructor
    · exact ⟨type, htype, hlength⟩
    · have hhead := Bytes.take_overwrite_zero hroom
      rw [length_header] at hhead
      dsimp only
      rw [hlength, hhead]
  exact {
    schema_eq := h.schema_eq
    base_length := h.base_length
    attached := by
      intro attachment hmem
      rcases List.mem_append.mp hmem with hmem | hmem
      · exact h.attached attachment hmem
      · rw [List.mem_singleton.mp hmem]
        exact hnew }

theorem exists_attach_of_attachZeroed {changed : Record} {tag : Tag}
    (h : record.attachZeroed tag = .ok changed) :
    exists bytes, record.attach tag bytes = .ok changed := by
  unfold attachZeroed at h
  split at h
  · cases h
  · exact ⟨_, h⟩

theorem WellFormed.apply (hbuilt : schema.BuiltFrom declarations aliases)
    (h : record.WellFormed schema) (path value : String) :
    (record.apply path value).record.WellFormed schema := by
  rcases apply_cases record path value with hsame | ⟨tag, extended, hattach, happly⟩ | hkept
  · rw [hsame]
    exact h.set hbuilt path value
  · rcases exists_attach_of_attachZeroed hattach with ⟨bytes, hattach⟩
    rw [happly]
    exact (h.attach hbuilt hattach).set hbuilt path value
  · rw [hkept]
    exact h

theorem WellFormed.detach (h : record.WellFormed schema) {removed : Attachment}
    {changed : Record} {tag : Tag} (hdetach : record.detach? tag = some (removed, changed)) :
    changed.WellFormed schema := by
  rcases Option.map_eq_some_iff.mp hdetach with ⟨⟨first, others⟩, hremove, heq⟩
  cases heq
  exact {
    schema_eq := h.schema_eq
    base_length := h.base_length
    attached := by
      intro attachment hmem
      exact h.attached attachment (mem_of_removeLast? hremove attachment hmem) }

theorem WellFormed.perform (hbuilt : schema.BuiltFrom declarations aliases)
    (h : record.WellFormed schema) (operation : Operation) :
    (record.perform operation).WellFormed schema := by
  cases operation with
  | attach tag bytes =>
      change ((record.attach tag bytes).toOption.getD record).WellFormed schema
      cases hattach : record.attach tag bytes with
      | error error =>
          exact h
      | ok changed =>
          exact h.attach hbuilt hattach
  | attachZeroed tag =>
      change ((record.attachZeroed tag).toOption.getD record).WellFormed schema
      cases hattach : record.attachZeroed tag with
      | error error =>
          exact h
      | ok changed =>
          rcases exists_attach_of_attachZeroed hattach with ⟨bytes, hattach⟩
          exact h.attach hbuilt hattach
  | detach tag =>
      change (((record.detach? tag).map Prod.snd).getD record).WellFormed schema
      cases hdetach : record.detach? tag with
      | none =>
          exact h
      | some result =>
          exact h.detach hdetach
  | set path value =>
      exact h.set hbuilt path value
  | apply path value =>
      exact h.apply hbuilt path value

/-!
## What a run keeps
-/

theorem WellFormed.run (hbuilt : schema.BuiltFrom declarations aliases)
    (h : record.WellFormed schema) (operations : List Operation) :
    (record.run operations).WellFormed schema := by
  induction operations generalizing record with
  | nil =>
      exact h
  | cons operation rest ih =>
      exact ih (h.perform hbuilt operation)

theorem Reachable.wellFormed (hbuilt : schema.BuiltFrom declarations aliases)
    (h : Reachable schema record) : record.WellFormed schema := by
  rcases h with ⟨operations, rfl⟩
  exact (new_wellFormed schema).run hbuilt operations

end Record
end VideoConfig
