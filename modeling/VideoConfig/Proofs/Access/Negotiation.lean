import VideoConfig.Proofs.Access.SetGet
import VideoConfig.Proofs.Record.Instances

/-!
# Attaching the buffers that a property needs

A property in an extension is reached once as many buffers of the extension are attached as
its selector counts. Setting it before says which buffer is missing. Applying a text attaches
one such buffer and tries once more, so every call brings the selected buffer one step
nearer, and the call that attaches it is the first to store or to refuse the text.
-/

namespace VideoConfig

/-!
## Zeroed buffers
-/

def Attachment.blank (tag : Tag) (size : Nat) : Attachment :=
  { tag, bytes := Record.header tag size ++ Bytes.zeros (size - Layout.headerSize) }

namespace Record

def extended (record : Record) (tag : Tag) (size count : Nat) : Record :=
  { record with
    attachments := record.attachments ++ List.replicate count (Attachment.blank tag size) }

theorem extended_zero (record : Record) (tag : Tag) (size : Nat) :
    record.extended tag size 0 = record := by
  unfold extended
  rw [List.replicate_zero, List.append_nil]

theorem extended_succ (record : Record) (tag : Tag) (size count : Nat) :
    record.extended tag size (count + 1) =
      (record.extended tag size count).extended tag size 1 := by
  unfold extended
  dsimp only
  rw [List.append_assoc, List.replicate_append_replicate]

theorem instanceCount_extended (record : Record) (tag : Tag) (size count : Nat) :
    (record.extended tag size count).instanceCount tag = record.instanceCount tag + count := by
  simp [extended, instanceCount, Attachment.blank]

theorem overwrite_zeros_header {tag : Tag} {size : Nat} (h : Layout.headerSize ≤ size) :
    (Bytes.zeros size).overwrite 0 (header tag size) = (Attachment.blank tag size).bytes := by
  have hroom : 0 + (header tag size).length ≤ (Bytes.zeros size).length := by
    simpa using h
  unfold Bytes.overwrite
  rw [if_pos hroom, length_header, List.take_zero, List.nil_append, Nat.zero_add]
  simp [Attachment.blank, Bytes.zeros]

variable {schema : Schema} {declarations : List Declaration}
  {aliases : List (String × String)} {record : Record}

theorem attachZeroed_eq_ok (hbuilt : schema.BuiltFrom declarations aliases)
    (hschema : record.schema = schema) {tag : Tag} {type : RecordType}
    (htype : schema.extensionTagged? tag = some type) :
    record.attachZeroed tag = .ok (record.extended tag type.size 1) := by
  have htype' : record.schema.extensionTagged? tag = some type := by
    rw [hschema]
    exact htype
  unfold attachZeroed
  rw [htype']
  refine attach_eq_ok.mpr ⟨type, htype', Bytes.length_zeros _, ?_⟩
  rw [overwrite_zeros_header (hbuilt.headerSize_le htype)]
  rfl

theorem WellFormed.extended (hbuilt : schema.BuiltFrom declarations aliases)
    (h : record.WellFormed schema) {tag : Tag} {type : RecordType}
    (htype : schema.extensionTagged? tag = some type) :
    (record.extended tag type.size 1).WellFormed schema := by
  rcases exists_attach_of_attachZeroed (attachZeroed_eq_ok hbuilt h.schema_eq htype) with
    ⟨bytes, hattach⟩
  exact h.attach hbuilt hattach

/-!
## How an attempt ends

A text is settled if it is stored or refused for what it says. An attempt may also name the
buffer that is missing, or the path leads to nothing that can be set.
-/

def missing {result : Type} (path : String) (tag : Tag) (size : Nat) :
    Attempt AccessError result :=
  .error (.refused (.moreBuffersNeeded path tag size))

def Settled (path value : String) (result : Attempt AccessError Unit) : Prop :=
  result = .ok () ∨ exists cause, result = .error (.refused (.unsupported path value cause))

def Unfound (path : String) (result : Attempt AccessError Unit) : Prop :=
  result = .error .abandoned ∨
    exists obstacle span, result = .error (.refused (.notFound path obstacle span))

theorem Settled.ne_missing {path value : String} {result : Attempt AccessError Unit}
    (h : Settled path value result) (path' : String) (tag : Tag) (size : Nat) :
    result ≠ missing path' tag size := by
  intro hmissing
  rcases h with hok | ⟨cause, herror⟩
  · rw [hmissing] at hok
    cases hok
  · rw [hmissing] at herror
    cases herror

theorem Unfound.ne_missing {path : String} {result : Attempt AccessError Unit}
    (h : Unfound path result) (path' : String) (tag : Tag) (size : Nat) :
    result ≠ missing path' tag size := by
  intro hmissing
  rcases h with habandoned | ⟨obstacle, span, herror⟩
  · rw [hmissing] at habandoned
    cases habandoned
  · rw [hmissing] at herror
    cases herror

theorem set_of_error {path value : String} {failure : Failure AccessError}
    (h : record.stored path value = .error failure) :
    record.set path value = { record, result := .error failure } := by
  unfold set
  rw [h]

theorem set_of_negotiate_error {path value : String} {location : Location}
    {error : AccessError} (hresolve : resolve record.schema path = .ok location)
    (hbody : location.isHeader = false)
    (hnegotiate : record.negotiate path location = .error error) :
    record.set path value = { record, result := .error (.refused error) } := by
  refine set_of_error (bind_eq_error.mpr (Or.inr ⟨location, hresolve, ?_⟩))
  dsimp only
  rw [if_neg (by simp [hbody]), hnegotiate]
  rfl

theorem set_unfound {path value : String}
    (h : (exists failure, resolve record.schema path = .error failure) ∨
      exists location, resolve record.schema path = .ok location ∧ location.isHeader = true) :
    Unfound path (record.set path value).result := by
  rcases h with ⟨failure, hresolve⟩ | ⟨location, hresolve, hheader⟩
  · rw [set_of_error (bind_eq_error.mpr (Or.inl hresolve))]
    rcases Location.resolve_eq_error hresolve with rfl | ⟨obstacle, span, rfl⟩
    · exact Or.inl rfl
    · exact Or.inr ⟨obstacle, span, rfl⟩
  · have hstored : record.stored path value =
        .error (.refused (.notFound path (.headerField location.field.name) none)) := by
      refine bind_eq_error.mpr (Or.inr ⟨location, hresolve, ?_⟩)
      dsimp only
      rw [if_pos hheader]
      rfl
    rw [set_of_error hstored]
    exact Or.inr ⟨_, _, rfl⟩

theorem WellFormed.exists_storing (hbuilt : schema.BuiltFrom declarations aliases)
    (hcodes : schema.CodesFit) (h : record.WellFormed schema) {path value : String}
    {location : Location} {slot : Slot} {payload : Payload}
    (hresolve : resolve record.schema path = .ok location) (hbody : location.isHeader = false)
    (hnegotiate : record.negotiate path location = .ok slot)
    (hpayload : location.payload value = .ok payload) :
    exists steps : Storing record path value, steps.location = location := by
  rcases h.located hbuilt hresolve hnegotiate with ⟨type, buffer, _, hplaced, hbuffer, hlength⟩
  have hresolve' := hresolve
  rw [h.schema_eq] at hresolve'
  have hcodes' := Location.codesFit_of_resolve hbuilt hcodes hresolve'
  rcases hplaced.write?_payload hcodes' hlength hpayload with ⟨after, hwritten, _⟩
  exact ⟨{
    location, slot, payload, before := buffer, after
    resolved := hresolve
    body := hbody
    negotiated := hnegotiate
    coerced := hpayload
    found := hbuffer
    written := hwritten }, rfl⟩

theorem set_of_payload_error {path value : String} {location : Location} {slot : Slot}
    {cause : CoercionError} (hresolve : resolve record.schema path = .ok location)
    (hbody : location.isHeader = false) (hnegotiate : record.negotiate path location = .ok slot)
    (hpayload : location.payload value = .error cause) :
    record.set path value =
      { record, result := .error (.refused (.unsupported path value cause)) } := by
  refine set_of_error (bind_eq_error.mpr (Or.inr ⟨location, hresolve, ?_⟩))
  dsimp only
  rw [if_neg (by simp [hbody]), hnegotiate, hpayload]
  rfl

theorem WellFormed.set_settled (hbuilt : schema.BuiltFrom declarations aliases)
    (hcodes : schema.CodesFit) (h : record.WellFormed schema) {path value : String}
    {location : Location} {slot : Slot} (hresolve : resolve record.schema path = .ok location)
    (hbody : location.isHeader = false)
    (hnegotiate : record.negotiate path location = .ok slot) :
    Settled path value (record.set path value).result := by
  cases hpayload : location.payload value with
  | error cause =>
      rw [set_of_payload_error hresolve hbody hnegotiate hpayload]
      exact Or.inr ⟨cause, rfl⟩
  | ok payload =>
      rcases h.exists_storing hbuilt hcodes hresolve hbody hnegotiate hpayload with ⟨steps, _⟩
      rw [set_eq_ok.mp (stored_eq_ok.mpr ⟨steps, rfl⟩)]
      exact Or.inl rfl

theorem set_error_record {path value : String} {failure : Failure AccessError}
    (h : (record.set path value).result = .error failure) :
    (record.set path value).record = record := by
  rcases set_cases record path value with ⟨failure', _, hset⟩ | ⟨steps, hset⟩
  · rw [hset]
  · rw [hset] at h
    cases h

theorem tags_set (record : Record) (path value : String) :
    (record.set path value).record.tags = record.tags := by
  rcases set_cases record path value with ⟨failure, _, hset⟩ | ⟨steps, hset⟩
  · rw [hset]
  · rw [hset]
    exact tags_setBuffer _ _ _

theorem apply_of_missing {path value path' : String} {tag : Tag} {size : Nat}
    {more : Record} (hset : record.set path value = { record, result := missing path' tag size })
    (hattach : record.attachZeroed tag = .ok more) :
    record.apply path value = more.set path value := by
  unfold apply
  rw [hset]
  dsimp only [missing]
  rw [hattach]

theorem apply_of_not_missing {path value : String}
    (h : forall path' tag size, (record.set path value).result ≠ missing path' tag size) :
    record.apply path value = record.set path value := by
  unfold apply
  dsimp only
  split
  · next path' tag size hresult =>
      exact absurd hresult (h path' tag size)
  · rfl

/-!
## Properties in the body of an extension

Where buffers are missing both ways of access name the next one, and it is attached before
the text is applied. Where the selected buffer is attached the property is got, and a text
for it is settled.
-/

theorem negotiate_error_iff (path : String) {location : Location} {tag : Tag}
    {name : String} {size : Nat} {selector : Option Nat}
    (htarget : location.target = .extension tag name size selector) :
    record.negotiate path location = .error (.moreBuffersNeeded path tag size) <->
      record.instanceCount tag ≤ selector.getD 0 := by
  rw [← findInstance?_eq_none_iff]
  unfold negotiate
  rw [htarget]
  dsimp only
  cases record.findInstance? tag (selector.getD 0) <;> simp

theorem exists_negotiate_iff (path : String) {location : Location} {tag : Tag}
    {name : String} {size : Nat} {selector : Option Nat}
    (htarget : location.target = .extension tag name size selector) :
    (exists slot, record.negotiate path location = .ok slot) <->
      selector.getD 0 < record.instanceCount tag := by
  rw [← Nat.not_le, ← findInstance?_eq_none_iff]
  simp only [negotiate_extension_iff htarget, ← Option.ne_none_iff_exists']

/-- A path that leads behind the header of an extension, with the index of the buffer that
it selects. -/
def LeadsInto (schema : Schema) (path : String) (tag : Tag) (size index : Nat) : Prop :=
  exists location name selector, resolve schema path = .ok location ∧
    location.target = .extension tag name size selector ∧ location.isHeader = false ∧
    selector.getD 0 = index

theorem WellFormed.missing_of_le (hbuilt : schema.BuiltFrom declarations aliases)
    (h : record.WellFormed schema) {path : String} {tag : Tag} {size index : Nat}
    (hpath : LeadsInto schema path tag size index)
    (hle : record.instanceCount tag ≤ index) (value : String) :
    record.set path value = { record, result := missing path tag size } ∧
      record.get path = missing path tag size ∧
      record.apply path value = (record.extended tag size 1).set path value := by
  rcases hpath with ⟨location, name, selector, hresolve, htarget, hbody, rfl⟩
  rcases Location.wellPlaced_of_resolve hbuilt hresolve with ⟨type, htype, _, hsize⟩
  rw [htarget] at htype
  have hsize' := hsize tag name size selector htarget
  subst hsize'
  rw [← h.schema_eq] at hresolve
  have hnegotiate := (negotiate_error_iff path htarget).mpr hle
  have hset : record.set path value = { record, result := missing path tag type.size } :=
    set_of_negotiate_error hresolve hbody hnegotiate
  refine ⟨hset, get_of_negotiate_error hresolve hnegotiate, ?_⟩
  exact apply_of_missing hset (attachZeroed_eq_ok hbuilt h.schema_eq htype)

theorem WellFormed.settled_of_lt (hbuilt : schema.BuiltFrom declarations aliases)
    (hcodes : schema.CodesFit) (h : record.WellFormed schema) {path : String} {tag : Tag}
    {size index : Nat} (hpath : LeadsInto schema path tag size index)
    (hlt : index < record.instanceCount tag) (value : String) :
    Settled path value (record.set path value).result ∧
      (exists values, record.get path = .ok values) ∧
      record.apply path value = record.set path value := by
  rcases hpath with ⟨location, name, selector, hresolve, htarget, hbody, rfl⟩
  rw [← h.schema_eq] at hresolve
  rcases (exists_negotiate_iff path htarget).mpr hlt with ⟨slot, hnegotiate⟩
  have hsettled : Settled path value (record.set path value).result :=
    h.set_settled hbuilt hcodes hresolve hbody hnegotiate
  rcases h.located hbuilt hresolve hnegotiate with ⟨_, buffer, _, _, hbuffer, _⟩
  refine ⟨hsettled, ⟨location.read buffer, ?_⟩, apply_of_not_missing hsettled.ne_missing⟩
  exact get_eq_ok.mpr ⟨location, slot, buffer, hresolve, hnegotiate, hbuffer, rfl⟩

theorem LeadsInto.declared (hbuilt : schema.BuiltFrom declarations aliases) {path : String}
    {tag : Tag} {size index : Nat} (h : LeadsInto schema path tag size index) :
    exists type, schema.extensionTagged? tag = some type ∧ type.size = size := by
  rcases h with ⟨location, name, selector, hresolve, htarget, _, _⟩
  rcases Location.wellPlaced_of_resolve hbuilt hresolve with ⟨type, htype, _, hsize⟩
  rw [htarget] at htype
  exact ⟨type, htype, (hsize tag name size selector htarget).symm⟩

theorem WellFormed.set_ends (hbuilt : schema.BuiltFrom declarations aliases)
    (hcodes : schema.CodesFit) (h : record.WellFormed schema) (path value : String) :
    Unfound path (record.set path value).result ∨
      Settled path value (record.set path value).result ∨
      exists tag size index, LeadsInto schema path tag size index ∧
        record.instanceCount tag ≤ index ∧
        (record.set path value).result = missing path tag size := by
  cases hresolve : resolve record.schema path with
  | error failure =>
      exact Or.inl (set_unfound (Or.inl ⟨failure, hresolve⟩))
  | ok location =>
      cases hheader : location.isHeader with
      | true =>
          exact Or.inl (set_unfound (Or.inr ⟨location, hresolve, hheader⟩))
      | false =>
          cases htarget : location.target with
          | base =>
              have hnegotiate := record.negotiate_base path htarget
              exact Or.inr (Or.inl (h.set_settled hbuilt hcodes hresolve hheader hnegotiate))
          | extension tag name size selector =>
              have hpath : LeadsInto schema path tag size (selector.getD 0) := by
                rw [h.schema_eq] at hresolve
                exact ⟨location, name, selector, hresolve, htarget, hheader, rfl⟩
              rcases Nat.lt_or_ge (selector.getD 0) (record.instanceCount tag) with hlt | hle
              · exact Or.inr (Or.inl (h.settled_of_lt hbuilt hcodes hpath hlt value).left)
              · have hset := (h.missing_of_le hbuilt hpath hle value).left
                exact Or.inr (Or.inr
                  ⟨tag, size, selector.getD 0, hpath, hle, congrArg Change.result hset⟩)

theorem WellFormed.set_ne_attach (hbuilt : schema.BuiltFrom declarations aliases)
    (hcodes : schema.CodesFit) (h : record.WellFormed schema) (path value : String)
    (error : AttachError) :
    (record.set path value).result ≠ .error (.refused (.attach error)) := by
  intro hattach
  rcases h.set_ends hbuilt hcodes path value with hunfound | hsettled |
    ⟨tag, size, index, _, _, hmissing⟩
  · rw [hattach] at hunfound
    rcases hunfound with heq | ⟨_, _, heq⟩
    · cases heq
    · cases heq
  · rw [hattach] at hsettled
    rcases hsettled with heq | ⟨_, heq⟩
    · cases heq
    · cases heq
  · rw [hattach] at hmissing
    cases hmissing

/-!
## Calls with the same arguments

As long as buffers are missing, the calls made so far have attached one each. A call fails
without a change or with one buffer attached, and never over attaching.
-/

def applied (record : Record) (path value : String) : (calls : Nat) -> Record
  | 0 => record
  | calls + 1 => ((record.applied path value calls).apply path value).record

/-- How a record answers for a property in the buffer of an extension with an index. -/
structure Negotiates (record : Record) (path value : String) (tag : Tag)
    (size index : Nat) : Prop where
  set_iff :
    (exists path' tag' size', (record.set path value).result = missing path' tag' size') <->
      record.instanceCount tag ≤ index
  get_iff :
    (exists path' tag' size', record.get path = missing path' tag' size') <->
      record.instanceCount tag ≤ index
  absent : record.instanceCount tag ≤ index ->
    record.set path value = { record, result := missing path tag size } ∧
      record.get path = missing path tag size
  present : index < record.instanceCount tag ->
    record.apply path value = record.set path value ∧
      Settled path value (record.apply path value).result
  last : record.instanceCount tag = index ->
    record.apply path value = (record.extended tag size 1).set path value ∧
      Settled path value (record.apply path value).result
  behind : record.instanceCount tag < index ->
    record.apply path value =
      { record := record.extended tag size 1, result := missing path tag size }
  calls : record.instanceCount tag ≤ index ->
    (forall calls, calls < index - record.instanceCount tag ->
      (record.applied path value calls).apply path value =
        { record := record.extended tag size (calls + 1), result := missing path tag size }) ∧
    Settled path value
      ((record.applied path value (index - record.instanceCount tag)).apply path value).result

theorem WellFormed.apply_behind (hbuilt : schema.BuiltFrom declarations aliases)
    (h : record.WellFormed schema) {path : String} {tag : Tag} {size index : Nat}
    (hpath : LeadsInto schema path tag size index)
    (hlt : record.instanceCount tag < index) (value : String) :
    record.apply path value =
      { record := record.extended tag size 1, result := missing path tag size } := by
  rcases hpath.declared hbuilt with ⟨type, htype, rfl⟩
  have happly := (h.missing_of_le hbuilt hpath (Nat.le_of_lt hlt) value).right.right
  have hle : (record.extended tag type.size 1).instanceCount tag ≤ index := by
    rw [instanceCount_extended]
    exact hlt
  rw [happly]
  exact ((h.extended hbuilt htype).missing_of_le hbuilt hpath hle value).left

theorem WellFormed.apply_last (hbuilt : schema.BuiltFrom declarations aliases)
    (hcodes : schema.CodesFit) (h : record.WellFormed schema) {path : String} {tag : Tag}
    {size index : Nat} (hpath : LeadsInto schema path tag size index)
    (heq : record.instanceCount tag = index) (value : String) :
    record.apply path value = (record.extended tag size 1).set path value ∧
      Settled path value (record.apply path value).result := by
  rcases hpath.declared hbuilt with ⟨type, htype, rfl⟩
  have happly := (h.missing_of_le hbuilt hpath (Nat.le_of_eq heq) value).right.right
  have hlt : index < (record.extended tag type.size 1).instanceCount tag := by
    rw [instanceCount_extended, heq]
    exact Nat.lt_succ_self index
  refine ⟨happly, ?_⟩
  rw [happly]
  exact ((h.extended hbuilt htype).settled_of_lt hbuilt hcodes hpath hlt value).left

theorem WellFormed.applied_eq (hbuilt : schema.BuiltFrom declarations aliases)
    (h : record.WellFormed schema) {path : String} {tag : Tag} {size index : Nat}
    (hpath : LeadsInto schema path tag size index) (value : String) {calls : Nat}
    (hcalls : calls ≤ index - record.instanceCount tag) :
    record.applied path value calls = record.extended tag size calls ∧
      (record.extended tag size calls).WellFormed schema := by
  induction calls with
  | zero =>
      rw [extended_zero]
      exact ⟨rfl, h⟩
  | succ calls ih =>
      rcases ih (Nat.le_of_succ_le hcalls) with ⟨happlied, hextended⟩
      rcases hpath.declared hbuilt with ⟨type, htype, rfl⟩
      -- The earlier calls have attached one buffer each, and still one is missing.
      have hlt : (record.extended tag type.size calls).instanceCount tag < index := by
        rw [instanceCount_extended]
        omega
      rw [applied, happlied, hextended.apply_behind hbuilt hpath hlt value]
      rw [extended_succ record tag type.size calls]
      exact ⟨rfl, hextended.extended hbuilt htype⟩

theorem WellFormed.negotiates (hbuilt : schema.BuiltFrom declarations aliases)
    (hcodes : schema.CodesFit) (h : record.WellFormed schema) {path : String} {tag : Tag}
    {size index : Nat} (hpath : LeadsInto schema path tag size index) (value : String) :
    Negotiates record path value tag size index where
  set_iff := by
    constructor
    · rintro ⟨path', tag', size', hmissing⟩
      rcases Nat.lt_or_ge index (record.instanceCount tag) with hlt | hle
      · have hsettled := (h.settled_of_lt hbuilt hcodes hpath hlt value).left
        exact absurd hmissing (hsettled.ne_missing path' tag' size')
      · exact hle
    · intro hle
      have hset := (h.missing_of_le hbuilt hpath hle value).left
      exact ⟨path, tag, size, congrArg Change.result hset⟩
  get_iff := by
    constructor
    · rintro ⟨path', tag', size', hmissing⟩
      rcases Nat.lt_or_ge index (record.instanceCount tag) with hlt | hle
      · rcases (h.settled_of_lt hbuilt hcodes hpath hlt value).right.left with ⟨values, hget⟩
        rw [hget] at hmissing
        cases hmissing
      · exact hle
    · intro hle
      exact ⟨path, tag, size, (h.missing_of_le hbuilt hpath hle value).right.left⟩
  absent := by
    intro hle
    rcases h.missing_of_le hbuilt hpath hle value with ⟨hset, hget, _⟩
    exact ⟨hset, hget⟩
  present := by
    intro hlt
    rcases h.settled_of_lt hbuilt hcodes hpath hlt value with ⟨hsettled, _, happly⟩
    rw [happly]
    exact ⟨rfl, hsettled⟩
  last := fun heq => h.apply_last hbuilt hcodes hpath heq value
  behind := fun hlt => h.apply_behind hbuilt hpath hlt value
  calls := by
    intro hle
    constructor
    · intro calls hcalls
      rcases h.applied_eq hbuilt hpath value (Nat.le_of_lt hcalls) with ⟨happlied, hextended⟩
      rw [happlied, extended_succ record tag size calls]
      refine hextended.apply_behind hbuilt hpath ?_ value
      rw [instanceCount_extended]
      omega
    · rcases h.applied_eq hbuilt hpath value (Nat.le_refl _) with ⟨happlied, hextended⟩
      rw [happlied]
      refine (hextended.apply_last hbuilt hcodes hpath ?_ value).right
      rw [instanceCount_extended]
      omega

theorem WellFormed.apply_eq_set (hbuilt : schema.BuiltFrom declarations aliases)
    (hcodes : schema.CodesFit) (h : record.WellFormed schema) {path : String}
    {location : Location} (hresolve : resolve schema path = .ok location)
    (houtside : location.target = .base ∨ location.isHeader = true) (value : String) :
    record.apply path value = record.set path value := by
  rcases h.set_ends hbuilt hcodes path value with hunfound | hsettled |
    ⟨tag, size, index, ⟨location', name, selector, hresolve', htarget, hbody, _⟩, _, _⟩
  · exact apply_of_not_missing hunfound.ne_missing
  · exact apply_of_not_missing hsettled.ne_missing
  · have hsame : location' = location := Except.ok.inj (hresolve'.symm.trans hresolve)
    subst hsame
    rcases houtside with hbase | hheader
    · rw [htarget] at hbase
      cases hbase
    · rw [hbody] at hheader
      cases hheader

theorem WellFormed.apply_ends (hbuilt : schema.BuiltFrom declarations aliases)
    (hcodes : schema.CodesFit) (h : record.WellFormed schema) (path value : String) :
    (forall failure, (record.apply path value).result = .error failure ->
      (record.apply path value).record = record ∨
        exists tag type, schema.extensionTagged? tag = some type ∧
          (record.apply path value).record = record.extended tag type.size 1) ∧
    forall error, (record.apply path value).result ≠ .error (.refused (.attach error)) := by
  rcases h.set_ends hbuilt hcodes path value with hunfound | hsettled |
    ⟨tag, size, index, hpath, hle, _⟩
  · rw [apply_of_not_missing hunfound.ne_missing]
    exact ⟨fun _ hfailed => Or.inl (set_error_record hfailed),
      h.set_ne_attach hbuilt hcodes path value⟩
  · rw [apply_of_not_missing hsettled.ne_missing]
    exact ⟨fun _ hfailed => Or.inl (set_error_record hfailed),
      h.set_ne_attach hbuilt hcodes path value⟩
  · rcases hpath.declared hbuilt with ⟨type, htype, rfl⟩
    rw [(h.missing_of_le hbuilt hpath hle value).right.right]
    constructor
    · intro failure hfailed
      exact Or.inr ⟨tag, type, htype, set_error_record hfailed⟩
    · exact (h.extended hbuilt htype).set_ne_attach hbuilt hcodes path value

/-!
## Every record
-/

/-- In every record that a run leads to, a property behind the header of an extension is
found exactly if the buffer with its index is attached. Otherwise both ways of access name
what is missing and change nothing, and applying a text attaches one zeroed buffer and tries
once more: with `k` the index and `n` buffers attached, the first `k - n` calls end with
another buffer missing and the next one is settled. Nothing is attached for the base record
or for a header, no call fails over attaching, and one that fails has attached at most one
buffer. -/
theorem apply_attaches_missing (hbuild : Schema.build declarations aliases = .ok schema)
    (hcodes : schema.CodesFit) (hreachable : Reachable schema record)
    (path value : String) :
    (forall location, resolve schema path = .ok location ->
      (location.target = .base ∨ location.isHeader = true ->
        record.apply path value = record.set path value ∧
          (record.apply path value).record.tags = record.tags) ∧
      forall tag name size selector,
        location.target = .extension tag name size selector -> location.isHeader = false ->
          (exists type, schema.extensionTagged? tag = some type ∧ type.size = size) ∧
            Negotiates record path value tag size (selector.getD 0)) ∧
      (forall failure, (record.set path value).result = .error failure ->
        (record.set path value).record = record) ∧
      (forall failure, (record.apply path value).result = .error failure ->
        (record.apply path value).record = record ∨
          exists tag type, schema.extensionTagged? tag = some type ∧
            (record.apply path value).record = record.extended tag type.size 1) ∧
      forall error, (record.apply path value).result ≠ .error (.refused (.attach error)) := by
  have hbuilt := Schema.builtFrom_of_build hbuild
  have h := hreachable.wellFormed hbuilt
  refine ⟨?_, fun _ => set_error_record, h.apply_ends hbuilt hcodes path value⟩
  intro location hresolve
  constructor
  · intro houtside
    have happly := h.apply_eq_set hbuilt hcodes hresolve houtside value
    rw [happly]
    exact ⟨rfl, tags_set record path value⟩
  · intro tag name size selector htarget hbody
    have hpath : LeadsInto schema path tag size (selector.getD 0) :=
      ⟨location, name, selector, hresolve, htarget, hbody, rfl⟩
    exact ⟨hpath.declared hbuilt, h.negotiates hbuilt hcodes hpath value⟩

/-- The third buffer of an extension of which one is attached: the first call attaches the
second buffer, and the second call the third. -/
theorem apply_attaches_missing_layers :
    let path := "mfxExtVP9TemporalLayers[2].Layer[1].TargetKbps"
    let record := (new Catalog.videoParameters).run [.attachZeroed (Catalog.tag "9TML")]
    exists location tag name size,
      resolve Catalog.videoParameters path = .ok location ∧
        location.target = .extension tag name size (some 2) ∧
        location.isHeader = false ∧ record.instanceCount tag = 1 ∧
        Negotiates record path "300" tag size 2 := by
  intro path record
  let tag := Catalog.tag "9TML"
  let name := "mfxExtVP9TemporalLayers"
  have hfacts : (resolve Catalog.videoParameters path).toOption.map (fun location =>
      (location.target, location.isHeader, record.instanceCount tag)) =
      some (.extension tag name 384 (some 2), false, 1) := by
    decide +kernel
  rcases Option.map_eq_some_iff.mp hfacts with ⟨location, hresolve, hfacts⟩
  rw [toOption_eq_some] at hresolve
  rw [Prod.mk.injEq, Prod.mk.injEq] at hfacts
  rcases hfacts with ⟨htarget, hbody, hcount⟩
  have hreachable : Reachable Catalog.videoParameters record := ⟨_, rfl⟩
  have hall := apply_attaches_missing Catalog.build_videoParameters (by decide +kernel)
    hreachable path "300"
  have hnegotiates := ((hall.left location hresolve).right tag name 384 (some 2) htarget
    hbody).right
  exact ⟨location, tag, name, 384, hresolve, htarget, hbody, hcount, hnegotiates⟩

end Record
end VideoConfig
