import VideoConfig.Proofs.Access.Negotiation
import VideoConfig.Proofs.Access.Overwriting
import VideoConfig.Proofs.Access.Separation

/-!
# Applying texts to records that agree

Whether a text is applied depends on the tags of a record alone, and so does the buffer to
which it goes. A byte that the text is written over holds the same in every record afterwards,
and every other byte holds what it held before. So records that agree on a byte still agree on
it when the same text is applied to both.
-/

namespace VideoConfig

/-- Whether a text for a property is written over a byte of the buffer that a target means. -/
def Schema.Writes (schema : Schema) (path text : String) (target : Target) (k : Nat) : Prop :=
  exists location payload, resolve schema path = .ok location ∧
    location.payload text = .ok payload ∧ location.target.SameBuffer target ∧
    location.Touches payload k

namespace Record

variable {schema : Schema} {declarations : List Declaration}
  {aliases : List (String × String)} {record : Record}

/-!
## Buffers of a target

A buffer has one tag and one index. So storing a text gives the buffer of the property its
new content, and every other buffer keeps what it holds.
-/

def bufferOf? (record : Record) : Target -> Option Bytes
  | .base => some record.base
  | .extension tag _ _ selector =>
      (record.findInstance? tag (selector.getD 0)).bind record.buffer?

def byteOf? (record : Record) (target : Target) (k : Nat) : Option UInt8 :=
  (record.bufferOf? target).bind fun buffer => buffer[k]?

theorem bufferOf?_congr {target target' : Target} (h : target.SameBuffer target') :
    record.bufferOf? target = record.bufferOf? target' := by
  cases target <;> cases target'
  · rfl
  · cases h
  · cases h
  · rcases h with ⟨rfl, hselector⟩
    unfold bufferOf?
    dsimp only
    rw [hselector]

theorem bufferOf?_of_negotiate {path : String} {location : Location} {slot : Slot}
    (h : record.negotiate path location = .ok slot) :
    record.bufferOf? location.target = record.buffer? slot := by
  unfold bufferOf?
  cases htarget : location.target with
  | base =>
      rw [negotiate_base record path htarget] at h
      cases h
      rfl
  | extension tag name size selector =>
      dsimp only
      rw [(negotiate_extension_iff htarget).mp h, Option.bind_some]

theorem findInstance?_tags {first second : Record} (h : first.tags = second.tags) (tag : Tag)
    (index : Nat) : first.findInstance? tag index = second.findInstance? tag index := by
  unfold findInstance? instances
  rw [positionsFrom_congr (h : first.attachments.map _ = second.attachments.map _)]

theorem pairwise_positionsFrom (tag : Tag) (start : Nat) (attachments : List Attachment) :
    (positionsFrom tag start attachments).Pairwise (· < ·) := by
  induction attachments generalizing start with
  | nil =>
      exact List.Pairwise.nil
  | cons first rest ih =>
      unfold positionsFrom
      split
      · refine List.Pairwise.cons ?_ (ih (start + 1))
        intro position hposition
        exact (mem_positionsFrom hposition).left
      · exact ih (start + 1)

theorem findInstance?_injective {tag tag' : Tag} {index index' : Nat} {slot : Slot}
    (h : record.findInstance? tag index = some slot)
    (h' : record.findInstance? tag' index' = some slot) : tag = tag' ∧ index = index' := by
  rcases findInstance?_eq_some h with ⟨position, attachment, rfl, hget, rfl⟩
  rcases findInstance?_eq_some h' with ⟨position', attachment', heq, hget', rfl⟩
  cases heq
  cases hget.symm.trans hget'
  refine ⟨rfl, ?_⟩
  unfold findInstance? instances at h h'
  rw [List.getElem?_map, Option.map_eq_some_iff] at h h'
  rcases h with ⟨first, hfirst, hslot⟩
  rcases h' with ⟨second, hsecond, hslot'⟩
  cases hslot
  cases hslot'
  have hnodup : (positionsFrom attachment.tag 0 record.attachments).Nodup :=
    (pairwise_positionsFrom _ _ _).imp Nat.ne_of_lt
  have hlt := (List.getElem?_eq_some_iff.mp hfirst).choose
  exact (List.getElem?_inj hlt hnodup).mp (hfirst.trans hsecond.symm)

theorem Storing.bufferOf?_before {path text : String} (steps : Storing record path text) :
    record.bufferOf? steps.location.target = some steps.before :=
  (bufferOf?_of_negotiate steps.negotiated).trans steps.found

theorem Storing.tags_result {path text : String} (steps : Storing record path text) :
    steps.result.tags = record.tags :=
  tags_setBuffer _ _ _

theorem Storing.bufferOf?_same {path text : String} (steps : Storing record path text)
    {target : Target} (h : steps.location.target.SameBuffer target) :
    steps.result.bufferOf? target = some steps.after := by
  have hnegotiated : steps.result.negotiate path steps.location = .ok steps.slot :=
    (negotiate_congr (Storing.tags_result steps)).trans steps.negotiated
  rw [← bufferOf?_congr h, bufferOf?_of_negotiate hnegotiated]
  exact buffer?_setBuffer_same steps.found

theorem Storing.bufferOf?_other {path text : String} (steps : Storing record path text)
    {target : Target} (h : ¬ steps.location.target.SameBuffer target) :
    steps.result.bufferOf? target = record.bufferOf? target := by
  cases target with
  | base =>
      rcases negotiate_eq_ok steps.negotiated with ⟨htarget, _⟩ |
        ⟨_, _, _, _, position, _, _, hslot, _, _⟩
      · rw [htarget] at h
        exact absurd trivial h
      · change steps.result.buffer? .base = record.buffer? .base
        refine buffer?_setBuffer_of_ne ?_
        rw [hslot]
        exact Slot.noConfusion
  | extension tag name size selector =>
      unfold bufferOf?
      dsimp only
      rw [findInstance?_tags (Storing.tags_result steps)]
      cases hfound : record.findInstance? tag (selector.getD 0) with
      | none =>
          rfl
      | some slot =>
          refine buffer?_setBuffer_of_ne ?_
          rintro rfl
          refine h ?_
          -- The slot of the property is that of the target, so both mean one buffer.
          have hnegotiated := steps.negotiated
          cases htarget : steps.location.target with
          | base =>
              rw [negotiate_base record path htarget] at hnegotiated
              rcases findInstance?_eq_some hfound with ⟨position, _, hslot, _, _⟩
              rw [hslot] at hnegotiated
              cases hnegotiated
          | extension tag' name' size' selector' =>
              exact findInstance?_injective ((negotiate_extension_iff htarget).mp hnegotiated)
                hfound

/-!
## Records prepared for a target

The buffer of the target is attached if it is missing, and no byte of those that are
attached changes.
-/

theorem bufferOf?_extended (record : Record) (tag : Tag) (size : Nat) (tag' : Tag)
    (name : String) (size' : Nat) (selector : Option Nat) :
    (record.extended tag size 1).bufferOf? (.extension tag' name size' selector) =
      if tag = tag' ∧ selector.getD 0 = record.instanceCount tag then
        some (Attachment.blank tag size).bytes
      else
        record.bufferOf? (.extension tag' name size' selector) := by
  have hextended : record.extended tag size 1 =
      record.withBuffers tag [(Attachment.blank tag size).bytes] := rfl
  unfold bufferOf?
  dsimp only
  rw [bind_findInstance?, bind_findInstance?, hextended]
  by_cases htag : tag = tag'
  · subst htag
    rw [attachmentsOf_withBuffers, ← length_attachmentsOf]
    by_cases hnew : selector.getD 0 = (record.attachmentsOf tag).length
    · rw [if_pos ⟨rfl, hnew⟩, hnew, List.map_singleton, List.getElem?_concat_length]
      rfl
    · rw [if_neg (fun h => hnew h.right)]
      congr 1
      rcases Nat.lt_or_gt_of_ne hnew with hlt | hgt
      · exact List.getElem?_append_left hlt
      · have hbehind : (record.attachmentsOf tag ++
            [(Attachment.blank tag size).bytes].map (Attachment.mk tag)).length ≤
            selector.getD 0 := by
          rw [List.length_append, List.length_map, List.length_singleton]
          exact hgt
        rw [List.getElem?_eq_none hbehind, List.getElem?_eq_none (Nat.le_of_lt hgt)]
  · rw [if_neg (fun h => htag h.left), attachmentsOf_withBuffers_of_ne _ htag]

/-- The record to which a text for a target is stored when it is applied. -/
def prepared (record : Record) : Target -> Record
  | .base => record
  | .extension tag _ size selector =>
      if record.instanceCount tag ≤ selector.getD 0 then record.extended tag size 1 else record

def Holds (record : Record) : Target -> Prop
  | .base => True
  | .extension tag _ _ selector => selector.getD 0 < record.instanceCount tag

theorem prepared_of_holds {target : Target} (h : record.Holds target) :
    record.prepared target = record := by
  cases target with
  | base =>
      rfl
  | extension tag name size selector =>
      exact if_neg (Nat.not_le.mpr h)

theorem instanceCount_le_extended (record : Record) (tag tag' : Tag) (size : Nat) :
    record.instanceCount tag' ≤ (record.extended tag size 1).instanceCount tag' := by
  unfold instanceCount extended
  rw [List.filter_append, List.length_append]
  exact Nat.le_add_right _ _

theorem Holds.prepared {target : Target} (h : record.Holds target) (other : Target) :
    (record.prepared other).Holds target := by
  cases other with
  | base =>
      exact h
  | extension tag name size selector =>
      unfold Record.prepared
      dsimp only
      split
      · cases target with
        | base =>
            trivial
        | extension tag' name' size' selector' =>
            exact Nat.lt_of_lt_of_le h (instanceCount_le_extended record tag tag' size)
      · exact h

theorem instanceCount_tags {first second : Record} (h : first.tags = second.tags) (tag : Tag) :
    first.instanceCount tag = second.instanceCount tag := by
  have hcount : forall record : Record, record.instanceCount tag =
      (record.tags.filter fun tag' => tag' = tag).length := by
    intro record
    rw [tags, List.filter_map, List.length_map]
    rfl
  rw [hcount, hcount, h]

theorem holds_tags {first second : Record} (h : first.tags = second.tags) {target : Target} :
    first.Holds target <-> second.Holds target := by
  cases target with
  | base =>
      exact Iff.rfl
  | extension tag name size selector =>
      unfold Holds
      dsimp only
      rw [instanceCount_tags h]

theorem tags_prepared {first second : Record} (h : first.tags = second.tags) (target : Target) :
    (first.prepared target).tags = (second.prepared target).tags := by
  cases target with
  | base =>
      exact h
  | extension tag name size selector =>
      unfold prepared
      dsimp only
      rw [instanceCount_tags h]
      split
      · unfold tags extended at *
        rw [List.map_append, List.map_append, h]
      · exact h

theorem byteOf?_prepared {first second : Record} (h : first.tags = second.tags)
    {target : Target} {k : Nat} (hbyte : first.byteOf? target k = second.byteOf? target k)
    (other : Target) :
    (first.prepared other).byteOf? target k = (second.prepared other).byteOf? target k := by
  cases other with
  | base =>
      exact hbyte
  | extension tag name size selector =>
      unfold prepared
      dsimp only
      rw [instanceCount_tags h]
      split
      · cases target with
        | base =>
            exact hbyte
        | extension tag' name' size' selector' =>
            unfold byteOf? at hbyte ⊢
            rw [bufferOf?_extended, bufferOf?_extended, instanceCount_tags h]
            split
            · rfl
            · exact hbyte
      · exact hbyte

theorem byteOf?_prepared_of_eq_some {target : Target} {k : Nat} {byte : UInt8}
    (h : record.byteOf? target k = some byte) (other : Target) :
    (record.prepared other).byteOf? target k = some byte := by
  cases other with
  | base =>
      exact h
  | extension tag name size selector =>
      unfold prepared
      dsimp only
      split
      · cases target with
        | base =>
            exact h
        | extension tag' name' size' selector' =>
            have hattached : ¬ (tag = tag' ∧ selector'.getD 0 = record.instanceCount tag) := by
              rintro ⟨rfl, hnew⟩
              have hnone : record.findInstance? tag (selector'.getD 0) = none :=
                findInstance?_eq_none_iff.mpr (Nat.le_of_eq hnew.symm)
              unfold byteOf? bufferOf? at h
              dsimp only at h
              rw [hnone] at h
              cases h
            unfold byteOf? at h ⊢
            rw [bufferOf?_extended, if_neg hattached]
            exact h
      · exact h

theorem exists_negotiate_iff_holds {path : String} {location : Location} :
    (exists slot, record.negotiate path location = .ok slot) <->
      record.Holds location.target := by
  cases htarget : location.target with
  | base =>
      exact ⟨fun _ => trivial, fun _ => ⟨.base, record.negotiate_base path htarget⟩⟩
  | extension tag name size selector =>
      exact exists_negotiate_iff path htarget

theorem WellFormed.prepared (hbuilt : schema.BuiltFrom declarations aliases)
    (h : record.WellFormed schema) {path : String} {location : Location}
    (hresolve : resolve schema path = .ok location) :
    (record.prepared location.target).WellFormed schema := by
  rcases Location.wellPlaced_of_resolve hbuilt hresolve with ⟨type, htype, _, hsize⟩
  cases htarget : location.target with
  | base =>
      exact h
  | extension tag name size selector =>
      rw [htarget] at htype
      have hsize' := hsize tag name size selector htarget
      subst hsize'
      unfold Record.prepared
      dsimp only
      split
      · exact h.extended hbuilt htype
      · exact h

/-!
## Texts that are applied

A text is applied by storing it in the record that is prepared for its property. Afterwards
the buffer of the property is attached, and nothing beyond it is.
-/

theorem WellFormed.apply_eq_set_prepared (hbuilt : schema.BuiltFrom declarations aliases)
    (hcodes : schema.CodesFit) (h : record.WellFormed schema) {path : String}
    {location : Location} (hresolve : resolve schema path = .ok location)
    (hbody : location.isHeader = false) (text : String) :
    record.apply path text = (record.prepared location.target).set path text := by
  cases htarget : location.target with
  | base =>
      exact h.apply_eq_set hbuilt hcodes hresolve (Or.inl htarget) text
  | extension tag name size selector =>
      have hpath : LeadsInto schema path tag size (selector.getD 0) :=
        ⟨location, name, selector, hresolve, htarget, hbody, rfl⟩
      rcases Nat.lt_or_ge (selector.getD 0) (record.instanceCount tag) with hlt | hle
      · have hholds : record.Holds (.extension tag name size selector) := hlt
        rw [prepared_of_holds hholds]
        exact (h.settled_of_lt hbuilt hcodes hpath hlt text).right.right
      · have hprepared : record.prepared (.extension tag name size selector) =
            record.extended tag size 1 := if_pos hle
        rw [hprepared]
        exact (h.missing_of_le hbuilt hpath hle text).right.right

theorem WellFormed.exists_location_of_apply (h : record.WellFormed schema)
    {path text : String} (happly : (record.apply path text).result = .ok ()) :
    exists location, resolve schema path = .ok location ∧ location.isHeader = false := by
  have hfound : ¬ Unfound path (record.set path text).result := by
    intro hunfound
    rw [apply_of_not_missing hunfound.ne_missing] at happly
    rw [happly] at hunfound
    rcases hunfound with heq | ⟨_, _, heq⟩ <;> cases heq
  rw [← h.schema_eq]
  cases hresolve : resolve record.schema path with
  | error failure =>
      exact absurd (set_unfound (Or.inl ⟨failure, hresolve⟩)) hfound
  | ok location =>
      cases hheader : location.isHeader with
      | true =>
          exact absurd (set_unfound (Or.inr ⟨location, hresolve, hheader⟩)) hfound
      | false =>
          exact ⟨location, rfl, hheader⟩

theorem WellFormed.apply_eq_ok (hbuilt : schema.BuiltFrom declarations aliases)
    (hcodes : schema.CodesFit) (h : record.WellFormed schema) {path text : String}
    {changed : Record} :
    record.apply path text = { record := changed, result := .ok () } <->
      exists location, resolve schema path = .ok location ∧
        exists steps : Storing (record.prepared location.target) path text,
          steps.location = location ∧ steps.result = changed := by
  constructor
  · intro happly
    rcases h.exists_location_of_apply (congrArg Change.result happly) with
      ⟨location, hresolve, hbody⟩
    rw [h.apply_eq_set_prepared hbuilt hcodes hresolve hbody, ← set_eq_ok, stored_eq_ok] at happly
    rcases happly with ⟨steps, hresult⟩
    have hresolve' := steps.resolved
    rw [(h.prepared hbuilt hresolve).schema_eq] at hresolve'
    exact ⟨location, hresolve, steps, Except.ok.inj (hresolve'.symm.trans hresolve), hresult⟩
  · rintro ⟨location, hresolve, steps, hsame, hresult⟩
    rw [h.apply_eq_set_prepared hbuilt hcodes hresolve (hsame ▸ steps.body), ← set_eq_ok,
      stored_eq_ok]
    exact ⟨steps, hresult⟩

theorem WellFormed.apply_holds (hbuilt : schema.BuiltFrom declarations aliases)
    (hcodes : schema.CodesFit) (h : record.WellFormed schema) {path text : String}
    {changed : Record}
    (happly : record.apply path text = { record := changed, result := .ok () })
    {location : Location} (hresolve : resolve schema path = .ok location) :
    changed.WellFormed schema ∧ changed.Holds location.target ∧
      changed.tags = (record.prepared location.target).tags := by
  rcases (h.apply_eq_ok hbuilt hcodes).mp happly with ⟨location', hresolve', steps, hsame, rfl⟩
  cases hresolve'.symm.trans hresolve
  have htags := Storing.tags_result steps
  have hholds := exists_negotiate_iff_holds.mp ⟨_, steps.negotiated⟩
  rw [hsame] at hholds
  exact ⟨(h.prepared hbuilt hresolve).result hbuilt steps, (holds_tags htags).mpr hholds, htags⟩

/-- Where one text for a property is applied, so is any other that it takes, in every record
with the same tags. -/
theorem WellFormed.exists_apply (hbuilt : schema.BuiltFrom declarations aliases)
    (hcodes : schema.CodesFit) {first second third first' third' : Record}
    (hfirst : first.WellFormed schema) (hsecond : second.WellFormed schema)
    (hthird : third.WellFormed schema) (htags : first.tags = second.tags)
    {path text other : String}
    (happly : first.apply path text = { record := first', result := .ok () })
    (hother : third.apply path other = { record := third', result := .ok () }) :
    exists second', second.apply path other = { record := second', result := .ok () } ∧
      first'.tags = second'.tags := by
  rcases (hthird.apply_eq_ok hbuilt hcodes).mp hother with ⟨location, hresolve, steps, hsame, _⟩
  rcases hfirst.apply_holds hbuilt hcodes happly hresolve with ⟨_, hholds, htags'⟩
  have hprepared := tags_prepared htags location.target
  have hholds' : (second.prepared location.target).Holds location.target :=
    (holds_tags (htags'.trans hprepared)).mp hholds
  have hready := hsecond.prepared hbuilt hresolve
  have hresolve' : resolve (second.prepared location.target).schema path = .ok location := by
    rw [hready.schema_eq]
    exact hresolve
  rcases exists_negotiate_iff_holds.mpr hholds' with ⟨slot, hnegotiate⟩
  rcases hready.exists_storing hbuilt hcodes hresolve' (hsame ▸ steps.body) hnegotiate
    (hsame ▸ steps.coerced) with ⟨steps', hsame'⟩
  refine ⟨steps'.result, (hsecond.apply_eq_ok hbuilt hcodes).mpr
    ⟨location, hresolve, steps', hsame', rfl⟩, ?_⟩
  rw [htags', hprepared, Storing.tags_result]

/-!
## Bytes that are written

A byte that the text is written over holds the same in every record afterwards, and every
other byte what it held when the record was prepared.
-/

theorem WellFormed.apply_writes (hbuilt : schema.BuiltFrom declarations aliases)
    (hcodes : schema.CodesFit) {first second first' second' : Record}
    (hfirst : first.WellFormed schema) (hsecond : second.WellFormed schema)
    {path text : String}
    (happly : first.apply path text = { record := first', result := .ok () })
    (happly' : second.apply path text = { record := second', result := .ok () })
    {target : Target} {k : Nat} (hwrites : schema.Writes path text target k) :
    exists byte, first'.byteOf? target k = some byte ∧
      second'.byteOf? target k = some byte := by
  rcases hwrites with ⟨location, payload, hresolve, hpayload, hbuffer, htouches⟩
  -- In both records the payload is written to a buffer of the same size.
  have hwritten : forall {record changed : Record}, record.WellFormed schema ->
      record.apply path text = { record := changed, result := .ok () } ->
        exists type before after, schema.bufferType? location.target = some type ∧
          location.WellPlaced type ∧ before.length = type.size ∧
          location.write? before payload = some after ∧
          changed.bufferOf? target = some after := by
    intro record changed h happly
    rcases (h.apply_eq_ok hbuilt hcodes).mp happly with
      ⟨location', hresolve', steps, hsame, rfl⟩
    cases hresolve'.symm.trans hresolve
    rcases (h.prepared hbuilt hresolve).located hbuilt steps.resolved steps.negotiated with
      ⟨type, buffer, htype, hplaced, hfound, hlength⟩
    cases hfound.symm.trans steps.found
    have hcoerced := steps.coerced
    have hwritten := steps.written
    rw [hsame] at htype hplaced hcoerced hwritten
    cases hcoerced.symm.trans hpayload
    refine ⟨type, steps.before, steps.after, htype, hplaced, hlength, hwritten, ?_⟩
    refine Storing.bufferOf?_same steps ?_
    rw [hsame]
    exact hbuffer
  rcases hwritten hfirst happly with ⟨type, before, after, htype, hplaced, hlength, hwrite, hafter⟩
  rcases hwritten hsecond happly' with
    ⟨type', before', after', htype', _, hlength', hwrite', hafter'⟩
  cases htype.symm.trans htype'
  have hsame : after[k]? = after'[k]? :=
    hplaced.write?_agree (Location.codesFit_of_resolve hbuilt hcodes hresolve) hpayload hlength
      hlength' hwrite hwrite' (Or.inr htouches)
  have hk : k < after.length := by
    rw [(Location.write?_frame hwrite).left, hlength]
    exact hplaced.lt_of_touches (Location.suits_of_payload hpayload) htouches
  unfold byteOf?
  rw [hafter, hafter']
  exact ⟨after[k], List.getElem?_eq_getElem hk, hsame.symm.trans (List.getElem?_eq_getElem hk)⟩

theorem WellFormed.apply_keeps (hbuilt : schema.BuiltFrom declarations aliases)
    (hcodes : schema.CodesFit) (h : record.WellFormed schema) {path text : String}
    {changed : Record}
    (happly : record.apply path text = { record := changed, result := .ok () })
    {location : Location} (hresolve : resolve schema path = .ok location) {target : Target}
    {k : Nat} (hkept : ¬ schema.Writes path text target k) :
    changed.byteOf? target k = (record.prepared location.target).byteOf? target k := by
  rcases (h.apply_eq_ok hbuilt hcodes).mp happly with ⟨location', hresolve', steps, hsame, rfl⟩
  cases hresolve'.symm.trans hresolve
  unfold byteOf?
  by_cases hbuffer : steps.location.target.SameBuffer target
  · have huntouched : ¬ steps.location.Touches steps.payload k := by
      intro htouches
      have hresolve' : resolve schema path = .ok steps.location := by
        rw [hsame]
        exact hresolve
      exact hkept
        ⟨steps.location, steps.payload, hresolve', steps.coerced, hbuffer, htouches⟩
    rw [Storing.bufferOf?_same steps hbuffer, ← bufferOf?_congr hbuffer,
      Storing.bufferOf?_before steps]
    exact (Location.write?_frame steps.written).right k huntouched
  · rw [Storing.bufferOf?_other steps hbuffer]

theorem WellFormed.apply_keeps_some (hbuilt : schema.BuiltFrom declarations aliases)
    (hcodes : schema.CodesFit) (h : record.WellFormed schema) {path text : String}
    {changed : Record}
    (happly : record.apply path text = { record := changed, result := .ok () })
    {target : Target} {k : Nat} {byte : UInt8} (hkept : ¬ schema.Writes path text target k)
    (hbyte : record.byteOf? target k = some byte) : changed.byteOf? target k = some byte := by
  rcases (h.apply_eq_ok hbuilt hcodes).mp happly with ⟨location, hresolve, _⟩
  rw [h.apply_keeps hbuilt hcodes happly hresolve hkept]
  exact byteOf?_prepared_of_eq_some hbyte location.target

/-!
## Records that agree

A text that is applied to both keeps the agreement. Two texts for one property keep it on
the bytes that neither is written over.
-/

/-- Records with the same buffers that agree on some of the bytes in them. -/
structure AgreeOn (schema : Schema) (bytes : Target -> Nat -> Prop) (first second : Record) :
    Prop where
  left : first.WellFormed schema
  right : second.WellFormed schema
  tags : first.tags = second.tags
  bytes : forall target k, bytes target k -> first.byteOf? target k = second.byteOf? target k

variable {bytes : Target -> Nat -> Prop} {first second first' second' : Record}

theorem AgreeOn.refl (h : record.WellFormed schema) : AgreeOn schema bytes record record :=
  ⟨h, h, rfl, fun _ _ _ => rfl⟩

theorem AgreeOn.symm (h : AgreeOn schema bytes first second) :
    AgreeOn schema bytes second first :=
  ⟨h.right, h.left, h.tags.symm, fun target k hk => (h.bytes target k hk).symm⟩

theorem AgreeOn.imp {bytes' : Target -> Nat -> Prop} (h : AgreeOn schema bytes first second)
    (himp : forall target k, bytes' target k -> bytes target k) :
    AgreeOn schema bytes' first second :=
  ⟨h.left, h.right, h.tags, fun target k hk => h.bytes target k (himp target k hk)⟩

theorem AgreeOn.apply_apart (hbuilt : schema.BuiltFrom declarations aliases)
    (hcodes : schema.CodesFit) (h : AgreeOn schema bytes first second)
    {path text text' : String}
    (happly : first.apply path text = { record := first', result := .ok () })
    (happly' : second.apply path text' = { record := second', result := .ok () }) :
    AgreeOn schema (fun target k => bytes target k ∧ ¬ schema.Writes path text target k ∧
      ¬ schema.Writes path text' target k) first' second' := by
  rcases (h.left.apply_eq_ok hbuilt hcodes).mp happly with ⟨location, hresolve, _⟩
  rcases h.left.apply_holds hbuilt hcodes happly hresolve with ⟨hleft, _, htags⟩
  rcases h.right.apply_holds hbuilt hcodes happly' hresolve with ⟨hright, _, htags'⟩
  refine ⟨hleft, hright, ?_, ?_⟩
  · rw [htags, htags', tags_prepared h.tags]
  · rintro target k ⟨hbytes, hkept, hkept'⟩
    rw [h.left.apply_keeps hbuilt hcodes happly hresolve hkept,
      h.right.apply_keeps hbuilt hcodes happly' hresolve hkept']
    exact byteOf?_prepared h.tags (h.bytes target k hbytes) location.target

theorem AgreeOn.apply (hbuilt : schema.BuiltFrom declarations aliases)
    (hcodes : schema.CodesFit) (h : AgreeOn schema bytes first second) {path text : String}
    (happly : first.apply path text = { record := first', result := .ok () }) :
    exists second', second.apply path text = { record := second', result := .ok () } ∧
      AgreeOn schema bytes first' second' := by
  rcases h.left.exists_apply hbuilt hcodes h.right h.left h.tags happly happly with
    ⟨second', happly', _⟩
  have hapart := h.apply_apart hbuilt hcodes happly happly'
  refine ⟨second', happly', hapart.left, hapart.right, hapart.tags, ?_⟩
  intro target k hbytes
  by_cases hwrites : schema.Writes path text target k
  · rcases h.left.apply_writes hbuilt hcodes h.right happly happly' hwrites with
      ⟨byte, hbyte, hbyte'⟩
    rw [hbyte, hbyte']
  · exact hapart.bytes target k ⟨hbytes, hwrites, hwrites⟩

end Record
end VideoConfig
