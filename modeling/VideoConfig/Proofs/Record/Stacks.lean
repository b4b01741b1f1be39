import Mathlib.Logic.Function.Basic
import VideoConfig.Proofs.Access.Applying

/-!
# The attached buffers as stacks

The buffers of all tags are attached to a record in one list. Seen from outside it is a stack
of buffers for each tag: attaching pushes onto the stack of the tag, detaching pops from it,
and setting a property replaces at most the buffer that its selector counts off. Every search
through the list numbers the buffers of a tag as its stack does.
-/

namespace VideoConfig

/-!
## Stacks

In a stack the buffer that was attached first stands in front. The zeroed buffer that a text
needs is attached only where the selected one is missing.
-/

abbrev Stacks := Tag -> List Bytes

namespace Stacks

def push (held : Stacks) (tag : Tag) (bytes : Bytes) : Stacks :=
  Function.update held tag (held tag ++ [bytes])

def pop (held : Stacks) (tag : Tag) : Stacks :=
  Function.update held tag (held tag).dropLast

def replace (held : Stacks) (tag : Tag) (index : Nat) (bytes : Bytes) : Stacks :=
  Function.update held tag ((held tag).set index bytes)

theorem pop_eq_self {held : Stacks} {tag : Tag} (h : held tag = []) :
    held.pop tag = held := by
  have hsame : (held tag).dropLast = held tag := by
    rw [h]
    rfl
  unfold pop
  rw [hsame, Function.update_eq_self]

theorem push_getElem? {held : Stacks} {tag other : Tag} {bytes : Bytes} {index : Nat}
    (h : other = tag -> index < (held tag).length) :
    ((held.push other bytes) tag)[index]? = (held tag)[index]? := by
  by_cases htag : other = tag
  · subst htag
    rw [push, Function.update_self, List.getElem?_append_left (h rfl)]
  · rw [push, Function.update_of_ne (Ne.symm htag)]

theorem pop_getElem? {held : Stacks} {tag other : Tag} {index : Nat}
    (h : other = tag -> index + 1 < (held tag).length) :
    ((held.pop other) tag)[index]? = (held tag)[index]? := by
  by_cases htag : other = tag
  · subst htag
    have hlt : index < (held other).length - 1 := Nat.lt_sub_of_add_lt (h rfl)
    rw [pop, Function.update_self, List.getElem?_dropLast, if_pos hlt]
  · rw [pop, Function.update_of_ne (Ne.symm htag)]

theorem replace_getElem? {held : Stacks} {tag other : Tag} {index changed : Nat}
    {bytes : Bytes} (h : other = tag -> changed ≠ index) :
    ((held.replace other changed bytes) tag)[index]? = (held tag)[index]? := by
  by_cases htag : other = tag
  · subst htag
    rw [replace, Function.update_self, List.getElem?_set_ne (h rfl)]
  · rw [replace, Function.update_of_ne (Ne.symm htag)]

def selected (held : Stacks) (tag : Tag) : (selector : Option Nat) -> List Bytes
  | none => held tag
  | some index => (held tag)[index]?.toList

def Selects (schema : Schema) (path : String) (tag : Tag) (index : Nat) : Prop :=
  exists location name size selector, resolve schema path = .ok location ∧
    location.target = .extension tag name size selector ∧ selector.getD 0 = index

/-- What an operation does to the stacks of a record. -/
inductive Step (schema : Schema) : Stacks -> Operation -> Stacks -> Prop where
  | pushed {held : Stacks} {tag : Tag} {bytes : Bytes} {type : RecordType}
      (declared : schema.extensionTagged? tag = some type) (sized : bytes.length = type.size) :
      Step schema held (.attach tag bytes)
        (held.push tag (bytes.overwrite 0 (Record.header tag type.size)))
  | refused {held : Stacks} {tag : Tag} {bytes : Bytes}
      (unfit : forall type, schema.extensionTagged? tag = some type ->
        bytes.length ≠ type.size) :
      Step schema held (.attach tag bytes) held
  | pushedZeroed {held : Stacks} {tag : Tag} {type : RecordType}
      (declared : schema.extensionTagged? tag = some type) :
      Step schema held (.attachZeroed tag)
        (held.push tag ((Bytes.zeros type.size).overwrite 0 (Record.header tag type.size)))
  | refusedZeroed {held : Stacks} {tag : Tag}
      (unknown : schema.extensionTagged? tag = none) :
      Step schema held (.attachZeroed tag) held
  | popped {held : Stacks} {tag : Tag} : Step schema held (.detach tag) (held.pop tag)
  | kept {held : Stacks} {path value : String} : Step schema held (.set path value) held
  | stored {held : Stacks} {path value : String} {tag : Tag} {index : Nat} {bytes : Bytes}
      (selected : Selects schema path tag index) (present : index < (held tag).length) :
      Step schema held (.set path value) (held.replace tag index bytes)
  | applied {held after : Stacks} {path value : String}
      (step : Step schema held (.set path value) after) :
      Step schema held (.apply path value) after
  | prepared {held middle after : Stacks} {path value : String} {tag : Tag} {index : Nat}
      (selected : Selects schema path tag index) (missing : (held tag).length ≤ index)
      (first : Step schema held (.attachZeroed tag) middle)
      (second : Step schema middle (.set path value) after) :
      Step schema held (.apply path value) after

/-- Whether an operation leaves the content alone that an index selects of the buffers of a
tag. Buffers of other tags may come and go, and those of the tag above the index. -/
def Spares (schema : Schema) (held : Stacks) (tag : Tag) (index : Nat) : Operation -> Prop
  | .attach other _ => other = tag -> index < (held tag).length
  | .attachZeroed other => other = tag -> index < (held tag).length
  | .detach other => other = tag -> index + 1 < (held tag).length
  | .set path _ => ¬ Selects schema path tag index
  | .apply path _ =>
      ¬ Selects schema path tag index ∧
        forall other, Selects schema path tag other -> index < (held tag).length

theorem Step.getElem?_eq {schema : Schema} {held after : Stacks} {operation : Operation}
    {tag : Tag} {index : Nat} (h : Step schema held operation after)
    (hspares : Spares schema held tag index operation) :
    (after tag)[index]? = (held tag)[index]? := by
  induction h with
  | pushed _ _ =>
      exact push_getElem? hspares
  | pushedZeroed _ =>
      exact push_getElem? hspares
  | popped =>
      exact pop_getElem? hspares
  | refused _ =>
      rfl
  | refusedZeroed _ =>
      rfl
  | kept =>
      rfl
  | stored selected _ =>
      refine replace_getElem? ?_
      rintro rfl rfl
      exact hspares selected
  | applied _ ih =>
      exact ih hspares.left
  | prepared selected _ _ _ ihfirst ihsecond =>
      refine (ihsecond hspares.left).trans (ihfirst ?_)
      rintro rfl
      exact hspares.right _ selected

inductive Runs (schema : Schema) : Stacks -> List Operation -> Stacks -> Prop where
  | nil {held : Stacks} : Runs schema held [] held
  | cons {before middle after : Stacks} {operation : Operation} {rest : List Operation}
      (first : Step schema before operation middle) (others : Runs schema middle rest after) :
      Runs schema before (operation :: rest) after

end Stacks

namespace Record

def stackOf (record : Record) : Stacks :=
  fun tag => (record.attachmentsOf tag).map Attachment.bytes

variable {record : Record}

/-!
## Searching for a buffer

The instance with an index is the attachment of the tag before which there are as many of
the tag.
-/

theorem length_stackOf (record : Record) (tag : Tag) :
    (record.stackOf tag).length = record.instanceCount tag :=
  List.length_map _

theorem findInstance?_stackOf (record : Record) (tag : Tag) (index : Nat) :
    (record.findInstance? tag index).bind record.buffer? = (record.stackOf tag)[index]? := by
  rw [bind_findInstance?]
  exact List.getElem?_map.symm

theorem instances_stackOf (record : Record) (tag : Tag) :
    (record.instances tag).map record.buffer? = (record.stackOf tag).map some := by
  rw [map_buffer?_instances]
  exact (List.map_map).symm

theorem findInstance?_middle {before after : List Attachment} {attachment : Attachment}
    (h : record.attachments = before ++ attachment :: after) :
    record.findInstance? attachment.tag
        (before.filter fun other => other.tag = attachment.tag).length =
      some (.attached before.length) := by
  have hlength : (positionsFrom attachment.tag 0 before).length =
      (before.filter fun other => other.tag = attachment.tag).length := by
    have hmap := congrArg List.length (map_positionsFrom attachment.tag 0 (fun i =>
      congrArg (fun position => before[position]?) (Nat.zero_add i)))
    rwa [List.length_map, List.length_map] at hmap
  unfold findInstance? instances
  rw [h, positionsFrom_append, List.getElem?_map,
    List.getElem?_append_right (Nat.le_of_eq hlength), hlength, Nat.sub_self]
  simp [positionsFrom]

theorem findInstance?_eq_some_iff {tag : Tag} {index : Nat} {slot : Slot} :
    record.findInstance? tag index = some slot <->
      exists before attachment after, record.attachments = before ++ attachment :: after ∧
        attachment.tag = tag ∧
        (before.filter fun other => other.tag = tag).length = index ∧
        slot = .attached before.length := by
  constructor
  · intro hfound
    rcases findInstance?_eq_some hfound with ⟨position, attachment, rfl, hget, rfl⟩
    rcases List.getElem?_eq_some_iff.mp hget with ⟨hlt, hattachment⟩
    have hsplit : record.attachments =
        record.attachments.take position ++ attachment ::
          record.attachments.drop (position + 1) := by
      rw [← hattachment, ← List.drop_eq_getElem_cons hlt, List.take_append_drop]
    have hlength : (record.attachments.take position).length = position :=
      List.length_take_of_le (Nat.le_of_lt hlt)
    have hmiddle := findInstance?_middle hsplit
    rw [hlength] at hmiddle
    exact ⟨_, attachment, _, hsplit, rfl, (findInstance?_injective hmiddle hfound).right,
      by rw [hlength]⟩
  · rintro ⟨before, attachment, after, hsplit, rfl, rfl, rfl⟩
    exact findInstance?_middle hsplit

theorem candidates_stackOf {location : Location} {tag : Tag} {name : String} {size : Nat}
    {selector : Option Nat} (h : location.target = .extension tag name size selector) :
    (record.candidates location).map record.buffer? =
      (record.stackOf.selected tag selector).map some := by
  unfold candidates Stacks.selected
  rw [h]
  cases selector with
  | none =>
      exact instances_stackOf record tag
  | some index =>
      dsimp only
      rw [← findInstance?_stackOf]
      cases hfound : record.findInstance? tag index with
      | none =>
          rfl
      | some slot =>
          rcases findInstance?_eq_some hfound with ⟨position, attachment, rfl, hget, _⟩
          simp [buffer?, hget]

theorem candidates_base (record : Record) {location : Location} (h : location.target = .base) :
    record.candidates location = [.base] := by
  unfold candidates
  rw [h]

theorem head?_candidates (record : Record) {location : Location} {tag : Tag} {name : String}
    {size : Nat} {selector : Option Nat}
    (h : location.target = .extension tag name size selector) :
    (record.candidates location).head? = record.findInstance? tag (selector.getD 0) := by
  unfold candidates
  rw [h]
  cases selector with
  | none =>
      exact List.head?_eq_getElem?
  | some index =>
      exact Option.head?_toList

theorem negotiate_eq_ok_iff {path : String} {location : Location} {slot : Slot} :
    record.negotiate path location = .ok slot <->
      (record.candidates location).head? = some slot := by
  cases htarget : location.target with
  | base =>
      simp [negotiate_base record path htarget, candidates_base record htarget]
  | extension tag name size selector =>
      rw [negotiate_extension_iff htarget, head?_candidates record htarget]

theorem negotiate_eq_error_iff {path : String} {location : Location} {error : AccessError} :
    record.negotiate path location = .error error <->
      record.candidates location = [] ∧
        exists tag name size selector,
          location.target = .extension tag name size selector ∧
          error = .moreBuffersNeeded path tag size := by
  rw [← List.head?_eq_none_iff]
  cases hslot : record.negotiate path location with
  | ok slot =>
      simp [negotiate_eq_ok_iff.mp hslot]
  | error error' =>
      have hnone : (record.candidates location).head? = none := by
        refine Option.eq_none_iff_forall_ne_some.mpr ?_
        intro slot hhead
        rw [negotiate_eq_ok_iff.mpr hhead] at hslot
        cases hslot
      cases htarget : location.target with
      | base =>
          rw [negotiate_base record path htarget] at hslot
          cases hslot
      | extension tag name size selector =>
          have hmissing : record.negotiate path location =
              .error (.moreBuffersNeeded path tag size) := by
            rw [negotiate_error_iff path htarget, ← findInstance?_eq_none_iff,
              ← head?_candidates record htarget]
            exact hnone
          cases hslot.symm.trans hmissing
          simp [hnone, eq_comm]

/-!
## Attaching
-/

theorem stackOf_withBuffers (record : Record) (tag : Tag) (bytes : Bytes) :
    (record.withBuffers tag [bytes]).stackOf = record.stackOf.push tag bytes := by
  funext other
  by_cases h : other = tag
  · subst h
    rw [Stacks.push, Function.update_self, stackOf, attachmentsOf_withBuffers, List.map_append]
    rfl
  · rw [Stacks.push, Function.update_of_ne h, stackOf,
      attachmentsOf_withBuffers_of_ne record (Ne.symm h)]
    rfl

theorem stackOf_attach {changed : Record} {tag : Tag} {bytes : Bytes}
    (h : record.attach tag bytes = .ok changed) :
    exists type, record.schema.extensionTagged? tag = some type ∧
      bytes.length = type.size ∧ changed.schema = record.schema ∧
      changed.stackOf = record.stackOf.push tag (bytes.overwrite 0 (header tag type.size)) := by
  rcases attach_eq_ok.mp h with ⟨type, htype, hsize, rfl⟩
  exact ⟨type, htype, hsize, rfl, stackOf_withBuffers record tag _⟩

theorem stackOf_attachZeroed {changed : Record} {tag : Tag}
    (h : record.attachZeroed tag = .ok changed) :
    exists type, record.schema.extensionTagged? tag = some type ∧
      changed.schema = record.schema ∧
      changed.stackOf = record.stackOf.push tag
        ((Bytes.zeros type.size).overwrite 0 (header tag type.size)) := by
  unfold attachZeroed at h
  split at h
  · cases h
  · next type htype =>
      rcases stackOf_attach h with ⟨type', htype', _, hschema, hstacks⟩
      cases htype.symm.trans htype'
      exact ⟨type, htype, hschema, hstacks⟩

/-!
## Detaching

What is removed stands behind all others of its tag, and the rest keeps its order.
-/

theorem removeLast?_eq_none_iff {tag : Tag} {attachments : List Attachment} :
    removeLast? tag attachments = none <->
      attachments.filter (fun attachment => attachment.tag = tag) = [] := by
  induction attachments with
  | nil =>
      simp [removeLast?]
  | cons first rest ih =>
      unfold removeLast?
      cases hrest : removeLast? tag rest with
      | none =>
          have hfilter := ih.mp hrest
          by_cases htag : first.tag = tag <;> simp [htag, hfilter]
      | some found =>
          have hfilter : rest.filter (fun attachment => attachment.tag = tag) ≠ [] := by
            intro hempty
            rw [ih.mpr hempty] at hrest
            cases hrest
          by_cases htag : first.tag = tag <;> simp [htag, hfilter]

theorem removeLast?_eq_some {tag : Tag} {attachments others : List Attachment}
    {removed : Attachment} (h : removeLast? tag attachments = some (removed, others)) :
    exists before after, attachments = before ++ removed :: after ∧
      others = before ++ after ∧ removed.tag = tag ∧
      after.filter (fun attachment => attachment.tag = tag) = [] := by
  induction attachments generalizing others with
  | nil =>
      cases h
  | cons first rest ih =>
      unfold removeLast? at h
      split at h
      · next hrest =>
          cases h
          rcases ih hrest with ⟨before, after, rfl, rfl, htag, hafter⟩
          exact ⟨first :: before, after, rfl, rfl, htag, hafter⟩
      · next hrest =>
          split at h
          · next htag =>
              cases h
              exact ⟨[], rest, rfl, rfl, htag, removeLast?_eq_none_iff.mp hrest⟩
          · cases h

theorem detach?_eq_none_iff {tag : Tag} :
    record.detach? tag = none <-> record.stackOf tag = [] := by
  unfold detach? stackOf attachmentsOf
  rw [Option.map_eq_none_iff, removeLast?_eq_none_iff, List.map_eq_nil_iff]

theorem stackOf_detach {removed : Attachment} {changed : Record} {tag : Tag}
    (h : record.detach? tag = some (removed, changed)) :
    removed.tag = tag ∧ (record.stackOf tag).getLast? = some removed.bytes ∧
      changed.schema = record.schema ∧ changed.stackOf = record.stackOf.pop tag := by
  rcases Option.map_eq_some_iff.mp h with ⟨⟨first, others⟩, hremove, heq⟩
  cases heq
  rcases removeLast?_eq_some hremove with ⟨before, after, hall, rfl, rfl, hafter⟩
  have hstack : record.stackOf removed.tag =
      (before.filter fun attachment => attachment.tag = removed.tag).map Attachment.bytes ++
        [removed.bytes] := by
    simp [stackOf, attachmentsOf, hall, hafter]
  refine ⟨rfl, by rw [hstack, List.getLast?_concat], rfl, ?_⟩
  funext other
  by_cases htag : other = removed.tag
  · subst htag
    rw [Stacks.pop, Function.update_self, hstack, List.dropLast_concat]
    simp [stackOf, attachmentsOf, hafter]
  · rw [Stacks.pop, Function.update_of_ne htag]
    simp [stackOf, attachmentsOf, hall, Ne.symm htag]

/-!
## Storing

A text is stored in the base record, or it replaces the buffer that its path selects.
-/

theorem stackOf_setBuffer {tag : Tag} {index : Nat} {slot : Slot}
    (h : record.findInstance? tag index = some slot) (bytes : Bytes) :
    (record.setBuffer slot bytes).stackOf = record.stackOf.replace tag index bytes := by
  funext other
  refine List.ext_getElem? ?_
  intro i
  have hfind := findInstance?_tags (tags_setBuffer record slot bytes) other i
  rw [← findInstance?_stackOf, hfind]
  by_cases hsame : other = tag ∧ i = index
  · rcases hsame with ⟨rfl, rfl⟩
    have hlt : i < (record.stackOf other).length := by
      rw [length_stackOf, ← Nat.not_le, ← findInstance?_eq_none_iff, h]
      exact Option.some_ne_none slot
    rcases findInstance?_eq_some h with ⟨position, attachment, rfl, hget, _⟩
    have hbefore : record.buffer? (.attached position) = some attachment.bytes := by
      simp [buffer?, hget]
    rw [h, Option.bind_some, buffer?_setBuffer_same hbefore, Stacks.replace,
      Function.update_self, List.getElem?_set_self hlt]
  · have hother : (record.findInstance? other i).bind (record.setBuffer slot bytes).buffer? =
        (record.findInstance? other i).bind record.buffer? := by
      cases hfound : record.findInstance? other i with
      | none =>
          rfl
      | some found =>
          refine buffer?_setBuffer_of_ne ?_
          rintro rfl
          exact hsame (findInstance?_injective hfound h)
    rw [hother, findInstance?_stackOf]
    refine (Stacks.replace_getElem? ?_).symm
    intro htag hindex
    exact hsame ⟨htag.symm, hindex.symm⟩

theorem stackOf_storing {path value : String} (steps : Storing record path value) :
    steps.result.stackOf = record.stackOf ∨
      exists tag index, Stacks.Selects record.schema path tag index ∧
        index < (record.stackOf tag).length ∧ steps.result.base = record.base ∧
        steps.result.stackOf = record.stackOf.replace tag index steps.after := by
  rcases negotiate_eq_ok steps.negotiated with ⟨_, hslot⟩ |
    ⟨tag, name, size, selector, position, _, htarget, hslot, _, _⟩
  · refine Or.inl ?_
    rw [Storing.result, hslot]
    rfl
  · have hfound := (negotiate_extension_iff htarget).mp steps.negotiated
    have hlt : selector.getD 0 < (record.stackOf tag).length := by
      rw [length_stackOf]
      exact (exists_negotiate_iff path htarget).mp ⟨steps.slot, steps.negotiated⟩
    have hbase : steps.result.base = record.base := by
      rw [Storing.result, hslot]
      rfl
    exact Or.inr ⟨tag, selector.getD 0,
      ⟨steps.location, name, size, selector, steps.resolved, htarget, rfl⟩, hlt, hbase,
      stackOf_setBuffer hfound steps.after⟩

theorem stackOf_set (record : Record) (path value : String) :
    (record.set path value).record.stackOf = record.stackOf ∨
      exists tag index bytes, Stacks.Selects record.schema path tag index ∧
        index < (record.stackOf tag).length ∧
        (record.set path value).record.base = record.base ∧
        (record.set path value).record.stackOf = record.stackOf.replace tag index bytes := by
  rcases set_cases record path value with ⟨failure, _, hset⟩ | ⟨steps, hset⟩
  · rw [hset]
    exact Or.inl rfl
  · rw [hset]
    rcases stackOf_storing steps with hsame | ⟨tag, index, hreplaced⟩
    · exact Or.inl hsame
    · exact Or.inr ⟨tag, index, steps.after, hreplaced⟩

theorem step_set (record : Record) (path value : String) :
    Stacks.Step record.schema record.stackOf (.set path value)
      (record.set path value).record.stackOf := by
  rcases stackOf_set record path value with hsame | ⟨tag, index, bytes, hselects, hlt, _, hset⟩
  · rw [hsame]
    exact .kept
  · rw [hset]
    exact .stored hselects hlt

theorem stored_missing {path path' value : String} {tag : Tag} {size : Nat}
    (h : record.stored path value = missing path' tag size) :
    exists index, Stacks.Selects record.schema path tag index ∧
      (record.stackOf tag).length ≤ index := by
  rcases bind_eq_error.mp h with hresolved | ⟨location, hresolved, h⟩
  · rcases Location.resolve_eq_error hresolved with heq | ⟨obstacle, span, heq⟩
    · cases heq
    · cases heq
  · dsimp only at h
    split at h
    · cases h
    · rcases bind_eq_error.mp h with hfailed | ⟨slot, _, h⟩
      · rcases mapError_eq_error.mp hfailed with ⟨error, hnegotiated, hcause⟩
        cases hcause
        rcases negotiate_eq_error_iff.mp hnegotiated with
          ⟨_, tag', name, size', selector, htarget, heq⟩
        cases heq
        refine ⟨selector.getD 0,
          ⟨location, name, _, selector, hresolved, htarget, rfl⟩, ?_⟩
        rw [length_stackOf]
        exact (negotiate_error_iff path htarget).mp hnegotiated
      · rcases bind_eq_error.mp h with hfailed | ⟨payload, _, h⟩
        · rcases mapError_eq_error.mp hfailed with ⟨error, _, hcause⟩
          cases hcause
        · split at h
          · cases h
          · split at h <;> cases h

/-!
## One operation

Whether it succeeds or not, an operation does to the record what it does to the stacks.
-/

theorem step_attachZeroed (record : Record) (tag : Tag) :
    Stacks.Step record.schema record.stackOf (.attachZeroed tag)
      ((record.attachZeroed tag).toOption.getD record).stackOf := by
  cases htype : record.schema.extensionTagged? tag with
  | none =>
      unfold attachZeroed
      rw [htype]
      exact .refusedZeroed htype
  | some type =>
      cases hattach : record.attachZeroed tag with
      | error error =>
          unfold attachZeroed attach at hattach
          rw [htype] at hattach
          simp at hattach
      | ok changed =>
          rcases stackOf_attachZeroed hattach with ⟨type', htype', _, hstacks⟩
          change Stacks.Step _ _ _ changed.stackOf
          rw [hstacks]
          exact .pushedZeroed htype'

theorem step_apply (record : Record) (path value : String) :
    Stacks.Step record.schema record.stackOf (.apply path value)
      (record.apply path value).record.stackOf := by
  rcases set_cases record path value with ⟨failure, hstored, hset⟩ | ⟨steps, hset⟩
  · unfold apply
    rw [hset]
    dsimp only
    split
    · next path' tag size hresult =>
        cases hresult
        rcases stored_missing hstored with ⟨index, hselects, hle⟩
        have hfirst := step_attachZeroed record tag
        cases hattach : record.attachZeroed tag with
        | error error =>
            rw [hattach] at hfirst
            exact .prepared hselects hle hfirst .kept
        | ok extended =>
            rw [hattach] at hfirst
            rcases stackOf_attachZeroed hattach with ⟨_, _, hschema, _⟩
            have hsecond := step_set extended path value
            rw [hschema] at hsecond
            exact .prepared hselects hle hfirst hsecond
    · exact .applied .kept
  · have hstep := step_set record path value
    rw [hset] at hstep
    unfold apply
    rw [hset]
    exact .applied hstep

theorem step_perform (record : Record) (operation : Operation) :
    Stacks.Step record.schema record.stackOf operation (record.perform operation).stackOf := by
  cases operation with
  | attach tag bytes =>
      change Stacks.Step _ _ _ ((record.attach tag bytes).toOption.getD record).stackOf
      cases hattach : record.attach tag bytes with
      | error error =>
          refine .refused ?_
          intro type htype hsize
          rw [attach_eq_ok.mpr ⟨type, htype, hsize, rfl⟩] at hattach
          cases hattach
      | ok changed =>
          rcases stackOf_attach hattach with ⟨type, htype, hsize, _, hstacks⟩
          change Stacks.Step _ _ _ changed.stackOf
          rw [hstacks]
          exact .pushed htype hsize
  | attachZeroed tag =>
      exact step_attachZeroed record tag
  | detach tag =>
      change Stacks.Step _ _ _ (((record.detach? tag).map Prod.snd).getD record).stackOf
      cases hdetach : record.detach? tag with
      | none =>
          have hsame := Stacks.pop_eq_self (detach?_eq_none_iff.mp hdetach)
          have hstep : Stacks.Step record.schema record.stackOf (.detach tag)
              (record.stackOf.pop tag) := .popped
          rwa [hsame] at hstep
      | some result =>
          rcases result with ⟨removed, changed⟩
          change Stacks.Step _ _ _ changed.stackOf
          rw [(stackOf_detach hdetach).right.right.right]
          exact .popped
  | set path value =>
      exact step_set record path value
  | apply path value =>
      exact step_apply record path value

theorem schema_perform (record : Record) (operation : Operation) :
    (record.perform operation).schema = record.schema := by
  have hset : forall (record : Record) (path value : String),
      (record.set path value).record.schema = record.schema := by
    intro record path value
    rcases set_cases record path value with ⟨failure, _, hset⟩ | ⟨steps, hset⟩
    · rw [hset]
    · rw [hset]
      exact setBuffer_schema _ _ _
  cases operation with
  | attach tag bytes =>
      change ((record.attach tag bytes).toOption.getD record).schema = record.schema
      cases hattach : record.attach tag bytes with
      | error error =>
          rfl
      | ok changed =>
          rcases stackOf_attach hattach with ⟨_, _, _, hschema, _⟩
          exact hschema
  | attachZeroed tag =>
      change ((record.attachZeroed tag).toOption.getD record).schema = record.schema
      cases hattach : record.attachZeroed tag with
      | error error =>
          rfl
      | ok changed =>
          rcases stackOf_attachZeroed hattach with ⟨_, _, hschema, _⟩
          exact hschema
  | detach tag =>
      change (((record.detach? tag).map Prod.snd).getD record).schema = record.schema
      cases hdetach : record.detach? tag with
      | none =>
          rfl
      | some result =>
          exact (stackOf_detach hdetach).right.right.left
  | set path value =>
      exact hset record path value
  | apply path value =>
      change (record.apply path value).record.schema = record.schema
      rcases apply_cases record path value with hsame | ⟨tag, extended, hattach, happly⟩ | hkept
      · rw [hsame]
        exact hset record path value
      · rcases stackOf_attachZeroed hattach with ⟨_, _, hschema, _⟩
        rw [happly, hset extended path value, hschema]
      · rw [hkept]

/-!
## Every record
-/

/-- How a record answers for its buffers, in terms of their stacks. -/
structure Stacked (record : Record) : Prop where
  counted : forall tag, record.instanceCount tag = (record.stackOf tag).length
  listed : forall tag,
    (record.instances tag).map record.buffer? = (record.stackOf tag).map some
  found : forall tag index,
    (record.findInstance? tag index).bind record.buffer? = (record.stackOf tag)[index]?
  designated : forall tag index slot, record.findInstance? tag index = some slot <->
    exists before attachment after, record.attachments = before ++ attachment :: after ∧
      attachment.tag = tag ∧ (before.filter fun other => other.tag = tag).length = index ∧
      slot = .attached before.length
  base : forall location, location.target = .base -> record.candidates location = [.base]
  candidates : forall location tag name size selector,
    location.target = .extension tag name size selector ->
    (record.candidates location).map record.buffer? =
      (record.stackOf.selected tag selector).map some
  negotiated : forall path location slot, record.negotiate path location = .ok slot <->
    (record.candidates location).head? = some slot
  missing : forall path location error, record.negotiate path location = .error error <->
    record.candidates location = [] ∧
      exists tag name size selector, location.target = .extension tag name size selector ∧
        error = .moreBuffersNeeded path tag size
  attached : forall tag bytes changed, record.attach tag bytes = .ok changed ->
    exists type, record.schema.extensionTagged? tag = some type ∧
      bytes.length = type.size ∧ changed.schema = record.schema ∧
      changed.stackOf = record.stackOf.push tag (bytes.overwrite 0 (header tag type.size))
  attachedZeroed : forall tag changed, record.attachZeroed tag = .ok changed ->
    exists type, record.schema.extensionTagged? tag = some type ∧
      changed.schema = record.schema ∧
      changed.stackOf = record.stackOf.push tag
        ((Bytes.zeros type.size).overwrite 0 (header tag type.size))
  emptied : forall tag, record.detach? tag = none <-> record.stackOf tag = []
  detached : forall tag removed changed, record.detach? tag = some (removed, changed) ->
    removed.tag = tag ∧ (record.stackOf tag).getLast? = some removed.bytes ∧
      changed.schema = record.schema ∧ changed.stackOf = record.stackOf.pop tag
  stored : forall path value, (record.set path value).record.stackOf = record.stackOf ∨
    exists tag index bytes, Stacks.Selects record.schema path tag index ∧
      index < (record.stackOf tag).length ∧
      (record.set path value).record.base = record.base ∧
      (record.set path value).record.stackOf = record.stackOf.replace tag index bytes

theorem stacked (record : Record) : record.Stacked where
  counted tag := (length_stackOf record tag).symm
  listed := instances_stackOf record
  found := findInstance?_stackOf record
  designated _ _ _ := findInstance?_eq_some_iff
  base _ := candidates_base record
  candidates _ _ _ _ _ := candidates_stackOf
  negotiated _ _ _ := negotiate_eq_ok_iff
  missing _ _ _ := negotiate_eq_error_iff
  attached _ _ _ := stackOf_attach
  attachedZeroed _ _ := stackOf_attachZeroed
  emptied _ := detach?_eq_none_iff
  detached _ _ _ := stackOf_detach
  stored := stackOf_set record

theorem runs_stackOf (record : Record) (operations : List Operation) :
    Stacks.Runs record.schema record.stackOf operations (record.run operations).stackOf := by
  induction operations generalizing record with
  | nil =>
      exact .nil
  | cons operation rest ih =>
      have hrest := ih (record.perform operation)
      rw [schema_perform] at hrest
      exact .cons (step_perform record operation) hrest

theorem getElem?_stackOf_run {record : Record} {operations : List Operation} {tag : Tag}
    {index : Nat}
    (h : forall before operation after, operations = before ++ operation :: after ->
      Stacks.Spares record.schema (record.run before).stackOf tag index operation) :
    ((record.run operations).stackOf tag)[index]? = (record.stackOf tag)[index]? := by
  induction operations generalizing record with
  | nil =>
      rfl
  | cons operation rest ih =>
      have hfirst := (step_perform record operation).getElem?_eq (h [] operation rest rfl)
      refine (ih ?_).trans hfirst
      intro before later after hrest
      rw [schema_perform]
      exact h (operation :: before) later after (by rw [hrest]; rfl)

/-- The attached buffers behave as one stack for each tag. A run of operations, whether they
succeed or not, is a run on the stacks, and every record that it reaches counts, finds, lists
and negotiates its buffers by their stacks. So the content that an index selects stays the
same while buffers of other tags, or of the tag above the index, are attached and detached
and nothing is stored through the index. -/
theorem run_refines_stacks (record : Record) (operations : List Operation) :
    Stacks.Runs record.schema record.stackOf operations (record.run operations).stackOf ∧
      (record.run operations).Stacked ∧
      forall tag index,
        (forall before operation after, operations = before ++ operation :: after ->
          Stacks.Spares record.schema (record.run before).stackOf tag index operation) ->
        ((record.run operations).stackOf tag)[index]? = (record.stackOf tag)[index]? :=
  ⟨runs_stackOf record operations, stacked _, fun _ _ => getElem?_stackOf_run⟩

/-- A buffer that stands between two others of another tag is detached: the slot of the
second one moves, and its content stays selected. -/
theorem run_refines_stacks_between :
    let layers := Catalog.tag "9TML"
    let options := Catalog.tag "CDO2"
    let record := (new Catalog.videoParameters).run
      [.attachZeroed layers, .attachZeroed options, .attachZeroed layers]
    let detached := record.run [.detach options]
    record.findInstance? layers 1 = some (.attached 2) ∧
      detached.findInstance? layers 1 = some (.attached 1) ∧
      (detached.stackOf layers)[1]? = (record.stackOf layers)[1]? := by
  intro layers options record detached
  have hslots : record.findInstance? layers 1 = some (.attached 2) ∧
      detached.findInstance? layers 1 = some (.attached 1) := by
    decide +kernel
  refine ⟨hslots.left, hslots.right, ?_⟩
  refine (run_refines_stacks record [.detach options]).right.right layers 1 ?_
  intro before operation after hsplit
  have hoperation : operation = .detach options := by
    have hmem : operation ∈ [Operation.detach options] := by
      rw [hsplit]
      simp
    exact List.mem_singleton.mp hmem
  rw [hoperation]
  intro htag
  have hne : options ≠ layers := by decide
  exact absurd htag hne

end Record
end VideoConfig
