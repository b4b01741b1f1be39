import VideoConfig.Access

/-!
# Buffers of a record

The buffer at a slot can be replaced without a change to any other. The tags of the
attachments alone decide in which slot a location lies.
-/

namespace VideoConfig
namespace Record

/-!
## Replacing a buffer

An attachment after a buffer is replaced is one from before, or has the new bytes in place
of those at the slot.
-/

def tags (record : Record) : List Tag :=
  record.attachments.map Attachment.tag

@[simp] theorem setBuffer_schema (record : Record) (slot : Slot) (bytes : Bytes) :
    (record.setBuffer slot bytes).schema = record.schema := by
  cases slot <;> rfl

@[simp] theorem tags_setBuffer (record : Record) (slot : Slot) (bytes : Bytes) :
    (record.setBuffer slot bytes).tags = record.tags := by
  cases slot with
  | base =>
      rfl
  | attached position =>
      refine List.ext_getElem? ?_
      intro i
      simp only [tags, setBuffer, List.getElem?_map, List.getElem?_modify]
      split
      · cases record.attachments[i]? <;> rfl
      · simp

theorem buffer?_setBuffer_same {record : Record} {slot : Slot} {before after : Bytes}
    (h : record.buffer? slot = some before) :
    (record.setBuffer slot after).buffer? slot = some after := by
  cases slot with
  | base =>
      rfl
  | attached position =>
      rcases Option.map_eq_some_iff.mp h with ⟨attachment, hattachment, _⟩
      simp [setBuffer, buffer?, hattachment]

theorem setBuffer_self {record : Record} {slot : Slot} {bytes : Bytes}
    (h : record.buffer? slot = some bytes) : record.setBuffer slot bytes = record := by
  cases slot with
  | base =>
      cases h
      rfl
  | attached position =>
      rcases Option.map_eq_some_iff.mp h with ⟨attachment, hattachment, rfl⟩
      have hsame : record.attachments.modify position
          (fun found => { found with bytes := attachment.bytes }) = record.attachments := by
        refine List.ext_getElem? ?_
        intro i
        rw [List.getElem?_modify]
        split
        · next heq =>
            rw [← heq, hattachment]
            rfl
        · exact Option.map_id'
      rw [setBuffer, hsame]

theorem buffer?_setBuffer_of_ne {record : Record} {slot other : Slot} {after : Bytes}
    (h : other ≠ slot) :
    (record.setBuffer slot after).buffer? other = record.buffer? other := by
  cases slot with
  | base =>
      cases other with
      | base =>
          exact absurd rfl h
      | attached position =>
          rfl
  | attached position =>
      cases other with
      | base =>
          rfl
      | attached position' =>
          have hne : position ≠ position' := by
            rintro rfl
            exact h rfl
          simp [setBuffer, buffer?, hne]

theorem mem_attachments_setBuffer {record : Record} {slot : Slot} {before after : Bytes}
    (hfound : record.buffer? slot = some before) {attachment : Attachment}
    (h : attachment ∈ (record.setBuffer slot after).attachments) :
    attachment ∈ record.attachments ∨
      slot ≠ .base ∧ exists old, old ∈ record.attachments ∧ old.bytes = before ∧
        attachment = { old with bytes := after } := by
  cases slot with
  | base =>
      exact Or.inl h
  | attached position =>
      rcases Option.map_eq_some_iff.mp hfound with ⟨old, hold, hbytes⟩
      rcases List.mem_iff_getElem?.mp h with ⟨i, hi⟩
      simp only [setBuffer, List.getElem?_modify] at hi
      rcases Option.map_eq_some_iff.mp hi with ⟨original, horiginal, hnew⟩
      by_cases heq : position = i
      · rw [if_pos heq] at hnew
        rw [← heq, hold] at horiginal
        cases horiginal
        exact Or.inr ⟨by simp, old, List.mem_of_getElem? hold, hbytes, hnew.symm⟩
      · rw [if_neg heq] at hnew
        rw [← hnew]
        exact Or.inl (List.mem_of_getElem? horiginal)

theorem length_base_setBuffer {record : Record} {slot : Slot} {before after : Bytes}
    (hfound : record.buffer? slot = some before) (h : after.length = before.length) :
    (record.setBuffer slot after).base.length = record.base.length := by
  cases slot with
  | base =>
      have hbefore : record.base = before := Option.some.inj hfound
      rw [hbefore]
      exact h
  | attached position =>
      rfl

/-!
## Finding a buffer

A location in the base record lies in its buffer, and one in an extension in the buffer that
its selector counts off.
-/

theorem positionsFrom_congr {tag : Tag} {start : Nat} {first second : List Attachment}
    (h : first.map Attachment.tag = second.map Attachment.tag) :
    positionsFrom tag start first = positionsFrom tag start second := by
  induction first generalizing start second with
  | nil =>
      cases second with
      | nil =>
          rfl
      | cons other others =>
          cases h
  | cons attachment rest ih =>
      cases second with
      | nil =>
          cases h
      | cons other others =>
          rw [List.map_cons, List.map_cons, List.cons.injEq] at h
          rw [positionsFrom, positionsFrom, h.left, ih h.right]

theorem negotiate_congr {first second : Record} {path : String} {location : Location}
    (h : first.tags = second.tags) :
    first.negotiate path location = second.negotiate path location := by
  unfold negotiate findInstance? instances
  cases location.target with
  | base =>
      rfl
  | extension tag name size selector =>
      dsimp only
      rw [positionsFrom_congr (h : first.attachments.map _ = second.attachments.map _)]

theorem mem_positionsFrom {tag : Tag} {start position : Nat} {attachments : List Attachment}
    (h : position ∈ positionsFrom tag start attachments) :
    start ≤ position ∧ exists attachment,
      attachments[position - start]? = some attachment ∧ attachment.tag = tag := by
  induction attachments generalizing start with
  | nil =>
      cases h
  | cons first rest ih =>
      have hbehind : position ∈ positionsFrom tag (start + 1) rest ->
          start ≤ position ∧ exists attachment,
            (first :: rest)[position - start]? = some attachment ∧ attachment.tag = tag := by
        intro hrest
        rcases ih hrest with ⟨hle, attachment, hget, htag⟩
        refine ⟨by omega, attachment, ?_, htag⟩
        have hsucc : position - start = position - (start + 1) + 1 := by omega
        rw [hsucc, List.getElem?_cons_succ]
        exact hget
      unfold positionsFrom at h
      split at h
      · next htag =>
          rcases List.mem_cons.mp h with rfl | h
          · exact ⟨Nat.le_refl _, first, by simp, htag⟩
          · exact hbehind h
      · exact hbehind h

theorem findInstance?_eq_some {record : Record} {tag : Tag} {index : Nat} {slot : Slot}
    (h : record.findInstance? tag index = some slot) :
    exists position attachment, slot = .attached position ∧
      record.attachments[position]? = some attachment ∧ attachment.tag = tag := by
  have hmem : slot ∈ record.instances tag := List.mem_of_getElem? h
  rcases List.mem_map.mp hmem with ⟨position, hposition, rfl⟩
  rcases mem_positionsFrom hposition with ⟨_, attachment, hget, htag⟩
  exact ⟨position, attachment, rfl, by simpa using hget, htag⟩

theorem negotiate_base (record : Record) (path : String) {location : Location}
    (h : location.target = .base) : record.negotiate path location = .ok .base := by
  unfold negotiate
  rw [h]

theorem negotiate_extension_iff {record : Record} {path : String} {location : Location}
    {slot : Slot} {tag : Tag} {name : String} {size : Nat} {selector : Option Nat}
    (h : location.target = .extension tag name size selector) :
    record.negotiate path location = .ok slot <->
      record.findInstance? tag (selector.getD 0) = some slot := by
  unfold negotiate
  rw [h]
  dsimp only
  cases record.findInstance? tag (selector.getD 0) <;> simp

theorem negotiate_eq_ok {record : Record} {path : String} {location : Location}
    {slot : Slot} (h : record.negotiate path location = .ok slot) :
    location.target = .base ∧ slot = .base ∨
      exists tag name size selector position attachment,
        location.target = .extension tag name size selector ∧
        slot = .attached position ∧
        record.attachments[position]? = some attachment ∧ attachment.tag = tag := by
  cases htarget : location.target with
  | base =>
      rw [negotiate_base record path htarget] at h
      cases h
      exact Or.inl ⟨rfl, rfl⟩
  | extension tag name size selector =>
      rcases findInstance?_eq_some ((negotiate_extension_iff htarget).mp h) with
        ⟨position, attachment, hslot, hget, htag⟩
      exact Or.inr ⟨tag, name, size, selector, position, attachment, rfl, hslot, hget, htag⟩

/-!
## Detaching a buffer
-/

theorem mem_of_removeLast? {tag : Tag} {attachments others : List Attachment}
    {removed : Attachment} (h : removeLast? tag attachments = some (removed, others)) :
    forall attachment, attachment ∈ others -> attachment ∈ attachments := by
  induction attachments generalizing others with
  | nil =>
      cases h
  | cons first rest ih =>
      unfold removeLast? at h
      split at h
      · next hrest =>
          cases h
          intro attachment hmem
          rcases List.mem_cons.mp hmem with rfl | hmem
          · exact List.mem_cons_self
          · exact List.mem_cons_of_mem first (ih hrest attachment hmem)
      · split at h
        · cases h
          intro attachment hmem
          exact List.mem_cons_of_mem _ hmem
        · cases h

end Record
end VideoConfig
