import Mathlib.Data.List.Basic
import VideoConfig.Proofs.Record.Buffers

/-!
# Attachments of one tag

The buffers of a tag are numbered in the order in which they were attached. The slots that
a record lists for a tag are those of the attachments with this tag, one for each and in
their order.
-/

namespace VideoConfig
namespace Record

def attachmentsOf (record : Record) (tag : Tag) : List Attachment :=
  record.attachments.filter fun attachment => attachment.tag = tag

theorem mem_attachmentsOf {record : Record} {tag : Tag} {attachment : Attachment} :
    attachment ∈ record.attachmentsOf tag <->
      attachment ∈ record.attachments ∧ attachment.tag = tag := by
  simp [attachmentsOf]

theorem map_positionsFrom (tag : Tag) (start : Nat) {all attachments : List Attachment}
    (h : forall i, all[start + i]? = attachments[i]?) :
    (positionsFrom tag start attachments).map (fun position => all[position]?) =
      (attachments.filter fun attachment => attachment.tag = tag).map some := by
  induction attachments generalizing start with
  | nil =>
      rfl
  | cons first rest ih =>
      have hrest : forall i, all[start + 1 + i]? = rest[i]? := by
        intro i
        have hi := h (i + 1)
        rw [List.getElem?_cons_succ] at hi
        rw [← hi, Nat.add_assoc, Nat.add_comm 1 i]
      unfold positionsFrom
      by_cases htag : first.tag = tag
      · have hfirst : all[start]? = some first := h 0
        rw [if_pos htag, List.filter_cons_of_pos (by simpa using htag)]
        rw [List.map_cons, List.map_cons, hfirst, ih (start + 1) hrest]
      · rw [if_neg htag, List.filter_cons_of_neg (by simpa using htag)]
        exact ih (start + 1) hrest

theorem map_buffer?_instances (record : Record) (tag : Tag) :
    (record.instances tag).map record.buffer? =
      (record.attachmentsOf tag).map fun attachment => some attachment.bytes := by
  have hpositions := map_positionsFrom tag 0 (fun i =>
    congrArg (fun position => record.attachments[position]?) (Nat.zero_add i))
  have hbytes := congrArg (List.map (Option.map Attachment.bytes)) hpositions
  simpa [instances, attachmentsOf, Function.comp_def, buffer?] using hbytes

theorem bind_findInstance? (record : Record) (tag : Tag) (index : Nat) :
    (record.findInstance? tag index).bind record.buffer? =
      (record.attachmentsOf tag)[index]?.map Attachment.bytes := by
  have hget := congrArg (fun buffers => buffers[index]?) (map_buffer?_instances record tag)
  simp only [List.getElem?_map] at hget
  unfold findInstance?
  cases hslot : (record.instances tag)[index]? with
  | none =>
      rw [hslot] at hget
      cases hattachment : (record.attachmentsOf tag)[index]? with
      | none =>
          rfl
      | some attachment =>
          rw [hattachment] at hget
          cases hget
  | some slot =>
      rw [hslot] at hget
      cases hattachment : (record.attachmentsOf tag)[index]? with
      | none =>
          rw [hattachment] at hget
          cases hget
      | some attachment =>
          rw [hattachment] at hget
          exact Option.some.inj hget

theorem length_instances (record : Record) (tag : Tag) :
    (record.instances tag).length = record.instanceCount tag := by
  have hlength := congrArg List.length (map_buffer?_instances record tag)
  rwa [List.length_map, List.length_map] at hlength

theorem findInstance?_eq_none_iff {record : Record} {tag : Tag} {index : Nat} :
    record.findInstance? tag index = none <-> record.instanceCount tag ≤ index := by
  rw [← length_instances]
  exact List.getElem?_eq_none_iff

theorem exists_instances_iff {record : Record} {tag : Tag} {p : Bytes -> Prop} :
    (exists slot, slot ∈ record.instances tag ∧
        exists buffer, record.buffer? slot = some buffer ∧ p buffer) <->
      exists attachment, attachment ∈ record.attachments ∧ attachment.tag = tag ∧
        p attachment.bytes := by
  have hbuffers := map_buffer?_instances record tag
  constructor
  · rintro ⟨slot, hslot, buffer, hbuffer, hp⟩
    have hmem : some buffer ∈ (record.instances tag).map record.buffer? :=
      List.mem_map.mpr ⟨slot, hslot, hbuffer⟩
    rw [hbuffers] at hmem
    rcases List.mem_map.mp hmem with ⟨attachment, hattachment, heq⟩
    rcases mem_attachmentsOf.mp hattachment with ⟨hattached, htag⟩
    cases heq
    exact ⟨attachment, hattached, htag, hp⟩
  · rintro ⟨attachment, hattached, htag, hp⟩
    have hmem : some attachment.bytes ∈
        (record.attachmentsOf tag).map fun attachment => some attachment.bytes :=
      List.mem_map.mpr ⟨attachment, mem_attachmentsOf.mpr ⟨hattached, htag⟩, rfl⟩
    rw [← hbuffers] at hmem
    rcases List.mem_map.mp hmem with ⟨slot, hslot, hbuffer⟩
    exact ⟨slot, hslot, attachment.bytes, hbuffer, hp⟩

/-!
## Records with more buffers

The buffer that was attached last is the last one of its tag.
-/

def withBuffers (record : Record) (tag : Tag) (buffers : List Bytes) : Record :=
  { record with attachments := record.attachments ++ buffers.map (Attachment.mk tag) }

theorem withBuffers_nil (record : Record) (tag : Tag) :
    record.withBuffers tag [] = record := by
  unfold withBuffers
  rw [List.map_nil, List.append_nil]

theorem withBuffers_cons (record : Record) (tag : Tag) (bytes : Bytes) (buffers : List Bytes) :
    (record.withBuffers tag [bytes]).withBuffers tag buffers =
      record.withBuffers tag (bytes :: buffers) := by
  simp [withBuffers]

theorem attachmentsOf_withBuffers (record : Record) (tag : Tag) (buffers : List Bytes) :
    (record.withBuffers tag buffers).attachmentsOf tag =
      record.attachmentsOf tag ++ buffers.map (Attachment.mk tag) := by
  have hall : (buffers.map (Attachment.mk tag)).filter
      (fun attachment => attachment.tag = tag) = buffers.map (Attachment.mk tag) :=
    List.filter_eq_self.mpr (by simp)
  unfold attachmentsOf withBuffers
  rw [List.filter_append, hall]

theorem attachmentsOf_withBuffers_of_ne (record : Record) {tag other : Tag}
    (h : other ≠ tag) (buffers : List Bytes) :
    (record.withBuffers other buffers).attachmentsOf tag = record.attachmentsOf tag := by
  have hnone : (buffers.map (Attachment.mk other)).filter
      (fun attachment => attachment.tag = tag) = [] :=
    List.filter_eq_nil_iff.mpr (by simp [h])
  unfold attachmentsOf withBuffers
  rw [List.filter_append, hnone, List.append_nil]

theorem length_attachmentsOf (record : Record) (tag : Tag) :
    (record.attachmentsOf tag).length = record.instanceCount tag := rfl

theorem instanceCount_withBuffers (record : Record) (tag : Tag) (buffers : List Bytes) :
    (record.withBuffers tag buffers).instanceCount tag =
      record.instanceCount tag + buffers.length := by
  rw [← length_attachmentsOf, attachmentsOf_withBuffers, List.length_append, List.length_map,
    length_attachmentsOf]

theorem positionsFrom_append (tag : Tag) (start : Nat) (first second : List Attachment) :
    positionsFrom tag start (first ++ second) =
      positionsFrom tag start first ++ positionsFrom tag (start + first.length) second := by
  induction first generalizing start with
  | nil =>
      rfl
  | cons attachment rest ih =>
      have hlength : start + (attachment :: rest).length = start + 1 + rest.length := by
        rw [List.length_cons]
        omega
      rw [List.cons_append, positionsFrom, positionsFrom, hlength, ih]
      split <;> rfl

theorem findInstance?_newest (record : Record) (tag : Tag) (bytes : Bytes) :
    (record.withBuffers tag [bytes]).findInstance? tag (record.instanceCount tag) =
      some (.attached record.attachments.length) := by
  have hinstances : (record.withBuffers tag [bytes]).instances tag =
      record.instances tag ++ [.attached record.attachments.length] := by
    unfold instances withBuffers
    rw [List.map_singleton, positionsFrom_append, List.map_append, Nat.zero_add]
    congr 1
    simp [positionsFrom]
  unfold findInstance?
  rw [hinstances, ← length_instances, List.getElem?_concat_length]

theorem buffer?_newest (record : Record) (tag : Tag) (bytes : Bytes) :
    (record.withBuffers tag [bytes]).buffer? (.attached record.attachments.length) =
      some bytes := by
  simp [withBuffers, buffer?]

theorem setBuffer_newest (record : Record) (tag : Tag) (before after : Bytes) :
    (record.withBuffers tag [before]).setBuffer (.attached record.attachments.length) after =
      record.withBuffers tag [after] := by
  simp [withBuffers, setBuffer, List.modify_eq_set_getElem?]

end Record
end VideoConfig
