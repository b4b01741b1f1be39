import VideoConfig.Proofs.Catalog
import VideoConfig.Proofs.Record.Runs

/-!
# Headers of attached buffers

The header of a buffer is written when the buffer is attached. It then says which extension
the buffer is and how long, in every record that a run leads to, and no property that is set
changes it.
-/

namespace VideoConfig

namespace Record

variable {schema : Schema} {declarations : List Declaration}
  {aliases : List (String × String)} {record : Record}

/-!
## Reading a header
-/

theorem toNat_size_bytes {size : Nat} (h : size < 2 ^ (32 : Nat)) :
    Bytes.toNat (Bytes.ofNat 4 size) = size := by
  have hlt : size < 256 ^ 4 := h
  rw [Bytes.toNat_ofNat, Nat.mod_eq_of_lt hlt]

theorem read_header {bytes : Bytes} {tag : Tag} {size : Nat}
    (h : bytes.take Layout.headerSize = header tag size) (hsize : size < 2 ^ (32 : Nat)) :
    Bytes.toNat (bytes.take 4) = tag.code.toNat ∧
      Bytes.toNat ((bytes.drop 4).take 4) = size := by
  have htag : tag.bytes.length = 4 := Bytes.length_ofNat _ _
  have hfirst : bytes.take 4 = (bytes.take Layout.headerSize).take 4 := by
    rw [List.take_take]
    rfl
  have hsecond : (bytes.drop 4).take 4 = (bytes.take Layout.headerSize).drop 4 := by
    rw [List.drop_take]
    rfl
  rw [hfirst, hsecond, h, header]
  constructor
  · rw [List.take_left' htag, Tag.toNat_bytes]
  · rw [List.drop_left' htag, toNat_size_bytes hsize]

/-!
## Headers that are kept

A buffer may be replaced by one with the same header, and a new attachment stands behind the
others.
-/

def KeepsHeaders (before after : Record) : Prop :=
  forall (position : Nat) (attachment : Attachment),
    before.attachments[position]? = some attachment ->
    exists kept, after.attachments[position]? = some kept ∧
      kept.tag = attachment.tag ∧
      kept.bytes.take Layout.headerSize = attachment.bytes.take Layout.headerSize

theorem KeepsHeaders.refl (record : Record) : record.KeepsHeaders record :=
  fun _ attachment h => ⟨attachment, h, rfl, rfl⟩

theorem KeepsHeaders.trans {first second third : Record}
    (h : first.KeepsHeaders second) (h' : second.KeepsHeaders third) :
    first.KeepsHeaders third := by
  intro position attachment hget
  rcases h position attachment hget with ⟨middle, hmiddle, htag, hhead⟩
  rcases h' position middle hmiddle with ⟨kept, hkept, htag', hhead'⟩
  exact ⟨kept, hkept, htag'.trans htag, hhead'.trans hhead⟩

theorem keepsHeaders_setBuffer {slot : Slot} {before after : Bytes}
    (hfound : record.buffer? slot = some before)
    (hheader : slot ≠ .base ->
      after.take Layout.headerSize = before.take Layout.headerSize) :
    record.KeepsHeaders (record.setBuffer slot after) := by
  intro position attachment hget
  cases slot with
  | base =>
      exact ⟨attachment, hget, rfl, rfl⟩
  | attached changed =>
      by_cases heq : changed = position
      · subst heq
        have hbytes : attachment.bytes = before := by
          simpa [buffer?, hget] using hfound
        refine ⟨{ attachment with bytes := after }, ?_, rfl, ?_⟩
        · simp [setBuffer, hget]
        · rw [hbytes]
          exact hheader (by simp)
      · exact ⟨attachment, by simp [setBuffer, heq, hget], rfl, rfl⟩

theorem WellFormed.set_keepsHeaders (hbuilt : schema.BuiltFrom declarations aliases)
    (h : record.WellFormed schema) (path value : String) :
    record.KeepsHeaders (record.set path value).record := by
  rcases set_cases record path value with ⟨failure, _, hset⟩ | ⟨steps, hset⟩
  · rw [hset]
    exact KeepsHeaders.refl record
  · rw [hset]
    exact keepsHeaders_setBuffer steps.found (Storing.keeps_header hbuilt h steps)

theorem attach_keepsHeaders {changed : Record} {tag : Tag} {bytes : Bytes}
    (h : record.attach tag bytes = .ok changed) : record.KeepsHeaders changed := by
  rcases attach_eq_ok.mp h with ⟨type, _, _, rfl⟩
  intro position attachment hget
  refine ⟨attachment, ?_, rfl, rfl⟩
  have hlt : position < record.attachments.length := (List.getElem?_eq_some_iff.mp hget).choose
  dsimp only
  rw [List.getElem?_append_left hlt]
  exact hget

theorem WellFormed.apply_keepsHeaders (hbuilt : schema.BuiltFrom declarations aliases)
    (h : record.WellFormed schema) (path value : String) :
    record.KeepsHeaders (record.apply path value).record := by
  rcases apply_cases record path value with hsame | ⟨tag, extended, hattach, happly⟩ | hkept
  · rw [hsame]
    exact h.set_keepsHeaders hbuilt path value
  · rcases exists_attach_of_attachZeroed hattach with ⟨bytes, hattach⟩
    rw [happly]
    exact (attach_keepsHeaders hattach).trans
      ((h.attach hbuilt hattach).set_keepsHeaders hbuilt path value)
  · rw [hkept]
    exact KeepsHeaders.refl record

/-!
## Every run
-/

/-- After any run of operations the base record has its declared size, every attached buffer
has a tag of the schema, the declared size of its extension, and the two in its first eight
bytes; and whatever property is set next, those eight bytes stay. -/
theorem run_keeps_sizes_and_headers
    (hbuild : Schema.build declarations aliases = .ok schema)
    (hsizes : forall type, type ∈ schema.records -> type.size < 2 ^ (32 : Nat))
    (operations : List Operation) :
    let record := (new schema).run operations
    record.base.length = schema.base.size ∧
      (forall attachment, attachment ∈ record.attachments ->
        exists type, schema.extensionTagged? attachment.tag = some type ∧
          attachment.bytes.length = type.size ∧
          attachment.bytes.take 8 =
            Bytes.ofNat 4 attachment.tag.code.toNat ++ Bytes.ofNat 4 type.size ∧
          Bytes.toNat (attachment.bytes.take 4) = attachment.tag.code.toNat ∧
          Bytes.toNat ((attachment.bytes.drop 4).take 4) = type.size) ∧
      forall path value,
        record.KeepsHeaders (record.set path value).record ∧
          record.KeepsHeaders (record.apply path value).record := by
  intro record
  have hbuilt := Schema.builtFrom_of_build hbuild
  have h : record.WellFormed schema := (new_wellFormed schema).run hbuilt operations
  refine ⟨h.base_length, ?_, ?_⟩
  · intro attachment hmem
    have hattachment := h.attached attachment hmem
    rcases hattachment.sized with ⟨type, htype, hlength⟩
    have hheaded := hattachment.headed
    rw [hlength] at hheaded
    have hsize := hsizes type (hbuilt.extensionTagged?_eq_some_iff.mp htype).left
    exact ⟨type, htype, hlength, hheaded, read_header hheaded hsize⟩
  · intro path value
    exact ⟨h.set_keepsHeaders hbuilt path value, h.apply_keepsHeaders hbuilt path value⟩

/-- A run in which a buffer is attached for a property, its header cannot be set, and a
buffer of another size is refused. -/
theorem run_keeps_sizes_and_headers_decoder :
    let record := (new Catalog.implementationDescription).run [
      .apply "mfxDecoderDescription.decoder.CodecID" "HEVC",
      .set "mfxDecoderDescription.BufferSz" "0",
      .attach Catalog.encoderTag [0, 0, 0]]
    record.attachments.length = 1 ∧
      forall attachment, attachment ∈ record.attachments ->
        exists type,
          Catalog.implementationDescription.extensionTagged? attachment.tag = some type ∧
            attachment.bytes.length = type.size ∧
            attachment.bytes.take 8 =
              Bytes.ofNat 4 attachment.tag.code.toNat ++ Bytes.ofNat 4 type.size ∧
            Bytes.toNat (attachment.bytes.take 4) = attachment.tag.code.toNat ∧
            Bytes.toNat ((attachment.bytes.drop 4).take 4) = type.size :=
  ⟨by decide +kernel,
    (run_keeps_sizes_and_headers Catalog.build_implementationDescription
      (by decide +kernel) _).right.left⟩

end Record
end VideoConfig
