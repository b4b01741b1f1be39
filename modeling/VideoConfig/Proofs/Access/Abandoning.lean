import VideoConfig.Proofs.Access.Negotiation
import VideoConfig.Proofs.Location.Outcome

/-!
# Access that is abandoned

Every access to a property ends in a result or in an error that is told, but for two causes.
Nothing can be told over a path that opens one of its parts with a character outside ASCII
where a name has to stand, or that opens with a short name for such a path. And a code of four
characters has no place in a field for codes whose elements take another number of bytes.
-/

namespace VideoConfig

variable {schema : Schema} {declarations : List Declaration}
  {aliases : List (String × String)}

namespace Location

/-!
## Codes that have no place

A text cannot be written exactly where it gives such a code.
-/

/-- Whether a text gives a code of four characters to an element that takes another number of
bytes. -/
structure MisplacesCode (location : Location) (value : String) : Prop where
  category : location.field.category = .fourCC
  size : location.elementSize ≠ 4
  written : exists values code, location.payload value = .ok (.elements values) ∧
    Value.u32 code ∈ values.take location.count

def Oversteps (location : Location) (value : Value) : Prop :=
  exists bytes, value.encode? = some bytes ∧ bytes.length ≠ location.elementSize

section

variable {location : Location} {type : RecordType}

theorem WellPlaced.writeElement?_eq_none (h : location.WellPlaced type)
    (htext : location.text = false) {buffer : Bytes} (hlength : buffer.length = type.size)
    {i : Nat} (hi : i < location.count) {value : Value} :
    location.writeElement? buffer i value = none <-> location.Oversteps value := by
  have hinside := h.inside_of_element htext hlength hi
  unfold writeElement? Oversteps
  dsimp only
  cases value.encode? with
  | none =>
      simp
  | some bytes =>
      simp [hinside]

theorem WellPlaced.writeElements?_eq_none (h : location.WellPlaced type)
    (htext : location.text = false) {buffer : Bytes} (hlength : buffer.length = type.size)
    {i : Nat} {values : List Value} (hfits : i + values.length ≤ location.count) :
    location.writeElements? buffer i values = none <->
      exists value, value ∈ values ∧ location.Oversteps value := by
  induction values generalizing buffer i with
  | nil =>
      simp [writeElements?]
  | cons value rest ih =>
      rw [List.length_cons] at hfits
      have hfirst : location.writeElement? buffer i value = none <-> location.Oversteps value :=
        h.writeElement?_eq_none htext hlength (by omega)
      unfold writeElements?
      cases hwrite : location.writeElement? buffer i value with
      | none =>
          rw [hwrite] at hfirst
          exact iff_of_true rfl ⟨value, List.mem_cons_self, hfirst.mp rfl⟩
      | some after =>
          have hlength' : after.length = type.size :=
            (writeElement?_frame hwrite).left.trans hlength
          have hfits' : ¬ location.Oversteps value := by
            rw [← hfirst, hwrite]
            simp
          have hrest := ih hlength' (i := i + 1) (by omega)
          simp only [Option.bind_eq_bind, Option.bind_some, hrest, List.mem_cons,
            exists_eq_or_imp, hfits', false_or]

theorem WellPlaced.write?_eq_none (h : location.WellPlaced type) {buffer : Bytes}
    (hlength : buffer.length = type.size) {value : String} :
    (exists payload, location.payload value = .ok payload ∧
      location.write? buffer payload = none) <-> location.MisplacesCode value := by
  rcases h.scalar with ⟨scalar, hkind, hsize⟩
  have hcode : forall code : BitVec 32, exists bytes,
      (Value.u32 code).encode? = some bytes ∧ bytes.length = 4 := by
    intro code
    rcases Value.encode?_of_isScalar (Value.isScalar_int ⟨false, .w32⟩ code) with
      ⟨bytes, hencode, hbytes, _⟩
    exact ⟨bytes, hencode, hbytes⟩
  have hwrite : forall values, location.payload value = .ok (.elements values) ->
      (location.write? buffer (.elements values) = none <->
        exists one, one ∈ values.take location.count ∧ location.Oversteps one) := by
    intro values hpayload
    refine h.writeElements?_eq_none (suits_of_payload hpayload) hlength ?_
    rw [List.length_take]
    omega
  constructor
  · rintro ⟨payload, hpayload, hnone⟩
    cases payload with
    | text bytes =>
        cases hnone
    | elements values =>
        rcases (hwrite values hpayload).mp hnone with ⟨one, hone, bytes, hencode, hbytes⟩
        rcases exists_chars_of_payload hpayload one (List.mem_of_mem_take hone) with
          ⟨chars, hchars⟩
        have hkind' : location.field.kind = .scalar scalar := hkind
        rw [hkind'] at hchars
        rcases Coercion.isScalar_or_code_of_valueOfChars hchars with
          hscalar | ⟨hcategory, code, rfl⟩
        · rcases Value.encode?_of_isScalar hscalar with ⟨bytes', hencode', hbytes', _⟩
          cases hencode.symm.trans hencode'
          exact absurd (hbytes'.trans hsize.symm) hbytes
        · rcases hcode code with ⟨bytes', hencode', hbytes'⟩
          cases hencode.symm.trans hencode'
          exact ⟨hcategory, hbytes' ▸ hbytes.symm, values, code, hpayload, hone⟩
  · rintro ⟨_, hsize', values, code, hpayload, hmem⟩
    rcases hcode code with ⟨bytes, hencode, hbytes⟩
    refine ⟨.elements values, hpayload, (hwrite values hpayload).mpr ?_⟩
    exact ⟨_, hmem, bytes, hencode, hbytes ▸ hsize'.symm⟩

end

end Location

namespace Record

variable {record : Record}

/-!
## Records that are accessed

A path may lead behind an extension of which the buffer is not attached yet. Where no buffer
is missing, no more are asked for, and a text is applied once.
-/

/-- Whether a record has a buffer for a target, or has one as soon as a number of buffers more
are attached. -/
def HasRoom (record : Record) (more : Nat) : Target -> Prop
  | .base => True
  | .extension tag _ _ selector => selector.getD 0 < record.instanceCount tag + more

/-- Whether a text gives a code that has no place, in a buffer that a record has or has as soon
as a number of buffers more are attached. -/
def Misplaces (record : Record) (more : Nat) (path value : String) : Prop :=
  exists location, resolve record.schema path = .ok location ∧ location.isHeader = false ∧
    record.HasRoom more location.target ∧ location.MisplacesCode value

theorem hasRoom_iff (path : String) (location : Location) :
    record.HasRoom 0 location.target <->
      exists slot, record.negotiate path location = .ok slot := by
  cases htarget : location.target with
  | base =>
      exact iff_of_true trivial ⟨.base, negotiate_base record path htarget⟩
  | extension tag name size selector =>
      exact (exists_negotiate_iff path htarget).symm

theorem HasRoom.mono {more : Nat} {target : Target} (h : record.HasRoom 0 target) :
    record.HasRoom more target := by
  cases target with
  | base =>
      trivial
  | extension tag name size selector =>
      exact Nat.lt_of_lt_of_le h (Nat.le_add_right _ more)

theorem hasRoom_extended {tag : Tag} {name : String} {size needed more : Nat}
    {selector : Option Nat} :
    (record.extended tag size more).HasRoom 0 (.extension tag name needed selector) <->
      record.HasRoom more (.extension tag name needed selector) := by
  dsimp only [HasRoom]
  rw [instanceCount_extended]
  exact Iff.rfl

theorem get_eq_abandoned (hschema : record.schema = schema) {path : String} :
    record.get path = .error .abandoned <-> Location.Untold schema path := by
  rw [← Location.resolve_eq_abandoned, ← hschema]
  constructor
  · intro h
    rcases bind_eq_error.mp h with hresolve | ⟨location, _, h⟩
    · exact hresolve
    · rcases bind_eq_error.mp h with hnegotiate | ⟨slot, _, h⟩
      · exact absurd hnegotiate (mapError_refused_ne_abandoned _)
      · split at h <;> cases h
  · intro h
    exact bind_eq_error.mpr (Or.inl h)

theorem set_result (record : Record) (path value : String) :
    (record.set path value).result = (record.stored path value).map fun _ => () := by
  unfold set
  cases record.stored path value <;> rfl

theorem WellFormed.set_eq_abandoned (hbuilt : schema.BuiltFrom declarations aliases)
    (h : record.WellFormed schema) {path value : String} :
    (record.set path value).result = .error .abandoned <->
      Location.Untold schema path ∨ record.Misplaces 0 path value := by
  have hstored : (record.set path value).result = .error .abandoned <->
      record.stored path value = .error .abandoned := by
    rw [set_result]
    cases record.stored path value <;> simp [Except.map]
  rw [hstored, stored_eq_abandoned, ← Location.resolve_eq_abandoned, ← h.schema_eq]
  refine or_congr Iff.rfl ?_
  constructor
  · rintro ⟨location, slot, payload, buffer, hresolve, hbody, hnegotiate, hpayload, hbuffer,
      hwrite⟩
    rcases h.located hbuilt hresolve hnegotiate with ⟨type, found, _, hplaced, hfound, hlength⟩
    cases hfound.symm.trans hbuffer
    exact ⟨location, hresolve, hbody, (hasRoom_iff path location).mpr ⟨slot, hnegotiate⟩,
      (hplaced.write?_eq_none hlength).mp ⟨payload, hpayload, hwrite⟩⟩
  · rintro ⟨location, hresolve, hbody, hroom, hmisplaced⟩
    rcases (hasRoom_iff path location).mp hroom with ⟨slot, hnegotiate⟩
    rcases h.located hbuilt hresolve hnegotiate with ⟨type, buffer, _, hplaced, hbuffer, hlength⟩
    rcases (hplaced.write?_eq_none hlength).mpr hmisplaced with ⟨payload, hpayload, hwrite⟩
    exact ⟨location, slot, payload, buffer, hresolve, hbody, hnegotiate, hpayload, hbuffer,
      hwrite⟩

theorem set_ne_missing {path value : String} {location : Location} {slot : Slot}
    (hresolve : resolve record.schema path = .ok location)
    (hnegotiate : record.negotiate path location = .ok slot) (path' : String) (tag : Tag)
    (size : Nat) : (record.set path value).result ≠ missing path' tag size := by
  intro hmissing
  have hstored : record.stored path value = missing path' tag size := by
    rw [set_result] at hmissing
    cases hstored : record.stored path value with
    | ok changed =>
        rw [hstored] at hmissing
        cases hmissing
    | error failure =>
        rw [hstored] at hmissing
        cases hmissing
        rfl
  rcases bind_eq_error.mp hstored with hfailed | ⟨found, hfound, h⟩
  · cases hresolve.symm.trans hfailed
  · cases hresolve.symm.trans hfound
    dsimp only at h
    split at h
    · cases h
    · rcases bind_eq_error.mp h with hfailed | ⟨slot', _, h⟩
      · rw [hnegotiate] at hfailed
        cases hfailed
      · rcases bind_eq_error.mp h with hfailed | ⟨payload, _, h⟩
        · rcases mapError_eq_error.mp hfailed with ⟨cause, _, heq⟩
          cases heq
        · split at h
          · cases h
          · split at h <;> cases h

def LeadsBehind (record : Record) (path : String) : Prop :=
  exists tag size index, LeadsInto record.schema path tag size index ∧
    record.instanceCount tag ≤ index

theorem hasRoom_of_not_leadsBehind {path : String} (h : ¬ record.LeadsBehind path)
    {location : Location} (hresolve : resolve record.schema path = .ok location)
    (hbody : location.isHeader = false) : record.HasRoom 0 location.target := by
  cases htarget : location.target with
  | base =>
      trivial
  | extension tag name size selector =>
      by_contra hroom
      exact h ⟨tag, size, selector.getD 0,
        ⟨location, name, selector, hresolve, htarget, hbody, rfl⟩, Nat.le_of_not_lt hroom⟩

theorem apply_of_not_leadsBehind {path : String} (h : ¬ record.LeadsBehind path)
    (value : String) : record.apply path value = record.set path value := by
  refine apply_of_not_missing ?_
  cases hresolve : resolve record.schema path with
  | error failure =>
      exact (set_unfound (Or.inl ⟨failure, hresolve⟩)).ne_missing
  | ok location =>
      cases hbody : location.isHeader with
      | true =>
          exact (set_unfound (Or.inr ⟨location, hresolve, hbody⟩)).ne_missing
      | false =>
          have hroom := hasRoom_of_not_leadsBehind h hresolve hbody
          rcases (hasRoom_iff path location).mp hroom with ⟨slot, hnegotiate⟩
          exact set_ne_missing hresolve hnegotiate

theorem WellFormed.apply_eq_abandoned (hbuilt : schema.BuiltFrom declarations aliases)
    (h : record.WellFormed schema) {path value : String} :
    (record.apply path value).result = .error .abandoned <->
      Location.Untold schema path ∨ record.Misplaces 1 path value := by
  by_cases hbehind : record.LeadsBehind path
  · rcases hbehind with ⟨tag, size, index, hleads, hle⟩
    rw [h.schema_eq] at hleads
    rcases hleads.declared hbuilt with ⟨type, htype, rfl⟩
    rw [(h.missing_of_le hbuilt hleads hle value).right.right,
      (h.extended hbuilt htype).set_eq_abandoned hbuilt]
    refine or_congr Iff.rfl ?_
    -- The path leads to one location, and there the buffer that is attached counts.
    rcases hleads with ⟨location, name, selector, hresolve, htarget, hbody, rfl⟩
    rw [← h.schema_eq] at hresolve
    constructor
    · rintro ⟨found, hfound, _, hroom, hmisplaced⟩
      have hsame : found = location := Except.ok.inj (hfound.symm.trans hresolve)
      subst hsame
      rw [htarget, hasRoom_extended, ← htarget] at hroom
      exact ⟨found, hresolve, hbody, hroom, hmisplaced⟩
    · rintro ⟨found, hfound, _, hroom, hmisplaced⟩
      have hsame : found = location := Except.ok.inj (hfound.symm.trans hresolve)
      subst hsame
      rw [htarget, ← hasRoom_extended, ← htarget] at hroom
      exact ⟨found, hresolve, hbody, hroom, hmisplaced⟩
  · rw [apply_of_not_leadsBehind hbehind, h.set_eq_abandoned hbuilt]
    refine or_congr Iff.rfl ?_
    constructor
    · rintro ⟨location, hresolve, hbody, hroom, hmisplaced⟩
      exact ⟨location, hresolve, hbody, hroom.mono, hmisplaced⟩
    · rintro ⟨location, hresolve, hbody, _, hmisplaced⟩
      exact ⟨location, hresolve, hbody, hasRoom_of_not_leadsBehind hbehind hresolve hbody,
        hmisplaced⟩

end Record
end VideoConfig
