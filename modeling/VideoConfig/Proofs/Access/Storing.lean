import VideoConfig.Proofs.Attempt
import VideoConfig.Proofs.Record.Buffers

/-!
# Steps of storing a text

A text is stored in a property in steps, and each of them has to succeed: the path is
resolved, it does not lead to the header of an extension, a buffer is found for it, the text
is read as a payload, and the payload is written to the buffer. Where more buffers are
needed, applying a text makes the change to the record with a zeroed buffer attached.
-/

namespace VideoConfig

structure Storing (record : Record) (path value : String) where
  location : Location
  slot : Slot
  payload : Payload
  before : Bytes
  after : Bytes
  resolved : resolve record.schema path = .ok location
  body : location.isHeader = false
  negotiated : record.negotiate path location = .ok slot
  coerced : location.payload value = .ok payload
  found : record.buffer? slot = some before
  written : location.write? before payload = some after

def Storing.result {record : Record} {path value : String}
    (steps : Storing record path value) : Record :=
  record.setBuffer steps.slot steps.after

namespace Record

theorem stored_eq_ok {record changed : Record} {path value : String} :
    record.stored path value = .ok changed <->
      exists steps : Storing record path value, steps.result = changed := by
  constructor
  · intro h
    rcases bind_eq_ok.mp h with ⟨location, hresolved, h⟩
    dsimp only at h
    split at h
    · cases h
    · next hbody =>
        rcases bind_eq_ok.mp h with ⟨slot, hnegotiated, h⟩
        rcases bind_eq_ok.mp h with ⟨payload, hcoerced, h⟩
        split at h
        · cases h
        · next before hfound =>
            split at h
            · next after hwritten =>
                exact ⟨{
                  location, slot, payload, before, after
                  resolved := hresolved
                  body := by simpa using hbody
                  negotiated := mapError_eq_ok.mp hnegotiated
                  coerced := mapError_eq_ok.mp hcoerced
                  found := hfound
                  written := hwritten }, pure_eq_ok.mp h⟩
            · cases h
  · rintro ⟨steps, rfl⟩
    refine bind_eq_ok.mpr ⟨steps.location, steps.resolved, ?_⟩
    dsimp only
    rw [if_neg (by simp [steps.body])]
    refine bind_eq_ok.mpr ⟨steps.slot, mapError_eq_ok.mpr steps.negotiated, ?_⟩
    refine bind_eq_ok.mpr ⟨steps.payload, mapError_eq_ok.mpr steps.coerced, ?_⟩
    rw [steps.found]
    dsimp only
    rw [steps.written]
    rfl

theorem stored_eq_abandoned {record : Record} {path value : String} :
    record.stored path value = .error .abandoned <->
      resolve record.schema path = .error .abandoned ∨
        exists location slot payload buffer, resolve record.schema path = .ok location ∧
          location.isHeader = false ∧ record.negotiate path location = .ok slot ∧
          location.payload value = .ok payload ∧ record.buffer? slot = some buffer ∧
          location.write? buffer payload = none := by
  constructor
  · intro h
    rcases bind_eq_error.mp h with hresolved | ⟨location, hresolved, h⟩
    · exact Or.inl hresolved
    · dsimp only at h
      split at h
      · cases h
      · next hbody =>
          rcases bind_eq_error.mp h with hfailed | ⟨slot, hnegotiated, h⟩
          · exact absurd hfailed (mapError_refused_ne_abandoned _)
          · rcases bind_eq_error.mp h with hfailed | ⟨payload, hcoerced, h⟩
            · rcases mapError_eq_error.mp hfailed with ⟨error, _, hcause⟩
              cases hcause
            · split at h
              · cases h
              · next buffer hfound =>
                  split at h
                  · cases h
                  · next hwritten =>
                      exact Or.inr ⟨location, slot, payload, buffer, hresolved,
                        by simpa using hbody, mapError_eq_ok.mp hnegotiated,
                        mapError_eq_ok.mp hcoerced, hfound, hwritten⟩
  · rintro (hresolved |
      ⟨location, slot, payload, buffer, hresolved, hbody, hnegotiated, hcoerced, hfound,
        hwritten⟩)
    · exact bind_eq_error.mpr (Or.inl hresolved)
    · refine bind_eq_error.mpr (Or.inr ⟨location, hresolved, ?_⟩)
      dsimp only
      rw [if_neg (by simp [hbody])]
      refine bind_eq_error.mpr (Or.inr ⟨slot, mapError_eq_ok.mpr hnegotiated, ?_⟩)
      refine bind_eq_error.mpr (Or.inr ⟨payload, mapError_eq_ok.mpr hcoerced, ?_⟩)
      rw [hfound]
      dsimp only
      rw [hwritten]
      rfl

/-- A change to a property either fails and leaves the record as it was, or all steps
succeed. -/
theorem set_cases (record : Record) (path value : String) :
    (exists failure, record.stored path value = .error failure ∧
        record.set path value = { record, result := .error failure }) ∨
      exists steps : Storing record path value,
        record.set path value = { record := steps.result, result := .ok () } := by
  unfold set
  cases hstored : record.stored path value with
  | error failure =>
      exact Or.inl ⟨failure, rfl, rfl⟩
  | ok changed =>
      rcases stored_eq_ok.mp hstored with ⟨steps, rfl⟩
      exact Or.inr ⟨steps, rfl⟩

theorem set_eq_ok {record changed : Record} {path text : String} :
    record.stored path text = .ok changed <->
      record.set path text = { record := changed, result := .ok () } := by
  unfold set
  cases record.stored path text <;> simp

theorem apply_cases (record : Record) (path value : String) :
    record.apply path value = record.set path value ∨
      (exists tag extended, record.attachZeroed tag = .ok extended ∧
        record.apply path value = extended.set path value) ∨
      (record.apply path value).record = record := by
  rcases set_cases record path value with ⟨failure, _, hset⟩ | ⟨steps, hset⟩
  · unfold apply
    rw [hset]
    dsimp only
    split
    · next tag size _ =>
        cases hattach : record.attachZeroed tag with
        | ok extended =>
            exact Or.inr (Or.inl ⟨tag, extended, hattach, rfl⟩)
        | error error =>
            exact Or.inr (Or.inr rfl)
    · exact Or.inl rfl
  · unfold apply
    rw [hset]
    exact Or.inl rfl

theorem get_eq_ok {record : Record} {path : String} {values : List Value} :
    record.get path = .ok values <->
      exists location slot buffer, resolve record.schema path = .ok location ∧
        record.negotiate path location = .ok slot ∧ record.buffer? slot = some buffer ∧
        location.read buffer = values := by
  constructor
  · intro h
    rcases bind_eq_ok.mp h with ⟨location, hresolved, h⟩
    rcases bind_eq_ok.mp h with ⟨slot, hnegotiated, h⟩
    split at h
    · cases h
    · next buffer hfound =>
        exact ⟨location, slot, buffer, hresolved, mapError_eq_ok.mp hnegotiated, hfound,
          pure_eq_ok.mp h⟩
  · rintro ⟨location, slot, buffer, hresolved, hnegotiated, hfound, rfl⟩
    refine bind_eq_ok.mpr ⟨location, hresolved, ?_⟩
    refine bind_eq_ok.mpr ⟨slot, mapError_eq_ok.mpr hnegotiated, ?_⟩
    rw [hfound]
    rfl

theorem get_of_negotiate_error {record : Record} {path : String} {location : Location}
    {error : AccessError} (hresolved : resolve record.schema path = .ok location)
    (h : record.negotiate path location = .error error) :
    record.get path = .error (.refused error) := by
  unfold get
  rw [hresolved]
  change (record.negotiate path location).mapError _ >>= _ = _
  rw [h]
  rfl

end Record
end VideoConfig
