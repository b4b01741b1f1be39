import VideoConfig.Proofs.Access.Payload
import VideoConfig.Proofs.Catalog

/-!
# Buffers of any length

Buffers of a record are as long as their record types, but locations are read and written in
other buffers as well. Where a buffer ends early the first elements lie inside of it and the
others are passed over: the first values are written to the first elements, and a text is
written as a whole or not at all.
-/

namespace VideoConfig
namespace Location

variable {location : Location} {type : RecordType}

/-- What a buffer is after values are written to the elements that lie inside of it. A whole
text among the values is written to no element. -/
structure WritesElements (location : Location) (buffer : Bytes) (values : List Value)
    (new : Bytes) : Prop where
  written : location.write? buffer (.elements values) = some new
  length : new.length = buffer.length
  reads : location.read new = Value.writtenOverAll values (location.read buffer)
  replaced : (forall contents, .text contents ∉ values) ->
    location.read new =
      values.take (location.fitting buffer) ++ (location.read buffer).drop values.length
  frame : forall k,
    (forall i, i < min (location.fitting buffer) values.length -> location.Beside i k) ->
      new[k]? = buffer[k]?

structure WritesText (location : Location) (buffer bytes new : Bytes) : Prop where
  written : location.write? buffer (.text bytes) = some new
  length : new.length = buffer.length
  replaced : location.offset + location.capacity ≤ buffer.length ->
    new.slice? location.offset location.capacity = some bytes
  frame : forall k, k < location.offset ∨ location.offset + location.capacity ≤ k ->
    new[k]? = buffer[k]?
  kept : buffer.length < location.offset + location.capacity -> new = buffer

theorem WellPlaced.exists_writesElements (h : location.WellPlaced type)
    (htext : location.text = false) (buffer : Bytes) {values : List Value}
    (hvalues : forall value, value ∈ values -> location.kind = .scalar value.scalar) :
    exists new, location.WritesElements buffer values new := by
  rcases h.write?_over htext buffer hvalues with ⟨new, hwrite, hread⟩
  rcases writeElements?_frame hwrite with ⟨hlength, hframe⟩
  refine ⟨new, ⟨hwrite, hlength, hread, ?_, ?_⟩⟩
  · intro hscalars
    rcases h.scalar with ⟨scalar, hkind, _⟩
    have hscalar : forall value, value ∈ values -> value.IsScalar scalar := by
      intro value hvalue
      refine ⟨(Kind.scalar.inj (hkind.symm.trans (hvalues value hvalue))).symm, ?_⟩
      rintro contents rfl
      exact hscalars contents hvalue
    rw [hread, Value.writtenOverAll_of_isScalar hscalar, (h.read_fitting htext buffer).left]
  · intro k hk
    refine hframe k ?_
    intro i _ hi hinside
    rw [List.length_take] at hi
    have hfits := (inside_iff_lt_fitting (by omega)).mp hinside
    exact hk i (by omega)

theorem exists_writesText (buffer : Bytes) {bytes : Bytes}
    (hbytes : bytes.length = location.capacity) :
    exists new, location.WritesText buffer bytes new := by
  refine ⟨buffer.overwrite location.offset bytes, ⟨rfl, Bytes.length_overwrite _ _ _, ?_, ?_, ?_⟩⟩
  · intro hfits
    rw [← hbytes] at hfits ⊢
    exact Bytes.slice?_overwrite_same hfits
  · intro k hk
    rw [← hbytes] at hk
    exact Bytes.getElem?_overwrite_of_outside hk
  · intro hshort
    unfold Bytes.overwrite
    rw [if_neg (by omega)]

variable {schema : Schema} {declarations : List Declaration}
  {aliases : List (String × String)}

/-- Whatever path resolves and however long a buffer is, the elements of the location that lie
inside of the buffer are the first ones, and exactly these are read and written: values of
their kind are written to the first of them, and no other byte changes. A text is written as a
whole, or nothing changes. -/
theorem fitting_elements_written (hbuild : Schema.build declarations aliases = .ok schema)
    {path : String} (hresolve : resolve schema path = .ok location) (buffer : Bytes) :
    (forall i, i < location.count ->
      (location.Inside buffer i <-> i < location.fitting buffer)) ∧
      (location.text = false -> (location.read buffer).length = location.fitting buffer) ∧
      (location.text = false -> forall values,
        (forall value, value ∈ values -> location.kind = .scalar value.scalar) ->
          exists new, location.WritesElements buffer values new) ∧
      (location.text = true -> forall bytes, bytes.length = location.capacity ->
        exists new, location.WritesText buffer bytes new) := by
  have hbuilt := Schema.builtFrom_of_build hbuild
  rcases wellPlaced_of_resolve hbuilt hresolve with ⟨type, _, hplaced, _⟩
  refine ⟨fun i hi => inside_iff_lt_fitting hi, ?_, ?_, ?_⟩
  · intro htext
    exact (hplaced.read_fitting htext buffer).left
  · intro htext values hvalues
    exact hplaced.exists_writesElements htext buffer hvalues
  · intro _ bytes hbytes
    exact exists_writesText buffer hbytes

/-- Five values for an array of records in a buffer that ends behind the third of them. -/
theorem fitting_elements_written_layers :
    let path := "mfxExtVP9TemporalLayers.Layer[].TargetKbps"
    let values : List Value := [1, 2, 3, 4, 5].map fun n => .int ⟨false, .w16⟩ n
    exists location new, resolve Catalog.videoParameters path = .ok location ∧
      location.count = 8 ∧ location.fitting (Bytes.zeros 76) = 3 ∧
      location.WritesElements (Bytes.zeros 76) values new ∧ location.read new = values.take 3 := by
  intro path values
  have hfacts : (resolve Catalog.videoParameters path).toOption.map (fun location =>
      (location.kind, location.count, location.text, location.fitting (Bytes.zeros 76),
        (location.read (Bytes.zeros 76)).length)) =
      some (Kind.u16, 8, false, 3, 3) := by
    decide +kernel
  rcases Option.map_eq_some_iff.mp hfacts with ⟨location, hresolve, hfacts⟩
  simp only [Prod.mk.injEq] at hfacts
  rcases hfacts with ⟨hkind, hcount, htext, hfitting, hread⟩
  rcases fitting_elements_written Catalog.build_videoParameters (toOption_eq_some.mp hresolve)
    (Bytes.zeros 76) with ⟨_, _, hwrites, _⟩
  have hvalues : forall value, value ∈ values -> location.kind = .scalar value.scalar := by
    rw [hkind]
    decide
  rcases hwrites htext values hvalues with ⟨new, hnew⟩
  refine ⟨location, new, toOption_eq_some.mp hresolve, hcount, hfitting, hnew, ?_⟩
  rw [hnew.replaced (by simp [values]), hfitting, List.drop_of_length_le, List.append_nil]
  rw [hread]
  decide

end Location

/-!
## A text among bytes of text
-/

namespace TextElement

def declarations : List Declaration := [
  { name := "B", role := .base, entries := [.field "T" .char [] .value] }]

def schema : Schema :=
  (Schema.build declarations []).toOption.getD Catalog.emptySchema

/-- A whole text has the kind of a byte of text, and it is not written to one. -/
theorem text_not_written :
    Schema.build declarations [] = .ok schema ∧
      exists location, resolve schema "T" = .ok location ∧ location.text = false ∧
        location.kind = .scalar (Value.text "B").scalar ∧ location.fitting [0x41] = 1 ∧
        ¬ exists new, location.write? [0x41] (.elements [.text "B"]) = some new ∧
          location.read new = [.text "B"] := by
  have hfacts : (resolve schema "T").toOption.map (fun location =>
      (location.text, location.kind, location.fitting [0x41])) = some (false, Kind.char, 1) := by
    decide +kernel
  have hbytes : (resolve schema "T").toOption.map (fun location =>
      (location.write? [0x41] (.elements [.text "B"]), location.read [0x41])) =
      some (some [0x41], [Value.char 0x41]) := by
    decide +kernel
  rcases Option.map_eq_some_iff.mp hfacts with ⟨location, hresolve, hfacts⟩
  rw [hresolve, Option.map_some, Option.some.injEq, Prod.mk.injEq] at hbytes
  rw [Prod.mk.injEq, Prod.mk.injEq] at hfacts
  rcases hfacts with ⟨htext, hkind, hfitting⟩
  refine ⟨Catalog.build_eq_ok (by decide +kernel), location, toOption_eq_some.mp hresolve, htext,
    hkind, hfitting, ?_⟩
  rintro ⟨new, hnew, hread⟩
  rw [hbytes.left] at hnew
  cases hnew
  rw [hbytes.right] at hread
  cases hread

end TextElement
end VideoConfig
