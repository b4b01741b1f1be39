import VideoConfig.Proofs.Catalog
import VideoConfig.Proofs.Record.Runs

/-!
# Properties that resolve

A path that resolves leads to elements that lie inside of their buffer in every record that
a run leads to. So all of them are read, and none of them is passed over when a text is
stored. Only a text may be less than the one element it counts as: an array of no bytes.
-/

namespace VideoConfig

/-!
## An empty text

The only field of this base record is an array of no bytes of text, so the record takes no
bytes either.
-/

namespace EmptyText

def declarations : List Declaration :=
  [{ name := "B", role := .base, entries := [.field "T" .char [0] .value] }]

def field : Field :=
  { name := "T", kind := .char, category := .value, offset := 0, size := 1, shape := [0]
    owner := "B" }

def base : RecordType :=
  { name := "B", role := .base, size := 0, align := 1, fields := [field] }

def schema : Schema :=
  { base, records := [base], aliases := [] }

def location : Location :=
  { field, target := .base, offset := 0, stride := 1, count := 1, text := true }

/-- An empty text counts as one element, and that would lie behind the end of the record. -/
theorem element_outside :
    Schema.build declarations [] = .ok schema ∧ resolve schema "T" = .ok location ∧
      schema.bufferType? location.target = some schema.base ∧
      ¬ forall i, i < location.count ->
        location.elementOffset i + location.elementSize ≤ schema.base.size := by
  refine ⟨rfl, ?_, rfl, ?_⟩
  · exact toOption_eq_some.mp (by decide +kernel)
  · intro h
    exact absurd (h 0 (by decide)) (by decide)

end EmptyText

/-!
## Every path
-/

namespace Location

variable {schema : Schema} {declarations : List Declaration}
  {aliases : List (String × String)}

/-- Of every path that resolves the elements are scalars inside of the record type of its
target, at multiples of their size and apart from each other, and in an extension they
stand behind the header or are one of its fields. In every record that a run leads to a
buffer that is found for the path is read in full, and no text that is stored is passed
over in part. -/
theorem resolve_wellPlaced (hbuild : Schema.build declarations aliases = .ok schema)
    {path : String} {location : Location} (hresolve : resolve schema path = .ok location) :
    exists type, schema.bufferType? location.target = some type ∧
      location.WellPlaced type ∧
      (forall tag name size selector,
        location.target = .extension tag name size selector -> size = type.size) ∧
      forall record, Record.Reachable schema record ->
        forall slot, record.negotiate path location = .ok slot ->
          exists buffer values, record.buffer? slot = some buffer ∧
            buffer.length = type.size ∧
            record.get path = .ok values ∧
            values.length = (if location.text then 1 else location.count) ∧
            forall value payload, location.payload value = .ok payload ->
              ¬ location.Skips buffer payload := by
  have hbuilt := Schema.builtFrom_of_build hbuild
  rcases wellPlaced_of_resolve hbuilt hresolve with ⟨type, htype, hplaced, hsize⟩
  refine ⟨type, htype, hplaced, hsize, ?_⟩
  intro record hreachable slot hslot
  have hwellFormed := hreachable.wellFormed hbuilt
  have hresolve' : resolve record.schema path = .ok location := by
    rw [hwellFormed.schema_eq]
    exact hresolve
  rcases hwellFormed.located hbuilt hresolve' hslot with
    ⟨type', buffer, htype', _, hbuffer, hlength⟩
  have hsame : type' = type := Option.some.inj (htype'.symm.trans htype)
  rw [hsame] at hlength
  refine ⟨buffer, location.read buffer, hbuffer, hlength, ?_, ?_, ?_⟩
  · exact Record.get_eq_ok.mpr ⟨location, slot, buffer, hresolve', hslot, hbuffer, rfl⟩
  · exact hplaced.length_read hlength
  · intro value payload hpayload
    exact hplaced.not_skips hlength (suits_of_payload hpayload)

/-- The members of an array of records in an extension that is attached. -/
theorem resolve_wellPlaced_layers :
    let path := "mfxExtVP9TemporalLayers.Layer[].TargetKbps"
    let record := (Record.new Catalog.videoParameters).run [.attachZeroed (Catalog.tag "9TML")]
    exists location type values,
      resolve Catalog.videoParameters path = .ok location ∧ location.count = 8 ∧
      location.WellPlaced type ∧ record.get path = .ok values ∧ values.length = 8 := by
  intro path record
  have hslot : ((resolve Catalog.videoParameters path).toOption.bind fun location =>
      (record.negotiate path location).toOption.map fun slot =>
        (location.count, location.text, slot)) = some (8, false, .attached 0) := by
    decide +kernel
  rcases Option.bind_eq_some_iff.mp hslot with ⟨location, hresolve, hslot⟩
  rcases Option.map_eq_some_iff.mp hslot with ⟨slot, hslot, hfacts⟩
  rw [toOption_eq_some] at hresolve hslot
  rw [Prod.mk.injEq, Prod.mk.injEq] at hfacts
  rcases hfacts with ⟨hcount, htext, _⟩
  rcases resolve_wellPlaced Catalog.build_videoParameters hresolve with
    ⟨type, _, hplaced, _, hrecords⟩
  rcases hrecords record ⟨_, rfl⟩ slot hslot with ⟨_, values, _, _, hget, hlength, _⟩
  refine ⟨location, type, values, hresolve, hcount, hplaced, hget, ?_⟩
  rw [hlength, htext, hcount]
  rfl

end Location
end VideoConfig
