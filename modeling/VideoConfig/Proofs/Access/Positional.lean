import VideoConfig.Proofs.Access.Negotiation
import VideoConfig.Proofs.Coercion.Lists

/-!
# Positional writes of whole arrays

A text of values with commas between them is stored value by value from the first element on.
Elements behind the last value keep what they hold, and values behind the last element are not
stored. A single element is no list: it takes the whole text as its value, commas and all.
-/

namespace VideoConfig

/-!
## Texts with commas

Values with commas between them make a payload of these values, as long as there is not a
single element for several of them.
-/

namespace Location

variable {location : Location} {tokens : List String} {values : List Value}

theorem payload_commas (htext : location.text = false) (hne : tokens ≠ [])
    (hlength : location.count = 1 -> tokens.length = 1)
    (hcommas : forall token, token ∈ tokens -> ',' ∉ token.toList)
    (hvalues : List.Forall₂ (fun token value =>
      coerceValue token location.field.kind location.field.category = .ok value) tokens values) :
    location.payload (String.intercalate "," tokens) = .ok (.elements values) := by
  by_cases hcount : location.count = 1
  · rcases List.length_eq_one_iff.mp (hlength hcount) with ⟨token, rfl⟩
    rcases List.forall₂_cons_left_iff.mp hvalues with ⟨value, rest, hvalue, hrest, rfl⟩
    cases hrest
    exact (payload_value htext hcount).mpr ⟨value, hvalue, rfl⟩
  · refine (payload_list htext hcount).mpr ⟨values, ?_, rfl⟩
    rw [coerceList_commas hne hcommas]
    exact mapM_eq_ok_iff.mpr hvalues

end Location

/-!
## Values stored from the first element on
-/

namespace Record

variable {schema : Schema} {declarations : List Declaration}
  {aliases : List (String × String)} {record : Record} {path : String} {location : Location}
  {slot : Slot}

/-- What setting a text comes to if it stores values from the first element on: the elements
that have a value take it, the others keep what they hold, and nothing else changes. -/
structure SetsValues (record : Record) (path text : String) (location : Location) (slot : Slot)
    (values : List Value) : Prop where
  succeeds : (record.set path text).result = .ok ()
  updates : Updates record (record.set path text).record path text location slot
    (.elements values)
  reads : exists old, record.get path = .ok old ∧ old.length = location.count ∧
    (record.set path text).record.get path =
      .ok (values.take location.count ++ old.drop values.length)

theorem WellFormed.setsValues (hbuilt : schema.BuiltFrom declarations aliases)
    (hcodes : schema.CodesFit) (h : record.WellFormed schema) {text : String}
    (hresolve : resolve record.schema path = .ok location) (hbody : location.isHeader = false)
    (hslot : record.negotiate path location = .ok slot) {values : List Value}
    (hpayload : location.payload text = .ok (.elements values)) :
    SetsValues record path text location slot values := by
  rcases h.exists_storing hbuilt hcodes hresolve hbody hslot hpayload with ⟨steps, rfl⟩
  have hslot' : steps.slot = slot := Except.ok.inj (steps.negotiated.symm.trans hslot)
  have hpayload' : steps.payload = .elements values :=
    Except.ok.inj (steps.coerced.symm.trans hpayload)
  have hset := set_eq_ok.mp (stored_eq_ok.mpr ⟨steps, rfl⟩)
  have hupdates := h.updates hbuilt hcodes steps
  rw [hslot', hpayload'] at hupdates
  rcases hupdates.reads with ⟨old, hold, hnew⟩
  have hcount : old.length = steps.location.count := by
    rcases h.located hbuilt hresolve hslot with ⟨type, buffer, _, hplaced, hbuffer, hlength⟩
    rw [get_eq_ok.mpr ⟨_, _, _, hresolve, hslot, hbuffer, rfl⟩, Except.ok.injEq] at hold
    rw [← hold]
    exact (hplaced.read_elements (Location.suits_of_payload hpayload) hlength).left
  refine ⟨by rw [hset], by rwa [hset], old, hold, hcount, ?_⟩
  rw [hset]
  dsimp only
  rw [hnew, Location.updated_elements hcount]

/-- Values with commas between them are stored from the first element on in every property of a
record that a run leads to, as long as it has not a single element. A single element takes a
text with commas only for a code of four characters, and refuses it otherwise. -/
theorem set_commas (hbuild : Schema.build declarations aliases = .ok schema)
    (hcodes : schema.CodesFit) (hreachable : Reachable schema record)
    (hresolve : resolve schema path = .ok location) (htext : location.text = false)
    (hbody : location.isHeader = false) (hslot : record.negotiate path location = .ok slot)
    {tokens : List String} {values : List Value} (hne : tokens ≠ [])
    (hcommas : forall token, token ∈ tokens -> ',' ∉ token.toList)
    (hvalues : List.Forall₂ (fun token value =>
      coerceValue token location.field.kind location.field.category = .ok value) tokens values) :
    let text := String.intercalate "," tokens
    (location.count ≠ 1 ∨ tokens.length = 1 ->
      SetsValues record path text location slot values) ∧
      (location.count = 1 -> 1 < tokens.length ->
        (forall code, location.field.category = .fourCC ->
          Coercion.code? text.toList = some code ->
            SetsValues record path text location slot [.u32 code]) ∧
        (¬ Coercion.IsCode text.toList location.field.category ->
          exists cause, record.set path text =
            { record, result := .error (.refused (.unsupported path text cause)) })) := by
  intro text
  have hbuilt := Schema.builtFrom_of_build hbuild
  have h := hreachable.wellFormed hbuilt
  rw [← h.schema_eq] at hresolve
  constructor
  · intro hfits
    refine h.setsValues hbuilt hcodes hresolve hbody hslot
      (Location.payload_commas htext hne ?_ hcommas hvalues)
    intro hone
    exact hfits.resolve_left (fun hother => hother hone)
  · intro hone hseveral
    constructor
    · intro code hcategory hcode
      refine h.setsValues hbuilt hcodes hresolve hbody hslot
        ((Location.payload_value htext hone).mpr ⟨_, ?_, rfl⟩)
      rw [hcategory]
      exact Coercion.valueOfChars_of_code hcode _
    · intro hcode
      rcases h.located hbuilt hresolve hslot with ⟨type, _, _, hplaced, _, _⟩
      rcases hplaced.scalar with ⟨scalar, hkind, _⟩
      have hkind' : location.field.kind = .scalar scalar := hkind
      rw [hkind'] at hvalues
      rcases coerceValue_commas hseveral hcommas hvalues hcode with ⟨cause, hcause⟩
      rw [← hkind'] at hcause
      refine ⟨cause, set_of_payload_error hresolve hbody hslot ?_⟩
      rw [Location.payload, htext, hone]
      change (coerceValue text location.field.kind location.field.category).map _ = _
      rw [hcause]
      rfl

/-- Two values for the eight members of an array of records in an extension. -/
theorem set_commas_layers :
    let path := "mfxExtVP9TemporalLayers.Layer[].TargetKbps"
    let record := (new Catalog.videoParameters).run [.attachZeroed (Catalog.tag "9TML")]
    exists location, resolve Catalog.videoParameters path = .ok location ∧ location.count = 8 ∧
      SetsValues record path (String.intercalate "," ["300", " 500"]) location (.attached 0)
        [.int ⟨false, .w16⟩ 300, .int ⟨false, .w16⟩ 500] := by
  intro path record
  have hfacts : (resolve Catalog.videoParameters path).toOption.map (fun location =>
      (location.kind, location.field.category, location.count, location.isHeader,
        (record.negotiate path location).toOption)) =
      some (Kind.u16, .value, 8, false, some (.attached 0)) := by
    decide +kernel
  rcases Option.map_eq_some_iff.mp hfacts with ⟨location, hresolve, hfacts⟩
  simp only [Prod.mk.injEq] at hfacts
  rcases hfacts with ⟨hkind, hcategory, hcount, hbody, hslot⟩
  rw [toOption_eq_some] at hresolve hslot
  have hbuilt := Schema.builtFrom_of_build Catalog.build_videoParameters
  have htext := Location.text_eq_false_of_resolve hbuilt hresolve (by rw [hkind]; decide)
  have hkind' : location.field.kind = .u16 := hkind
  have hreachable : Reachable Catalog.videoParameters record := ⟨_, rfl⟩
  have hvalues : List.Forall₂ (fun token value =>
      coerceValue token location.field.kind location.field.category = .ok value)
      ["300", " 500"] [.int ⟨false, .w16⟩ 300, .int ⟨false, .w16⟩ 500] := by
    rw [hkind', hcategory]
    exact .cons (toOption_eq_some.mp (by decide +kernel))
      (.cons (toOption_eq_some.mp (by decide +kernel)) .nil)
  have hsets := (set_commas Catalog.build_videoParameters (by decide +kernel) hreachable hresolve
    htext hbody hslot (by decide) (by decide) hvalues).left
  exact ⟨location, hresolve, hcount, hsets (Or.inl (by rw [hcount]; decide))⟩

end Record

/-!
## An array of one element
-/

namespace SingleElement

def declarations : List Declaration := [
  { name := "B", role := .base, entries := [.field "A" .u8 [1] .value] }]

def schema : Schema :=
  (Schema.build declarations []).toOption.getD Catalog.emptySchema

/-- The array takes a number and refuses two of them. -/
theorem list_refused :
    let record := Record.new schema
    Schema.build declarations [] = .ok schema ∧ schema.CodesFit ∧
      Record.Reachable schema record ∧
      (resolve schema "A[]").toOption.map (fun location => (location.text, location.count,
        location.isHeader, (record.negotiate "A[]" location).toOption)) =
        some (false, 1, false, some .base) ∧
      coerceValue "1" .u8 .value = .ok (.int ⟨false, .w8⟩ 1) ∧
      coerceValue "2" .u8 .value = .ok (.int ⟨false, .w8⟩ 2) ∧
      (record.set "A[]" "1").result = .ok () ∧
      (record.set "A[]" (String.intercalate "," ["1", "2"])).result =
        .error (.refused (.unsupported "A[]" "1,2" (.invalid "1,2" .u8))) :=
  ⟨Catalog.build_eq_ok (by decide +kernel), by decide +kernel, ⟨[], rfl⟩, by decide +kernel,
    toOption_eq_some.mp (by decide +kernel), toOption_eq_some.mp (by decide +kernel),
    toOption_eq_some.mp (by decide +kernel), by decide +kernel⟩

end SingleElement
end VideoConfig
