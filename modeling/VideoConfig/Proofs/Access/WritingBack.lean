import VideoConfig.Proofs.Access.Positional

/-!
# Reading and writing back

What is got of a property of integers, shown and joined by commas, can be set again. Each part
of the way back undoes one of the way there: the commas are cut, each integer is read from the
text by which it is shown, its bytes are those it was read from, and each element is in its
place. So nothing in the record changes.
-/

namespace VideoConfig

variable {schema : Schema} {declarations : List Declaration}
  {aliases : List (String × String)} {record : Record} {path : String} {location : Location}
  {slot : Slot}

theorem Location.payload_displayed {kind : IntKind} {values : List Value}
    (hkind : location.kind = .scalar (.int kind)) (hcategory : location.field.category = .value)
    (htext : location.text = false) (hne : values ≠ [])
    (hlength : location.count = 1 -> values.length = 1)
    (hvalues : forall value, value ∈ values -> value.IsScalar (.int kind)) :
    location.payload (String.intercalate "," (values.map Value.display)) =
      .ok (.elements values) := by
  refine payload_commas htext (by simpa using hne) (by simpa using hlength) ?_ ?_
  · intro token htoken
    rcases List.mem_map.mp htoken with ⟨value, hvalue, rfl⟩
    rcases Value.isScalar_int_iff.mp (hvalues value hvalue) with ⟨word, rfl⟩
    exact comma_not_mem_signedDecimal _
  · rw [List.forall₂_map_left_iff, List.forall₂_same]
    intro value hvalue
    rcases Value.isScalar_int_iff.mp (hvalues value hvalue) with ⟨word, rfl⟩
    have hkind' : location.field.kind = .scalar (.int kind) := hkind
    rw [hkind', hcategory]
    exact coerceValue_display word

namespace Record

/-- Whatever integers a property holds in a record that a run leads to, setting the property to
the texts by which they are shown succeeds and leaves the record as it was. -/
theorem set_displayed_of_get (hbuild : Schema.build declarations aliases = .ok schema)
    (hreachable : Reachable schema record) (hresolve : resolve schema path = .ok location)
    {kind : IntKind} (hkind : location.kind = .scalar (.int kind))
    (hcategory : location.field.category = .value) (hcount : 0 < location.count)
    (hbody : location.isHeader = false) (hslot : record.negotiate path location = .ok slot) :
    exists values, record.get path = .ok values ∧ values.length = location.count ∧
      record.set path (String.intercalate "," (values.map Value.display)) =
        { record, result := .ok () } := by
  have hbuilt := Schema.builtFrom_of_build hbuild
  have h := hreachable.wellFormed hbuilt
  have htext : location.text = false :=
    Location.text_eq_false_of_resolve hbuilt hresolve (by rw [hkind]; simp)
  rw [← h.schema_eq] at hresolve
  rcases h.located hbuilt hresolve hslot with ⟨type, buffer, _, hplaced, hbuffer, hlength⟩
  have hread := (hplaced.read_elements htext hlength).left
  have hne : location.read buffer ≠ [] := by
    rw [← List.length_pos_iff, hread]
    exact hcount
  have hpayload := Location.payload_displayed hkind hcategory htext hne
    (fun hone => hread.trans hone) (hplaced.isScalar_of_read htext hkind)
  let steps : Storing record path
      (String.intercalate "," ((location.read buffer).map Value.display)) := {
    location, slot, payload := .elements (location.read buffer), before := buffer, after := buffer
    resolved := hresolve
    body := hbody
    negotiated := hslot
    coerced := hpayload
    found := hbuffer
    written := hplaced.write?_back htext buffer }
  have hresult : steps.result = record := setBuffer_self hbuffer
  have hget : record.get path = .ok (location.read buffer) :=
    get_eq_ok.mpr ⟨location, slot, buffer, hresolve, hslot, hbuffer, rfl⟩
  exact ⟨location.read buffer, hget, hread, set_eq_ok.mp (stored_eq_ok.mpr ⟨steps, hresult⟩)⟩

/-- The bit rates of all layers of an extension. -/
theorem set_displayed_of_get_layers :
    let path := "mfxExtVP9TemporalLayers.Layer[].TargetKbps"
    let record := (new Catalog.videoParameters).run
      [.attachZeroed (Catalog.tag "9TML"), .set path "300,500"]
    exists values, record.get path = .ok values ∧ values.length = 8 ∧
      record.set path (String.intercalate "," (values.map Value.display)) =
        { record, result := .ok () } := by
  intro path record
  have hfacts : (resolve Catalog.videoParameters path).toOption.map (fun location =>
      (location.kind, location.field.category, location.count, location.isHeader,
        (record.negotiate path location).toOption)) =
      some (Kind.u16, .value, 8, false, some (.attached 0)) := by
    decide +kernel
  rcases Option.map_eq_some_iff.mp hfacts with ⟨location, hresolve, hfacts⟩
  simp only [Prod.mk.injEq] at hfacts
  rcases hfacts with ⟨hkind, hcategory, hcount, hbody, hslot⟩
  have hreachable : Reachable Catalog.videoParameters record := ⟨_, rfl⟩
  have hback := set_displayed_of_get Catalog.build_videoParameters hreachable
    (toOption_eq_some.mp hresolve) hkind hcategory (by rw [hcount]; decide) hbody
    (toOption_eq_some.mp hslot)
  rw [hcount] at hback
  exact hback

end Record
end VideoConfig
