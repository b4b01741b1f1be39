import VideoConfig.Proofs.Access.SetGet
import VideoConfig.Proofs.Matching.Verdict
import VideoConfig.Proofs.Record.Stacks

/-!
# Filters on what was stored

Setting a property and matching a filter reach the same bytes in different ways. A text that
is stored in a property is met by the filter that asks for it. Where the path leaves no choice
among the buffers, exactly those texts are met afterwards that say the same as the one that
was stored.
-/

namespace VideoConfig

def Target.Single : Target -> Prop
  | .base => True
  | .extension _ _ _ selector => selector ≠ none

def Schema.ArraysAreTexts (schema : Schema) : Prop :=
  forall type, type ∈ schema.records -> forall field, field ∈ type.fields ->
    field.isArray = true -> field.isText = true

instance (schema : Schema) : Decidable schema.ArraysAreTexts :=
  inferInstanceAs (Decidable (forall type, type ∈ schema.records ->
    forall field, field ∈ type.fields -> field.isArray = true -> field.isText = true))

namespace Location

variable {schema : Schema} {declarations : List Declaration}
  {aliases : List (String × String)}

/-!
## Single values

In a schema whose arrays are all texts no array is projected, so a walk leads to a single
element.
-/

theorem select_each {field : Field} {segment : Segment}
    (h : select field segment = .ok .each) : field.isArray = true ∧ field.isText = false := by
  unfold select at h
  split at h
  · cases h
  · cases h
  · cases h
  · next harray _ =>
      split at h
      · cases h
      · next htext =>
          exact ⟨harray, by simpa using htext⟩

theorem enter_projection {place place' : Place} {field : Field} {element : Nat}
    {segment : Segment} {selection : Selection}
    (hfield : field.isArray = true -> field.isText = true)
    (hselect : select field segment = .ok selection) (hplace : place.projection = none)
    (h : enter place field element segment selection = .ok place') :
    place'.projection = none := by
  rcases (enter_eq_ok h).right.left with ⟨rfl, _, _⟩ | ⟨_, hkeep⟩
  · rcases select_each hselect with ⟨harray, htext⟩
    rw [hfield harray] at htext
    cases htext
  · rw [hkeep, hplace]

theorem Leads.count_eq_one (harrays : schema.ArraysAreTexts) {target : Target}
    {type : RecordType} {place : Place} {path : Path} {location : Location}
    (h : Leads schema target type place path location) (htype : type ∈ schema.records)
    (hplace : place.projection = none) : location.count = 1 := by
  induction h with
  | leaf hfield _ hselect henter hleaf =>
      have hshape := harrays _ htype _ (RecordType.field?_eq_some hfield).left
      have hplace' := enter_projection hshape hselect hplace henter
      rcases leaf_eq_ok hleaf with ⟨_, _, _, _, ⟨projection, hsome, _⟩ | ⟨_, _, hcount⟩⟩
      · rw [hplace'] at hsome
        cases hsome
      · exact hcount
  | nested hfield _ hinner hselect henter _ ih =>
      have hshape := harrays _ htype _ (RecordType.field?_eq_some hfield).left
      exact ih (Schema.record?_eq_some hinner).left
        (enter_projection hshape hselect hplace henter)

theorem count_of_resolve (hbuilt : schema.BuiltFrom declarations aliases)
    (harrays : schema.ArraysAreTexts) {path : String} {location : Location}
    (h : resolve schema path = .ok location) : location.count = 1 := by
  rcases resolve_eq_ok.mp h with ⟨origin, horigin, hleads⟩
  have htype := (rooted_of_origin? hbuilt horigin).type_mem hbuilt
  exact Leads.count_eq_one harrays hleads htype rfl

/-- Whether two texts say the same at a single location: both fit and agree up to their first
NUL where a text is addressed, and both are read as one value elsewhere. -/
inductive SaysSame (location : Location) (first second : String) : Prop where
  | text (htext : location.text = true)
      (fits : (Text.encodeUtf8 second).length < location.capacity)
      (same : Text.untilNul second = Text.untilNul first)
  | value (htext : location.text = false) {value : Value}
      (first : coerceValue first location.field.kind location.field.category = .ok value)
      (second : coerceValue second location.field.kind location.field.category = .ok value)

theorem saysSame_text_iff {location : Location} (htext : location.text = true)
    {first second : String} :
    location.SaysSame first second <->
      (Text.encodeUtf8 second).length < location.capacity ∧
        Text.untilNul second = Text.untilNul first := by
  constructor
  · intro h
    cases h with
    | text _ hfits hsame =>
        exact ⟨hfits, hsame⟩
    | value hvalue _ _ =>
        rw [htext] at hvalue
        cases hvalue
  · rintro ⟨hfits, hsame⟩
    exact .text htext hfits hsame

theorem saysSame_value_iff {location : Location} (htext : location.text = false)
    {first second : String} :
    location.SaysSame first second <->
      exists value,
        coerceValue first location.field.kind location.field.category = .ok value ∧
        coerceValue second location.field.kind location.field.category = .ok value := by
  constructor
  · intro h
    cases h with
    | text htrue _ _ =>
        rw [htext] at htrue
        cases htrue
    | value _ hfirst hsecond =>
        exact ⟨_, hfirst, hsecond⟩
  · rintro ⟨value, hfirst, hsecond⟩
    exact .value htext hfirst hsecond

end Location

namespace Matching

variable {schema : Schema} {declarations : List Declaration}
  {aliases : List (String × String)} {record : Record} {location : Location}

theorem written_text_iff (htext : location.text = true) {text : String}
    {values : List Value} :
    Written location text values <->
      (Text.encodeUtf8 text).length < location.capacity ∧
        values = [.text (Text.untilNul text)] := by
  constructor
  · intro h
    cases h with
    | text hpayload =>
        rcases (Location.payload_text htext).mp hpayload with ⟨hfits, hbytes⟩
        cases hbytes
        rw [Value.ofTextBytes_encode]
        exact ⟨hfits, rfl⟩
    | elements hpayload =>
        rcases (Location.payload_text htext).mp hpayload with ⟨_, hbytes⟩
        cases hbytes
  · rintro ⟨hfits, rfl⟩
    have hwritten := Written.text ((Location.payload_text htext).mpr ⟨hfits, rfl⟩)
    rwa [Value.ofTextBytes_encode] at hwritten

theorem written_value_iff (htext : location.text = false) (hcount : location.count = 1)
    {text : String} {values : List Value} :
    Written location text values <->
      exists value, coerceValue text location.field.kind location.field.category = .ok value ∧
        values = [value] := by
  constructor
  · intro h
    cases h with
    | text hpayload =>
        rcases (Location.payload_value htext hcount).mp hpayload with ⟨_, _, hvalues⟩
        cases hvalues
    | elements hpayload =>
        rcases (Location.payload_value htext hcount).mp hpayload with ⟨value, hvalue, hvalues⟩
        cases hvalues
        exact ⟨value, hvalue, rfl⟩
  · rintro ⟨value, hvalue, rfl⟩
    exact .elements ((Location.payload_value htext hcount).mpr ⟨value, hvalue, rfl⟩)

theorem prefix_updated_iff (hcount : location.count = 1) {value other : String}
    {payload : Payload} (hpayload : location.payload value = .ok payload)
    {before : List Value} :
    (exists values, Written location other values ∧
        values <+: location.updated before payload) <->
      location.SaysSame value other := by
  cases htext : location.text with
  | true =>
      rcases (Location.payload_text htext).mp hpayload with ⟨_, rfl⟩
      have hupdated : location.updated before (.text (Text.encodeUtf8 value ++
          Bytes.zeros (location.capacity - (Text.encodeUtf8 value).length))) =
            [.text (Text.untilNul value)] := by
        rw [Location.updated, Value.ofTextBytes_encode]
      rw [hupdated, Location.saysSame_text_iff htext]
      simp only [written_text_iff htext]
      constructor
      · rintro ⟨_, ⟨hfits, rfl⟩, hprefix⟩
        exact ⟨hfits, Value.text.inj (List.cons_prefix_cons.mp hprefix).left⟩
      · rintro ⟨hfits, hsame⟩
        exact ⟨_, ⟨hfits, rfl⟩,
          List.cons_prefix_cons.mpr ⟨congrArg Value.text hsame, List.nil_prefix⟩⟩
  | false =>
      rcases (Location.payload_value htext hcount).mp hpayload with ⟨stored, hstored, rfl⟩
      have hupdated : location.updated before (.elements [stored]) =
          stored :: before.drop 1 := by
        rw [Location.updated, hcount]
        rfl
      rw [hupdated, Location.saysSame_value_iff htext]
      simp only [written_value_iff htext hcount]
      constructor
      · rintro ⟨_, ⟨found, hfound, rfl⟩, hprefix⟩
        rcases List.cons_prefix_cons.mp hprefix with ⟨rfl, _⟩
        exact ⟨_, hstored, hfound⟩
      · rintro ⟨found, hfirst, hsecond⟩
        cases hfirst.symm.trans hstored
        exact ⟨_, ⟨_, hsecond, rfl⟩, List.cons_prefix_cons.mpr ⟨rfl, List.nil_prefix⟩⟩

/-!
## One filter

A filter alone is met if a buffer in which its property may lie has the expected values in
front. A run over a path that resolves is not abandoned.
-/

theorem matches?_of_checkOf {descriptor : Descriptor} {filter : Filter} {check : Check}
    (h : checkOf descriptor.record.schema filter = .ok check) :
    matches? descriptor [filter] = some
      ((descriptor.record.candidates check.anchor).any fun slot =>
        check.holdsAt descriptor.record slot) := by
  cases htag : check.sharedTag? with
  | none =>
      have hjudge : judge? descriptor filter = some
          (if (descriptor.record.candidates check.anchor).any fun slot =>
            check.holdsAt descriptor.record slot then .accepted else .rejected) := by
        simp only [judge?, h, htag]
      unfold matches? scan?
      rw [hjudge]
      cases (descriptor.record.candidates check.anchor).any fun slot =>
        check.holdsAt descriptor.record slot <;> rfl
  | some tag =>
      have hjudge : judge? descriptor filter = some (.shared tag check) := by
        simp only [judge?, h, htag]
      have hcandidates : descriptor.record.candidates check.anchor =
          descriptor.record.instances tag := by
        rcases Check.sharedTag?_eq_some.mp htag with ⟨name, size, htarget⟩
        rw [Record.candidates, htarget]
      rw [hcandidates]
      unfold matches? scan?
      rw [hjudge]
      simp [scan?, holdTogether]

theorem matches?_single {descriptor : Descriptor} {path : String}
    (h : resolve descriptor.record.schema path = .ok location) (expected : Expectation) :
    exists accepted,
      matches? descriptor [{ path, expected }] = some accepted ∧
        (accepted = true <->
          exists slot, slot ∈ descriptor.record.candidates location ∧
            exists buffer, descriptor.record.buffer? slot = some buffer ∧
              exists values, Represents location expected values ∧
                values <+: location.read buffer) := by
  let filter : Filter := { path, expected }
  have hfilter : resolve descriptor.record.schema filter.path = .ok location := h
  have hmeaning : forall values, Represents location expected values <->
      expectedValues? location filter.expected = some values :=
    fun _ => expectedValues?_eq_some.symm
  cases hvalues : expectedValues? location filter.expected with
  | none =>
      have hcheck : checkOf descriptor.record.schema filter =
          .error (.refused .unrepresentable) := by
        rw [checkOf_of_resolves hfilter, hvalues]
      refine ⟨false, ?_, ?_⟩
      · change matches? descriptor [filter] = some false
        simp only [matches?, scan?, judge?, hcheck, Option.map_some]
      · simp only [Bool.false_eq_true, false_iff]
        rintro ⟨_, _, _, _, values, hrepresents, _⟩
        rw [hmeaning, hvalues] at hrepresents
        cases hrepresents
  | some found =>
      have hcheck : checkOf descriptor.record.schema filter = .ok (.equals location found) := by
        rw [checkOf_of_resolves hfilter, hvalues]
      have hfound : forall values, Represents location expected values <-> values = found := by
        intro values
        rw [hmeaning, hvalues, Option.some.injEq, eq_comm]
      refine ⟨_, matches?_of_checkOf hcheck, ?_⟩
      simp only [List.any_eq_true, Check.holdsAt_iff, hfound, exists_eq_left]
      rfl

/-!
## Stored texts
-/

theorem candidates_eq_singleton {path : String} {slot : Slot}
    (hsingle : location.target.Single) (h : record.negotiate path location = .ok slot) :
    record.candidates location = [slot] := by
  cases htarget : location.target with
  | base =>
      rw [record.negotiate_base path htarget] at h
      cases h
      exact record.candidates_base htarget
  | extension tag name size selector =>
      cases selector with
      | none =>
          rw [htarget] at hsingle
          exact absurd rfl hsingle
      | some k =>
          have hfound : record.findInstance? tag k = some slot :=
            (Record.negotiate_extension_iff htarget).mp h
          unfold Record.candidates
          rw [htarget]
          dsimp only
          rw [hfound]
          rfl

theorem matches?_result (hbuilt : schema.BuiltFrom declarations aliases)
    (hcodes : schema.CodesFit) {descriptor : Descriptor}
    (h : descriptor.record.WellFormed schema) {path value : String}
    (steps : Storing descriptor.record path value) (hcount : steps.location.count = 1)
    (other : String) :
    exists accepted,
      matches? { descriptor with record := steps.result }
        [{ path, expected := .text other }] = some accepted ∧
      (steps.location.SaysSame value other -> accepted = true) ∧
      (steps.location.target.Single -> accepted = true ->
        steps.location.SaysSame value other) := by
  have hupdates := h.updates hbuilt hcodes steps
  have hnegotiated : steps.result.negotiate path steps.location = .ok steps.slot :=
    (Record.negotiate_congr hupdates.tags).trans hupdates.negotiated
  have hbuffer : steps.result.buffer? steps.slot = some steps.after :=
    Record.buffer?_setBuffer_same steps.found
  -- The property is read in the buffer in which it was stored.
  have hread : exists before,
      steps.location.read steps.after = steps.location.updated before steps.payload := by
    rcases hupdates.reads with ⟨before, _, hafter⟩
    rw [Record.Storing.get_result steps, Except.ok.injEq] at hafter
    exact ⟨before, hafter⟩
  rcases hread with ⟨before, hread⟩
  have hsame : (exists values, Written steps.location other values ∧
        values <+: steps.location.read steps.after) <->
      steps.location.SaysSame value other := by
    rw [hread]
    exact prefix_updated_iff hcount steps.coerced
  let stored : Descriptor := { descriptor with record := steps.result }
  have hresolved : resolve stored.record.schema path = .ok steps.location := by
    rw [hupdates.schema]
    exact hupdates.resolved
  rcases matches?_single hresolved (.text other) with ⟨accepted, hmatches, hiff⟩
  simp only [represents_text_iff] at hiff
  refine ⟨accepted, hmatches, ?_, ?_⟩
  · intro hsays
    have hcandidate : steps.slot ∈ steps.result.candidates steps.location :=
      List.mem_of_head? (Record.negotiate_eq_ok_iff.mp hnegotiated)
    exact hiff.mpr ⟨steps.slot, hcandidate, steps.after, hbuffer, hsame.mpr hsays⟩
  · intro hsingle haccepted
    rcases hiff.mp haccepted with ⟨slot, hslot, buffer, hfound, hprefix⟩
    rw [candidates_eq_singleton hsingle hnegotiated, List.mem_singleton] at hslot
    rw [hslot, hbuffer, Option.some.injEq] at hfound
    rw [← hfound] at hprefix
    exact hsame.mp hprefix

theorem saysSame_self (hcount : location.count = 1) {value : String} {payload : Payload}
    (h : location.payload value = .ok payload) : location.SaysSame value value := by
  cases htext : location.text with
  | true =>
      exact .text htext ((Location.payload_text htext).mp h).left rfl
  | false =>
      rcases (Location.payload_value htext hcount).mp h with ⟨stored, hstored, _⟩
      exact .value htext hstored hstored

/-- Whatever implementation is described and whatever text is stored in one of its properties,
the description matches the filter that asks for this text. If the property lies in the base
record or in a buffer that the path selects by an index, the description matches exactly the
filters on it that ask for a text that says the same. -/
theorem matches?_stored (descriptor : Descriptor)
    (hreachable : Record.Reachable Catalog.implementationDescription descriptor.record)
    (path value : String) (hset : (descriptor.record.set path value).result = .ok ()) :
    exists location, resolve Catalog.implementationDescription path = .ok location ∧
      matches? { descriptor with record := (descriptor.record.set path value).record }
        [{ path, expected := .text value }] = some true ∧
      (location.target.Single -> forall other, exists accepted,
        matches? { descriptor with record := (descriptor.record.set path value).record }
          [{ path, expected := .text other }] = some accepted ∧
        (accepted = true <-> location.SaysSame value other)) := by
  have hbuilt := Schema.builtFrom_of_build Catalog.build_implementationDescription
  have hcodes : Catalog.implementationDescription.CodesFit := by
    decide +kernel
  have harrays : Catalog.implementationDescription.ArraysAreTexts := by
    decide +kernel
  have h := hreachable.wellFormed hbuilt
  rcases Record.set_cases descriptor.record path value with ⟨failure, _, hfailed⟩ | ⟨steps, hdone⟩
  · rw [hfailed] at hset
    cases hset
  · have hresolved := steps.resolved
    rw [h.schema_eq] at hresolved
    have hcount := Location.count_of_resolve hbuilt harrays hresolved
    rw [hdone]
    refine ⟨steps.location, hresolved, ?_, ?_⟩
    · rcases matches?_result hbuilt hcodes h steps hcount value with
        ⟨accepted, hmatches, htrue, _⟩
      rw [hmatches, htrue (saysSame_self hcount steps.coerced)]
    · intro hsingle other
      rcases matches?_result hbuilt hcodes h steps hcount other with
        ⟨accepted, hmatches, htrue, hsays⟩
      exact ⟨accepted, hmatches, hsays hsingle, htrue⟩

/-- A code that is stored in the first decoder is matched as the code and as its number. -/
theorem matches?_stored_codec :
    let path := "mfxDecoderDescription[0].decoder.CodecID"
    let record := (Record.new Catalog.implementationDescription).run
      [.attachZeroed Catalog.decoderTag]
    let descriptor : Descriptor := { name := "soft", record, live := [] }
    let changed := (record.set path "AVC ").record
    (record.set path "AVC ").result = .ok () ∧
      matches? { descriptor with record := changed } [{ path, expected := .text "AVC " }] =
        some true ∧
      matches? { descriptor with record := changed }
        [{ path, expected := .text "541283905" }] = some true := by
  intro path record descriptor changed
  have hset : (record.set path "AVC ").result = .ok () :=
    toOption_eq_some.mp (by decide +kernel)
  have hfacts : (resolve Catalog.implementationDescription path).toOption.map (fun location =>
      (location.text, location.target, location.field.kind, location.field.category)) =
      some (false, .extension Catalog.decoderTag "mfxDecoderDescription" 52 (some 0), .u32,
        .fourCC) := by
    decide +kernel
  rcases Option.map_eq_some_iff.mp hfacts with ⟨found, hfound, hfacts⟩
  simp only [Prod.mk.injEq] at hfacts
  rcases hfacts with ⟨htext, htarget, hkind, hcategory⟩
  have hreachable : Record.Reachable Catalog.implementationDescription record := ⟨_, rfl⟩
  -- The content of the record is not needed any more, and must not be evaluated.
  clear_value record
  rcases matches?_stored descriptor hreachable path "AVC " hset with
    ⟨location, hresolve, hself, hothers⟩
  rw [toOption_eq_some, hresolve, Except.ok.injEq] at hfound
  subst hfound
  have hsays : location.SaysSame "AVC " "541283905" := by
    have hcode : coerceValue "AVC " location.field.kind location.field.category =
        .ok (.u32 541283905) := by
      rw [hkind, hcategory]
      exact toOption_eq_some.mp (by decide +kernel)
    refine .value htext hcode ?_
    rw [hkind, hcategory]
    exact toOption_eq_some.mp (by decide +kernel)
  rcases hothers (by rw [htarget]; exact Option.some_ne_none 0) "541283905" with
    ⟨accepted, hmatches, hiff⟩
  rw [hiff.mpr hsays] at hmatches
  exact ⟨hset, hself, hmatches⟩

end Matching
end VideoConfig
