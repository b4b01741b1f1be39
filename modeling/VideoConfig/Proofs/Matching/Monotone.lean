import VideoConfig.Proofs.Matching.Verdict

/-!
# Verdicts under changes

What a verdict on a descriptor does not depend on, and in which direction it moves. It is the
same for lists with the same filters. A descriptor that matches still matches when filters are
left out, when the description grows behind what it holds, and when less is asked of its
ranges.
-/

namespace VideoConfig
namespace Matching

section Lists

variable {descriptor : Descriptor} {filters others : List Filter}

/-!
## Fewer filters

Lists with the same filters have the same verdict.
-/

theorem Meets.of_subset (h : Meets descriptor filters) (hsubset : others ⊆ filters) :
    Meets descriptor others where
  each filter hfilter := h.each filter (hsubset hfilter)
  together := by
    rintro tag ⟨filter, hfilter, hmade⟩
    rcases h.together tag ⟨filter, hsubset hfilter, hmade⟩ with
      ⟨attachment, hattached, htag, hholds⟩
    exact ⟨attachment, hattached, htag, fun other hother => hholds other (hsubset hother)⟩

theorem matches?_congr (haliases : ReadableAliases descriptor.record.schema)
    (hpaths : forall filter, filter ∈ filters -> Path.read filter.path ≠ .error .abandoned)
    (hsame : forall filter, filter ∈ others <-> filter ∈ filters) :
    matches? descriptor others = matches? descriptor filters := by
  have hpaths' : forall filter, filter ∈ others -> Path.read filter.path ≠ .error .abandoned :=
    fun filter hfilter => hpaths filter ((hsame filter).mp hfilter)
  have hiff : matches? descriptor others = some true <->
      matches? descriptor filters = some true := by
    rw [matches?_eq_true haliases hpaths', matches?_eq_true haliases hpaths]
    exact ⟨fun h => h.of_subset fun filter => (hsame filter).mpr,
      fun h => h.of_subset fun filter => (hsame filter).mp⟩
  cases hothers : matches? descriptor others with
  | none =>
      exact absurd hothers (matches?_ne_none haliases hpaths')
  | some accepted =>
      cases hfilters : matches? descriptor filters with
      | none =>
          exact absurd hfilters (matches?_ne_none haliases hpaths)
      | some accepted' =>
          rw [hothers, hfilters, Option.some.injEq, Option.some.injEq] at hiff
          rw [Bool.eq_iff_iff.mpr hiff]

end Lists

/-!
## Larger descriptions

An index selects the same buffer once others are attached behind it.
-/

/-- A description that has grown: buffers and live values have been added behind the
others. -/
structure Extends (larger descriptor : Descriptor) : Prop where
  schema_eq : larger.record.schema = descriptor.record.schema
  base_eq : larger.record.base = descriptor.record.base
  attachments : exists more, larger.record.attachments = descriptor.record.attachments ++ more
  live : exists more, larger.live = descriptor.live ++ more

section Growing

variable {larger descriptor : Descriptor} {filter : Filter}

theorem extends_attach {tag : Tag} {bytes : Bytes} {changed : Record}
    (h : descriptor.record.attach tag bytes = .ok changed) :
    Extends { descriptor with record := changed } descriptor := by
  rcases Record.attach_eq_ok.mp h with ⟨type, _, _, rfl⟩
  exact {
    schema_eq := rfl
    base_eq := rfl
    attachments := ⟨_, rfl⟩
    live := ⟨[], (List.append_nil _).symm⟩ }

theorem extends_addLive (descriptor : Descriptor) (name : String) (value : Value) :
    Extends (descriptor.addLive name value) descriptor where
  schema_eq := rfl
  base_eq := rfl
  attachments := ⟨[], (List.append_nil _).symm⟩
  live := ⟨_, rfl⟩

theorem Extends.holdsAlone (h : Extends larger descriptor) {check : Check}
    (hholds : HoldsAlone descriptor.record check) : HoldsAlone larger.record check where
  base := by
    rw [h.base_eq]
    exact hholds.base
  selected := by
    intro tag name size k htarget
    rcases hholds.selected tag name size k htarget with ⟨attachment, hget, hcheck⟩
    rcases h.attachments with ⟨more, hattachments⟩
    refine ⟨attachment, ?_, hcheck⟩
    have hlt : k < (descriptor.record.attachmentsOf tag).length :=
      (List.getElem?_eq_some_iff.mp hget).choose
    unfold Record.attachmentsOf at hget hlt ⊢
    rw [hattachments, List.filter_append, List.getElem?_append_left hlt, hget]

theorem Extends.passes (h : Extends larger descriptor) (hpasses : Passes descriptor filter) :
    Passes larger filter where
  representable := by
    rw [h.schema_eq]
    exact hpasses.representable
  range := by
    rw [h.schema_eq]
    exact hpasses.range
  live := by
    rw [h.schema_eq]
    intro hunresolved hnone
    rcases hpasses.live hunresolved hnone with ⟨value, hlive, hagrees⟩
    rcases h.live with ⟨more, hmore⟩
    refine ⟨value, ?_, hagrees⟩
    rw [hmore]
    exact List.mem_append_left more hlive
  alone := by
    rw [h.schema_eq]
    exact fun check hmakes => h.holdsAlone (hpasses.alone check hmakes)

theorem Extends.meets (h : Extends larger descriptor) {filters : List Filter}
    (hmeets : Meets descriptor filters) : Meets larger filters where
  each filter hfilter := h.passes (hmeets.each filter hfilter)
  together := by
    rw [h.schema_eq]
    intro tag hmade
    rcases hmeets.together tag hmade with ⟨attachment, hattached, hholds⟩
    rcases h.attachments with ⟨more, hattachments⟩
    refine ⟨attachment, ?_, hholds⟩
    rw [hattachments]
    exact List.mem_append_left more hattached

theorem Extends.matches? (h : Extends larger descriptor)
    (haliases : ReadableAliases descriptor.record.schema) {filters : List Filter}
    (hpaths : forall filter, filter ∈ filters -> Path.read filter.path ≠ .error .abandoned)
    (hmatches : matches? descriptor filters = some true) :
    matches? larger filters = some true := by
  have haliases' : ReadableAliases larger.record.schema := h.schema_eq.symm ▸ haliases
  rw [matches?_eq_true haliases' hpaths]
  exact h.meets ((matches?_eq_true haliases hpaths).mp hmatches)

end Growing

/-!
## Narrower ranges

A check that a narrower filter makes goes back to one in the same buffers that implies it.
-/

/-- A filter that asks for less than another one: for the same, or for a range inside of the
one for which the other asks, with steps that are no finer. -/
inductive Narrows (schema : Schema) (filter : Filter) : Filter -> Prop where
  | same : Narrows schema filter filter
  | range {narrower : Filter} {members : RangeMembers} {requested narrowed : NumberRange}
      (makes : Makes schema filter (.contains members requested))
      (path_eq : narrower.path = filter.path) (asks : AsksFor narrower.expected narrowed)
      (least : requested.least ≤ narrowed.least)
      (greatest : narrowed.greatest ≤ requested.greatest)
      (step : requested.step ≤ narrowed.step) :
      Narrows schema filter narrower

section Narrowing

variable {schema : Schema} {descriptor : Descriptor} {filter narrower : Filter}
  {filters others : List Filter}

theorem Narrows.path_eq (h : Narrows schema filter narrower) : narrower.path = filter.path := by
  cases h with
  | same =>
      rfl
  | range _ hpath _ _ _ _ =>
      exact hpath

theorem Makes.narrowed {members : RangeMembers} {requested range : NumberRange}
    (h : Makes schema filter (.contains members requested))
    (hpath : narrower.path = filter.path) (hasks : AsksFor narrower.expected range) :
    Makes schema narrower (.contains members range) := by
  cases h with
  | range hunresolved hmembers _ =>
      rw [← hpath] at hunresolved hmembers
      exact .range hunresolved hmembers hasks

theorem Check.Holds.narrowed {members : RangeMembers} {requested range : NumberRange}
    {buffer : Bytes} (h : (Check.contains members requested).Holds buffer)
    (hleast : requested.least ≤ range.least) (hgreatest : range.greatest ≤ requested.greatest)
    (hstep : requested.step ≤ range.step) : (Check.contains members range).Holds buffer := by
  rcases h with ⟨least, greatest, step, hmin, hmax, hby, hlow, hhigh, hfine⟩
  exact ⟨least, greatest, step, hmin, hmax, hby, hlow.trans hleast, hgreatest.trans hhigh,
    hfine.trans hstep⟩

theorem Narrows.exists_makes (h : Narrows schema filter narrower) {check : Check}
    (hmakes : Makes schema narrower check) :
    exists wider, Makes schema filter wider ∧ wider.anchor = check.anchor ∧
      forall buffer, wider.Holds buffer -> check.Holds buffer := by
  cases h with
  | same =>
      exact ⟨check, hmakes, rfl, fun _ => id⟩
  | range hwider hpath hasks hleast hgreatest hstep =>
      cases hmakes.unique (hwider.narrowed hpath hasks)
      exact ⟨_, hwider, rfl, fun _ hholds => hholds.narrowed hleast hgreatest hstep⟩

theorem HoldsAlone.weaken {record : Record} {wider check : Check}
    (h : HoldsAlone record wider) (hanchor : wider.anchor = check.anchor)
    (himplies : forall buffer, wider.Holds buffer -> check.Holds buffer) :
    HoldsAlone record check where
  base htarget := himplies _ (h.base (hanchor.symm ▸ htarget))
  selected := by
    intro tag name size k htarget
    rcases h.selected tag name size k (hanchor.symm ▸ htarget) with
      ⟨attachment, hget, hholds⟩
    exact ⟨attachment, hget, himplies _ hholds⟩

theorem Narrows.passes (h : Narrows descriptor.record.schema filter narrower)
    (hpasses : Passes descriptor filter) : Passes descriptor narrower := by
  cases h with
  | same =>
      exact hpasses
  | range hwider hpath hasks hleast hgreatest hstep =>
      rw [passes_iff_of_makes (hwider.narrowed hpath hasks)]
      exact (hpasses.alone _ hwider).weaken rfl
        fun _ hholds => hholds.narrowed hleast hgreatest hstep

theorem exists_mem_of_narrows (h : List.Forall₂ (Narrows schema) filters others)
    (hmem : narrower ∈ others) :
    exists filter, filter ∈ filters ∧ Narrows schema filter narrower := by
  induction h with
  | nil =>
      cases hmem
  | cons hfirst _ ih =>
      rcases List.mem_cons.mp hmem with rfl | hmem
      · exact ⟨_, List.mem_cons_self, hfirst⟩
      · rcases ih hmem with ⟨filter, hfilter, hnarrows⟩
        exact ⟨filter, List.mem_cons_of_mem _ hfilter, hnarrows⟩

theorem Meets.narrowed (h : Meets descriptor filters)
    (hnarrows : List.Forall₂ (Narrows descriptor.record.schema) filters others) :
    Meets descriptor others where
  each := by
    intro narrower hnarrower
    rcases exists_mem_of_narrows hnarrows hnarrower with ⟨filter, hfilter, hnarrow⟩
    exact hnarrow.passes (h.each filter hfilter)
  together := by
    -- Every check of a narrower filter lies in the buffers of the wider check behind it.
    have hwider : forall narrower, narrower ∈ others -> forall check,
        Makes descriptor.record.schema narrower check -> forall tag, check.OnTag tag ->
          exists filter, filter ∈ filters ∧ exists wider,
            Makes descriptor.record.schema filter wider ∧ wider.OnTag tag ∧
            forall buffer, wider.Holds buffer -> check.Holds buffer := by
      intro narrower hnarrower check hmakes tag hshared
      rcases exists_mem_of_narrows hnarrows hnarrower with ⟨filter, hfilter, hnarrow⟩
      rcases hnarrow.exists_makes hmakes with ⟨wider, hmade, hanchor, himplies⟩
      refine ⟨filter, hfilter, wider, hmade, ?_, himplies⟩
      unfold Check.OnTag
      rw [hanchor]
      exact hshared
    rintro tag ⟨narrower, hnarrower, check, hmakes, hshared⟩
    rcases hwider narrower hnarrower check hmakes tag hshared with
      ⟨filter, hfilter, wider, hmade, hon, _⟩
    rcases h.together tag ⟨filter, hfilter, wider, hmade, hon⟩ with
      ⟨attachment, hattached, htag, hholds⟩
    refine ⟨attachment, hattached, htag, ?_⟩
    intro narrower' hnarrower' check' hmakes' hshared'
    rcases hwider narrower' hnarrower' check' hmakes' tag hshared' with
      ⟨filter', hfilter', wider', hmade', hon', himplies⟩
    exact himplies _ (hholds filter' hfilter' wider' hmade' hon')

end Narrowing

/-!
## Every descriptor
-/

/-- The verdict depends on which filters there are, and neither on their order nor on how
often they are repeated. A positive one stays positive when filters are left out, when a
buffer of any tag is attached, when a live value is added under any name, and when ranges are
asked for that lie inside of the earlier ones. -/
theorem matches?_monotone (descriptor : Descriptor) (filters : List Filter)
    (haliases : ReadableAliases descriptor.record.schema)
    (hpaths : forall filter, filter ∈ filters -> Path.read filter.path ≠ .error .abandoned) :
    (forall others, (forall filter, filter ∈ others <-> filter ∈ filters) ->
        matches? descriptor others = matches? descriptor filters) ∧
      (matches? descriptor filters = some true ->
        (forall others, others ⊆ filters -> matches? descriptor others = some true) ∧
        (forall tag bytes changed, descriptor.record.attach tag bytes = .ok changed ->
          matches? { descriptor with record := changed } filters = some true) ∧
        (forall name value, matches? (descriptor.addLive name value) filters = some true) ∧
        (forall narrowed,
          List.Forall₂ (Narrows descriptor.record.schema) filters narrowed ->
            matches? descriptor narrowed = some true)) := by
  refine ⟨fun others => matches?_congr haliases hpaths, ?_⟩
  intro hmatches
  have hmeets := (matches?_eq_true haliases hpaths).mp hmatches
  refine ⟨?_, ?_, ?_, ?_⟩
  · intro others hsubset
    rw [matches?_eq_true haliases fun filter hfilter => hpaths filter (hsubset hfilter)]
    exact hmeets.of_subset hsubset
  · intro tag bytes changed hattach
    exact (extends_attach hattach).matches? haliases hpaths hmatches
  · intro name value
    exact (extends_addLive descriptor name value).matches? haliases hpaths hmatches
  · intro narrowed hnarrows
    have hpaths' : forall narrower, narrower ∈ narrowed ->
        Path.read narrower.path ≠ .error .abandoned := by
      intro narrower hnarrower
      rcases exists_mem_of_narrows hnarrows hnarrower with ⟨filter, hfilter, hnarrow⟩
      rw [hnarrow.path_eq]
      exact hpaths filter hfilter
    rw [matches?_eq_true haliases hpaths']
    exact hmeets.narrowed hnarrows

/-- Filters on a description with two decoders, written twice and backwards, after a third
decoder has been attached, and with a narrower range of widths. -/
theorem matches?_monotone_decoders :
    let width := "mfxDecoderDescription.decoder.decprofile.decmemdesc.Width"
    let record := (Record.new Catalog.implementationDescription).run [
      .attachZeroed Catalog.decoderTag, .attachZeroed Catalog.decoderTag,
      .set "mfxDecoderDescription[1].decoder.CodecID" "AVC ",
      .set "mfxDecoderDescription[1].decoder.decprofile.decmemdesc.Width.Max" "4096"]
    let descriptor : Descriptor := { name := "soft", record, live := [("threads", .u32 8)] }
    let filters : List Filter := [
      { path := "mfxDecoderDescription.decoder.CodecID", expected := .text "AVC " },
      { path := "threads", expected := .text "8" },
      { path := width, expected := .text "16,1920,2" }]
    let narrowed : List Filter := [
      { path := "mfxDecoderDescription.decoder.CodecID", expected := .text "AVC " },
      { path := "threads", expected := .text "8" },
      { path := width, expected := .text "32,1280,4" }]
    matches? descriptor (filters.reverse ++ filters) = some true ∧
      (exists changed, record.attachZeroed Catalog.decoderTag = .ok changed ∧
        matches? { descriptor with record := changed } filters = some true) ∧
      matches? descriptor narrowed = some true := by
  intro width record descriptor filters narrowed
  let schema := Catalog.implementationDescription
  have hmatches : matches? descriptor filters = some true := by
    decide +kernel
  have hattached : (record.attachZeroed Catalog.decoderTag).toOption.isSome = true := by
    decide +kernel
  have hschema : record.schema = schema :=
    (Record.Reachable.wellFormed
      (Schema.builtFrom_of_build Catalog.build_implementationDescription) ⟨_, rfl⟩).schema_eq
  -- The content of the record is not needed any more, and must not be evaluated.
  clear_value record
  have haliases : ReadableAliases descriptor.record.schema :=
    hschema.symm ▸ readableAliases_implementationDescription
  have hpaths : forall filter, filter ∈ filters ->
      Path.read filter.path ≠ .error .abandoned := by
    decide +kernel
  rcases matches?_monotone descriptor filters haliases hpaths with ⟨hsame, htrue⟩
  rcases htrue hmatches with ⟨_, hattach, _, hnarrow⟩
  refine ⟨?_, ?_, hnarrow narrowed (.cons .same (.cons .same (.cons ?_ .nil)))⟩
  · rw [hsame]
    · exact hmatches
    · simp
  · rcases Option.isSome_iff_exists.mp hattached with ⟨changed, hchanged⟩
    rw [toOption_eq_some] at hchanged
    rcases Record.exists_attach_of_attachZeroed hchanged with ⟨bytes, hbytes⟩
    exact ⟨changed, hchanged, hattach _ bytes changed hbytes⟩
  · have hunresolved : Unresolved schema width := by
      intro location hlocation
      have hnone : (resolve schema width).toOption = none := by
        decide +kernel
      rw [toOption_eq_some.mpr hlocation] at hnone
      cases hnone
    have hmembers : (rangeMembers? schema width).toOption.isSome = true := by
      decide +kernel
    rcases Option.isSome_iff_exists.mp hmembers with ⟨members, hmembers⟩
    rw [toOption_eq_some, rangeMembers?_eq_ok] at hmembers
    have hwide : AsksFor (.text "16,1920,2") { least := 16, greatest := 1920, step := 2 } :=
      requestedRange?_eq_some.mp (by decide +kernel)
    have hnarrow : AsksFor (.text "32,1280,4") { least := 32, greatest := 1280, step := 4 } :=
      requestedRange?_eq_some.mp (by decide +kernel)
    have hmakes : Makes descriptor.record.schema { path := width, expected := .text "16,1920,2" }
        (.contains members { least := 16, greatest := 1920, step := 2 }) :=
      hschema.symm ▸ Makes.range hunresolved hmembers hwide
    exact .range hmakes rfl hnarrow (by decide) (by decide) (by decide)

end Matching
end VideoConfig
