import VideoConfig.Proofs.Catalog
import VideoConfig.Proofs.Matching.Abandoning
import VideoConfig.Proofs.Matching.Checks
import VideoConfig.Proofs.Record.Runs

/-!
# Verdicts on descriptors

A descriptor matches a list of filters exactly if it passes every filter on its own, and every
extension has one buffer on which all checks made without an index hold. Filters are read one
after the other and the first that rejects ends the reading, but the verdict does not depend
on their order.
-/

namespace VideoConfig
namespace Matching

/-!
## Filters one by one

A filter makes a check, or its path leads to nothing, or what it expects cannot be
represented where its path leads. It is judged by its check if that is made together with
others, and otherwise by whether the descriptor passes it.
-/

def Unresolved (schema : Schema) (path : String) : Prop :=
  forall location, resolve schema path ≠ .ok location

inductive Makes (schema : Schema) (filter : Filter) : Check -> Prop where
  | value {location : Location} {values : List Value} :
      resolve schema filter.path = .ok location ->
      Represents location filter.expected values ->
      Makes schema filter (.equals location values)
  | range {members : RangeMembers} {requested : NumberRange} :
      Unresolved schema filter.path ->
      RangeAt schema filter.path members ->
      AsksFor filter.expected requested ->
      Makes schema filter (.contains members requested)

/-- What a filter expects has no place where its path leads: the field cannot hold it, or it
is not a range. -/
inductive Unrepresentable (schema : Schema) (filter : Filter) : Prop where
  | value {location : Location} :
      resolve schema filter.path = .ok location ->
      (forall values, ¬ Represents location filter.expected values) ->
      Unrepresentable schema filter
  | range {members : RangeMembers} :
      Unresolved schema filter.path ->
      RangeAt schema filter.path members ->
      (forall requested, ¬ AsksFor filter.expected requested) ->
      Unrepresentable schema filter

/-- Whether a descriptor meets a filter, apart from checks that are made together. -/
structure Passes (descriptor : Descriptor) (filter : Filter) : Prop where
  representable : forall location,
    resolve descriptor.record.schema filter.path = .ok location ->
      exists values, Represents location filter.expected values
  range : Unresolved descriptor.record.schema filter.path ->
    forall members, RangeAt descriptor.record.schema filter.path members ->
      exists requested, AsksFor filter.expected requested
  live : Unresolved descriptor.record.schema filter.path ->
    (forall members, ¬ RangeAt descriptor.record.schema filter.path members) ->
      exists value, (filter.path, value) ∈ descriptor.live ∧ Agrees value filter.expected
  alone : forall check, Makes descriptor.record.schema filter check ->
    HoldsAlone descriptor.record check

def ReadableAliases (schema : Schema) : Prop :=
  forall entry, entry ∈ schema.aliases -> Path.read entry.2 ≠ .error .abandoned

section Checks

variable {schema : Schema} {filter : Filter}

theorem rangeMembers?_ne_abandoned (haliases : ReadableAliases schema) {path : String}
    (hpath : Path.read path ≠ .error .abandoned) :
    rangeMembers? schema path ≠ .error .abandoned := by
  rw [ne_eq, rangeMembers?_eq_abandoned]
  intro habandoned
  rcases habandoned.exists_untold with ⟨name, hmem, huntold⟩
  have hname : Path.isName name.toList = true := by
    simp only [List.mem_cons, List.not_mem_nil, or_false] at hmem
    rcases hmem with rfl | rfl | rfl <;> decide
  exact Location.resolve_ne_abandoned (Path.read_member_ne_abandoned hname hpath) haliases
    (Location.resolve_eq_abandoned.mpr huntold)

theorem checkOf_of_resolves {location : Location}
    (h : resolve schema filter.path = .ok location) :
    checkOf schema filter =
      match expectedValues? location filter.expected with
      | some expected => .ok (.equals location expected)
      | none => .error (.refused .unrepresentable) := by
  unfold checkOf
  cases hvalues : expectedValues? location filter.expected <;> simp only [h, hvalues]

theorem checkOf_of_rangeAt {members : RangeMembers}
    (hresolve : resolve schema filter.path ≠ .error .abandoned)
    (hunresolved : Unresolved schema filter.path)
    (h : RangeAt schema filter.path members) :
    checkOf schema filter =
      match requestedRange? filter.expected with
      | some requested => .ok (.contains members requested)
      | none => .error (.refused .unrepresentable) := by
  unfold checkOf
  split
  · next habandoned =>
      exact absurd habandoned hresolve
  · next location hlocation =>
      exact absurd hlocation (hunresolved location)
  · have hmembers := rangeMembers?_eq_ok.mpr h
    cases requestedRange? filter.expected <;> simp only [hmembers]

theorem checkOf_of_unresolved (haliases : ReadableAliases schema)
    (hpath : Path.read filter.path ≠ .error .abandoned)
    (hunresolved : Unresolved schema filter.path)
    (h : forall members, ¬ RangeAt schema filter.path members) :
    checkOf schema filter = .error (.refused .unresolved) := by
  unfold checkOf
  split
  · next habandoned =>
      exact absurd habandoned (Location.resolve_ne_abandoned hpath haliases)
  · next location hlocation =>
      exact absurd hlocation (hunresolved location)
  · split
    · next habandoned =>
        exact absurd habandoned (rangeMembers?_ne_abandoned haliases hpath)
    · rfl
    · next members hmembers =>
        exact absurd (rangeMembers?_eq_ok.mp hmembers) (h members)

theorem Makes.unique {check other : Check} (h : Makes schema filter check)
    (h' : Makes schema filter other) : check = other := by
  cases h with
  | value hlocation hvalues =>
      cases h' with
      | value hlocation' hvalues' =>
          cases hlocation.symm.trans hlocation'
          cases (expectedValues?_eq_some.mpr hvalues).symm.trans
            (expectedValues?_eq_some.mpr hvalues')
          rfl
      | range hunresolved _ _ =>
          exact absurd hlocation (hunresolved _)
  | range hunresolved hmembers hrequested =>
      cases h' with
      | value hlocation _ =>
          exact absurd hlocation (hunresolved _)
      | range _ hmembers' hrequested' =>
          cases (rangeMembers?_eq_ok.mpr hmembers).symm.trans
            (rangeMembers?_eq_ok.mpr hmembers')
          cases (requestedRange?_eq_some.mpr hrequested).symm.trans
            (requestedRange?_eq_some.mpr hrequested')
          rfl

theorem checkOf_cases (haliases : ReadableAliases schema)
    (hpath : Path.read filter.path ≠ .error .abandoned) :
    (exists check, Makes schema filter check ∧ checkOf schema filter = .ok check) ∨
      ((Unresolved schema filter.path ∧
          forall members, ¬ RangeAt schema filter.path members) ∧
        checkOf schema filter = .error (.refused .unresolved)) ∨
      (Unrepresentable schema filter ∧
        checkOf schema filter = .error (.refused .unrepresentable)) := by
  have hresolve := Location.resolve_ne_abandoned hpath haliases
  by_cases hlocation : exists location, resolve schema filter.path = .ok location
  · rcases hlocation with ⟨location, hlocation⟩
    rw [checkOf_of_resolves hlocation]
    cases hvalues : expectedValues? location filter.expected with
    | some values =>
        exact Or.inl ⟨_, Makes.value hlocation (expectedValues?_eq_some.mp hvalues), rfl⟩
    | none =>
        refine Or.inr (Or.inr ⟨Unrepresentable.value hlocation ?_, rfl⟩)
        intro values h
        rw [expectedValues?_eq_some.mpr h] at hvalues
        cases hvalues
  have hunresolved : Unresolved schema filter.path := not_exists.mp hlocation
  by_cases hrange : exists members, RangeAt schema filter.path members
  · rcases hrange with ⟨members, hmembers⟩
    rw [checkOf_of_rangeAt hresolve hunresolved hmembers]
    cases hrequested : requestedRange? filter.expected with
    | some requested =>
        exact Or.inl ⟨_, Makes.range hunresolved hmembers
          (requestedRange?_eq_some.mp hrequested), rfl⟩
    | none =>
        refine Or.inr (Or.inr ⟨Unrepresentable.range hunresolved hmembers ?_, rfl⟩)
        intro requested h
        rw [requestedRange?_eq_some.mpr h] at hrequested
        cases hrequested
  · have hnone := not_exists.mp hrange
    exact Or.inr (Or.inl ⟨⟨hunresolved, hnone⟩,
      checkOf_of_unresolved haliases hpath hunresolved hnone⟩)

end Checks

section Judgements

variable {descriptor : Descriptor} {filter : Filter}

theorem holdsAlone_of_onTag {record : Record} {check : Check} {tag : Tag}
    (h : check.OnTag tag) : HoldsAlone record check := by
  rcases h with ⟨name, size, htarget⟩
  constructor
  · intro heq
    rw [htarget] at heq
    cases heq
  · intro tag' name' size' k heq
    rw [htarget] at heq
    cases heq

theorem passes_iff_of_makes {check : Check}
    (h : Makes descriptor.record.schema filter check) :
    Passes descriptor filter <-> HoldsAlone descriptor.record check := by
  constructor
  · intro hpasses
    exact hpasses.alone check h
  · intro hholds
    constructor
    · intro location hlocation
      cases h with
      | value hlocation' hvalues =>
          cases hlocation'.symm.trans hlocation
          exact ⟨_, hvalues⟩
      | range hunresolved _ _ =>
          exact absurd hlocation (hunresolved location)
    · intro hunresolved members _
      cases h with
      | value hlocation _ =>
          exact absurd hlocation (hunresolved _)
      | range _ _ hrequested =>
          exact ⟨_, hrequested⟩
    · intro hunresolved hnone
      cases h with
      | value hlocation _ =>
          exact absurd hlocation (hunresolved _)
      | range _ hmembers _ =>
          exact absurd hmembers (hnone _)
    · intro other hother
      rw [← h.unique hother]
      exact hholds

theorem passes_iff_of_unresolved
    (hunresolved : Unresolved descriptor.record.schema filter.path)
    (hnone : forall members, ¬ RangeAt descriptor.record.schema filter.path members) :
    Passes descriptor filter <->
      exists value, (filter.path, value) ∈ descriptor.live ∧ Agrees value filter.expected := by
  constructor
  · intro hpasses
    exact hpasses.live hunresolved hnone
  · intro hlive
    constructor
    · intro location hlocation
      exact absurd hlocation (hunresolved location)
    · intro _ members hmembers
      exact absurd hmembers (hnone members)
    · intro _ _
      exact hlive
    · intro check hmakes
      cases hmakes with
      | value hlocation _ =>
          exact absurd hlocation (hunresolved _)
      | range _ hmembers _ =>
          exact absurd hmembers (hnone _)

theorem not_passes_of_unrepresentable
    (h : Unrepresentable descriptor.record.schema filter) : ¬ Passes descriptor filter := by
  intro hpasses
  cases h with
  | value hlocation hnone =>
      rcases hpasses.representable _ hlocation with ⟨values, hvalues⟩
      exact hnone values hvalues
  | range hunresolved hmembers hnone =>
      rcases hpasses.range hunresolved _ hmembers with ⟨requested, hrequested⟩
      exact hnone requested hrequested

theorem any_live_iff {path : String} {expected : Expectation} :
    ((descriptor.liveValues path).any fun value => liveMatches value expected) = true <->
      exists value, (path, value) ∈ descriptor.live ∧ Agrees value expected := by
  simp only [List.any_eq_true, liveMatches_iff, Descriptor.liveValues, List.mem_map,
    List.mem_filter, beq_iff_eq, Prod.exists]
  constructor
  · rintro ⟨value, ⟨name, value', ⟨hlive, rfl⟩, rfl⟩, hagrees⟩
    exact ⟨value', hlive, hagrees⟩
  · rintro ⟨value, hlive, hagrees⟩
    exact ⟨value, ⟨path, value, ⟨hlive, rfl⟩, rfl⟩, hagrees⟩

theorem judge?_cases (haliases : ReadableAliases descriptor.record.schema)
    (hpath : Path.read filter.path ≠ .error .abandoned) :
    (exists tag check, Makes descriptor.record.schema filter check ∧ check.OnTag tag ∧
        judge? descriptor filter = some (.shared tag check)) ∨
      ((forall check tag, Makes descriptor.record.schema filter check -> ¬ check.OnTag tag) ∧
        (Passes descriptor filter ∧ judge? descriptor filter = some .accepted ∨
          ¬ Passes descriptor filter ∧ judge? descriptor filter = some .rejected)) := by
  have hdecided : forall accepted : Bool, (accepted = true <-> Passes descriptor filter) ->
      Passes descriptor filter ∧
          some (if accepted then Judgement.accepted else .rejected) = some .accepted ∨
        ¬ Passes descriptor filter ∧
          some (if accepted then Judgement.accepted else .rejected) = some .rejected := by
    intro accepted h
    cases accepted with
    | true =>
        exact Or.inl ⟨h.mp rfl, rfl⟩
    | false =>
        exact Or.inr ⟨fun hpasses => absurd (h.mpr hpasses) (by decide), rfl⟩
  rcases checkOf_cases haliases hpath with
    ⟨check, hmakes, hcheck⟩ | ⟨⟨hunresolved, hnone⟩, hcheck⟩ | ⟨hunrepresentable, hcheck⟩
  · cases htag : check.sharedTag? with
    | some tag =>
        refine Or.inl ⟨tag, check, hmakes, Check.sharedTag?_eq_some.mp htag, ?_⟩
        simp only [judge?, hcheck, htag]
    | none =>
        refine Or.inr ⟨?_, ?_⟩
        · intro other tag hother hshared
          rw [← hmakes.unique hother] at hshared
          rw [Check.sharedTag?_eq_some.mpr hshared] at htag
          cases htag
        · simp only [judge?, hcheck, htag]
          exact hdecided _ ((any_candidates_iff htag).trans (passes_iff_of_makes hmakes).symm)
  · refine Or.inr ⟨?_, ?_⟩
    · intro check tag hmakes
      cases hmakes with
      | value hlocation _ =>
          exact absurd hlocation (hunresolved _)
      | range _ hmembers _ =>
          exact absurd hmembers (hnone _)
    · simp only [judge?, hcheck]
      exact hdecided _ (any_live_iff.trans (passes_iff_of_unresolved hunresolved hnone).symm)
  · have hfails := not_passes_of_unrepresentable hunrepresentable
    refine Or.inr ⟨?_, Or.inr ⟨hfails, ?_⟩⟩
    · intro check tag hmakes hshared
      exact hfails ((passes_iff_of_makes hmakes).mpr (holdsAlone_of_onTag hshared))
    · simp only [judge?, hcheck]

theorem judge?_ne_none (haliases : ReadableAliases descriptor.record.schema)
    (hpath : Path.read filter.path ≠ .error .abandoned) :
    judge? descriptor filter ≠ none := by
  rcases judge?_cases haliases hpath with
    ⟨tag, check, _, _, hjudge⟩ | ⟨_, ⟨_, hjudge⟩ | ⟨_, hjudge⟩⟩ <;> simp [hjudge]

theorem judge?_eq_shared (haliases : ReadableAliases descriptor.record.schema)
    (hpath : Path.read filter.path ≠ .error .abandoned) {tag : Tag} {check : Check} :
    judge? descriptor filter = some (.shared tag check) <->
      Makes descriptor.record.schema filter check ∧ check.OnTag tag := by
  rcases judge?_cases haliases hpath with
    ⟨tag', check', hmakes, hshared, hjudge⟩ | ⟨hnone, ⟨_, hjudge⟩ | ⟨_, hjudge⟩⟩
  · rw [hjudge]
    constructor
    · intro h
      cases h
      exact ⟨hmakes, hshared⟩
    · rintro ⟨hmakes', hshared'⟩
      rcases hmakes.unique hmakes'
      rcases hshared.unique hshared'
      rfl
  · rw [hjudge]
    constructor
    · intro h
      cases h
    · rintro ⟨hmakes, hshared⟩
      exact absurd hshared (hnone check tag hmakes)
  · rw [hjudge]
    constructor
    · intro h
      cases h
    · rintro ⟨hmakes, hshared⟩
      exact absurd hshared (hnone check tag hmakes)

theorem judge?_eq_rejected (haliases : ReadableAliases descriptor.record.schema)
    (hpath : Path.read filter.path ≠ .error .abandoned) :
    judge? descriptor filter = some .rejected <-> ¬ Passes descriptor filter := by
  rcases judge?_cases haliases hpath with
    ⟨tag, check, hmakes, hshared, hjudge⟩ | ⟨_, ⟨hpasses, hjudge⟩ | ⟨hfails, hjudge⟩⟩
  · have hpasses := (passes_iff_of_makes hmakes).mpr (holdsAlone_of_onTag hshared)
    simp [hjudge, hpasses]
  · simp [hjudge, hpasses]
  · simp [hjudge, hfails]

end Judgements

/-!
## Lists of filters

Reading a list of filters ends at one that rejects, or collects the checks that are made
together.
-/

section Lists

variable {descriptor : Descriptor} {filters : List Filter}

theorem scan?_cases (h : forall filter, filter ∈ filters -> judge? descriptor filter ≠ none) :
    ((exists filter, filter ∈ filters ∧ judge? descriptor filter = some .rejected) ∧
        scan? descriptor filters = some none) ∨
      ((forall filter, filter ∈ filters -> judge? descriptor filter ≠ some .rejected) ∧
        exists checks, scan? descriptor filters = some (some checks) ∧
          forall tag check, (tag, check) ∈ checks <->
            exists filter, filter ∈ filters ∧
              judge? descriptor filter = some (.shared tag check)) := by
  induction filters with
  | nil =>
      refine Or.inr ⟨List.forall_mem_nil _, [], rfl, ?_⟩
      simp
  | cons filter rest ih =>
      rcases List.forall_mem_cons.mp h with ⟨hfilter, hrest⟩
      rw [List.exists_mem_cons_iff, List.forall_mem_cons]
      simp only [List.exists_mem_cons_iff]
      cases hjudge : judge? descriptor filter with
      | none =>
          exact absurd hjudge hfilter
      | some judgement =>
          cases judgement with
          | rejected =>
              refine Or.inl ⟨Or.inl rfl, ?_⟩
              rw [scan?, hjudge]
          | accepted =>
              have hscan : scan? descriptor (filter :: rest) = scan? descriptor rest := by
                rw [scan?, hjudge]
              rw [hscan]
              simpa using ih hrest
          | shared tag check =>
              have hscan : scan? descriptor (filter :: rest) =
                  (scan? descriptor rest).map fun checks =>
                    checks.map fun checks => (tag, check) :: checks := by
                rw [scan?, hjudge]
              rw [hscan]
              rcases ih hrest with ⟨hrejected, hrest⟩ | ⟨haccepted, checks, hrest, hmem⟩
              · rw [hrest]
                exact Or.inl ⟨Or.inr hrejected, rfl⟩
              · rw [hrest]
                refine Or.inr ⟨⟨by simp, haccepted⟩, (tag, check) :: checks, rfl, ?_⟩
                intro tag' check'
                rw [List.mem_cons, hmem]
                simp [eq_comm]

theorem all_holdsAt_iff {record : Record} {checks : SharedChecks} {tag : Tag} {slot : Slot}
    (hcheck : exists check, (tag, check) ∈ checks) :
    (checks.all fun (other, check) => decide (other ≠ tag) || check.holdsAt record slot) =
        true <->
      exists buffer, record.buffer? slot = some buffer ∧
        forall check, (tag, check) ∈ checks -> check.Holds buffer := by
  have hall : (checks.all fun (other, check) =>
      decide (other ≠ tag) || check.holdsAt record slot) = true <->
        forall check, (tag, check) ∈ checks -> check.holdsAt record slot = true := by
    simp only [List.all_eq_true, Prod.forall, Bool.or_eq_true, decide_eq_true_eq]
    constructor
    · intro h check hcheck
      exact (h tag check hcheck).resolve_left fun hne => hne rfl
    · intro h other check hcheck
      by_cases hother : other = tag
      · rw [hother] at hcheck
        exact Or.inr (h check hcheck)
      · exact Or.inl hother
  rw [hall]
  simp only [Check.holdsAt_iff]
  constructor
  · intro h
    rcases hcheck with ⟨first, hfirst⟩
    rcases h first hfirst with ⟨buffer, hbuffer, _⟩
    refine ⟨buffer, hbuffer, ?_⟩
    intro check hcheck
    rcases h check hcheck with ⟨buffer', hbuffer', hholds⟩
    cases hbuffer.symm.trans hbuffer'
    exact hholds
  · rintro ⟨buffer, hbuffer, h⟩ check hcheck
    exact ⟨buffer, hbuffer, h check hcheck⟩

theorem holdTogether_iff {record : Record} {checks : SharedChecks} :
    holdTogether record checks = true <->
      forall tag, (exists check, (tag, check) ∈ checks) ->
        exists attachment, attachment ∈ record.attachments ∧ attachment.tag = tag ∧
          forall check, (tag, check) ∈ checks -> check.Holds attachment.bytes := by
  unfold holdTogether
  rw [List.all_eq_true]
  constructor
  · rintro h tag ⟨check, hcheck⟩
    rcases List.any_eq_true.mp (h (tag, check) hcheck) with ⟨slot, hslot, hholds⟩
    exact Record.exists_instances_iff.mp
      ⟨slot, hslot, (all_holdsAt_iff ⟨check, hcheck⟩).mp hholds⟩
  · rintro h ⟨tag, check⟩ hcheck
    have hslots := h tag ⟨check, hcheck⟩
    rw [← Record.exists_instances_iff (p := fun buffer =>
      forall check, (tag, check) ∈ checks -> check.Holds buffer)] at hslots
    rcases hslots with ⟨slot, hslot, hholds⟩
    exact List.any_eq_true.mpr ⟨slot, hslot, (all_holdsAt_iff ⟨check, hcheck⟩).mpr hholds⟩

/-- Whether a descriptor meets a list of filters: it passes each of them, and for every tag
there is one buffer on which all checks hold that are made on this tag without an index. -/
structure Meets (descriptor : Descriptor) (filters : List Filter) : Prop where
  each : forall filter, filter ∈ filters -> Passes descriptor filter
  together : forall tag,
    (exists filter, filter ∈ filters ∧
      exists check, Makes descriptor.record.schema filter check ∧ check.OnTag tag) ->
    exists attachment, attachment ∈ descriptor.record.attachments ∧ attachment.tag = tag ∧
      forall filter, filter ∈ filters ->
        forall check, Makes descriptor.record.schema filter check -> check.OnTag tag ->
          check.Holds attachment.bytes

theorem matches?_ne_none (haliases : ReadableAliases descriptor.record.schema)
    (hpaths : forall filter, filter ∈ filters -> Path.read filter.path ≠ .error .abandoned) :
    matches? descriptor filters ≠ none := by
  have hjudged : forall filter, filter ∈ filters -> judge? descriptor filter ≠ none :=
    fun filter hfilter => judge?_ne_none haliases (hpaths filter hfilter)
  unfold matches?
  rcases scan?_cases hjudged with ⟨_, hscan⟩ | ⟨_, checks, hscan, _⟩ <;> simp [hscan]

theorem matches?_eq_true (haliases : ReadableAliases descriptor.record.schema)
    (hpaths : forall filter, filter ∈ filters -> Path.read filter.path ≠ .error .abandoned) :
    matches? descriptor filters = some true <-> Meets descriptor filters := by
  have hjudged : forall filter, filter ∈ filters -> judge? descriptor filter ≠ none :=
    fun filter hfilter => judge?_ne_none haliases (hpaths filter hfilter)
  have hrejected : forall filter, filter ∈ filters ->
      (judge? descriptor filter = some .rejected <-> ¬ Passes descriptor filter) :=
    fun filter hfilter => judge?_eq_rejected haliases (hpaths filter hfilter)
  have hshared : forall filter, filter ∈ filters -> forall tag check,
      (judge? descriptor filter = some (.shared tag check) <->
        Makes descriptor.record.schema filter check ∧ check.OnTag tag) :=
    fun filter hfilter _ _ => judge?_eq_shared haliases (hpaths filter hfilter)
  unfold matches?
  rcases scan?_cases hjudged with ⟨⟨filter, hfilter, hjudge⟩, hscan⟩ | ⟨hnone, checks, hscan, hmem⟩
  · -- The reading ended at this filter, and those behind it cannot change the verdict.
    rw [hscan]
    constructor
    · intro h
      cases h
    · intro hmeets
      exact absurd (hmeets.each filter hfilter) ((hrejected filter hfilter).mp hjudge)
  · have hchecks : forall tag check, (tag, check) ∈ checks <->
        exists filter, filter ∈ filters ∧
          Makes descriptor.record.schema filter check ∧ check.OnTag tag := by
      intro tag check
      rw [hmem]
      exact exists_congr fun filter => and_congr_right fun hfilter =>
        hshared filter hfilter tag check
    rw [hscan, Option.map_some, Option.some.injEq, holdTogether_iff]
    constructor
    · intro h
      constructor
      · intro filter hfilter
        by_contra hfails
        exact hnone filter hfilter ((hrejected filter hfilter).mpr hfails)
      · rintro tag ⟨filter, hfilter, check, hmakes, honTag⟩
        rcases h tag ⟨check, (hchecks tag check).mpr ⟨filter, hfilter, hmakes, honTag⟩⟩ with
          ⟨attachment, hattached, htag, hholds⟩
        refine ⟨attachment, hattached, htag, ?_⟩
        intro other hother check' hmakes' honTag'
        exact hholds check' ((hchecks tag check').mpr ⟨other, hother, hmakes', honTag'⟩)
    · rintro hmeets tag ⟨check, hcheck⟩
      rcases (hchecks tag check).mp hcheck with ⟨filter, hfilter, hmakes, honTag⟩
      rcases hmeets.together tag ⟨filter, hfilter, check, hmakes, honTag⟩ with
        ⟨attachment, hattached, htag, hholds⟩
      refine ⟨attachment, hattached, htag, ?_⟩
      intro check' hcheck'
      rcases (hchecks tag check').mp hcheck' with ⟨other, hother, hmakes', honTag'⟩
      exact hholds other hother check' hmakes' honTag'

/-- Matching computes what filters mean. Over paths that can be read there is always a
verdict, and it is positive exactly if the descriptor meets the filters, whatever their order
and their kinds. -/
theorem verdict_iff_meets (descriptor : Descriptor) (filters : List Filter)
    (haliases : ReadableAliases descriptor.record.schema)
    (hpaths : forall filter, filter ∈ filters -> Path.read filter.path ≠ .error .abandoned) :
    exists accepted, matches? descriptor filters = some accepted ∧
      (accepted = true <-> Meets descriptor filters) := by
  have htrue := matches?_eq_true haliases hpaths
  cases hverdict : matches? descriptor filters with
  | none =>
      exact absurd hverdict (matches?_ne_none haliases hpaths)
  | some accepted =>
      rw [hverdict, Option.some.injEq] at htrue
      exact ⟨accepted, rfl, htrue⟩

end Lists

theorem readableAliases_implementationDescription :
    ReadableAliases Catalog.implementationDescription := by
  have hnone : Catalog.implementationDescription.aliases = [] := by
    decide +kernel
  intro entry hentry
  rw [hnone] at hentry
  cases hentry

/-- Filters of every kind on a description with two decoders, of which the second one meets
the filters without an index. -/
theorem verdict_iff_meets_decoders :
    let record := (Record.new Catalog.implementationDescription).run [
      .attachZeroed Catalog.decoderTag, .attachZeroed Catalog.decoderTag,
      .set "Impl" "2", .set "ImplName" "soft",
      .set "mfxDecoderDescription[1].decoder.CodecID" "AVC ",
      .set "mfxDecoderDescription[1].decoder.decprofile.decmemdesc.Width.Max" "4096"]
    let descriptor : Descriptor :=
      { name := "soft", record, live := [("threads", .u32 4), ("threads", .u32 8)] }
    let filters : List Filter := [
      { path := "mfxDecoderDescription.decoder.CodecID", expected := .text "AVC " },
      { path := "mfxImplDescription.ImplName", expected := .typed (.text "soft") },
      { path := "threads", expected := .text "8" },
      { path := "mfxDecoderDescription.decoder.decprofile.decmemdesc.Width",
        expected := .text "16,1920,2" },
      { path := "mfxDecoderDescription[0].decoder.MaxcodecLevel",
        expected := .typed (.int ⟨true, .w64⟩ 0) },
      { path := "Impl", expected := .typed (.u32 2) }]
    matches? descriptor filters = some true ∧ Meets descriptor filters := by
  intro record descriptor filters
  have hmatches : matches? descriptor filters = some true := by
    decide +kernel
  have hschema : record.schema = Catalog.implementationDescription :=
    (Record.Reachable.wellFormed
      (Schema.builtFrom_of_build Catalog.build_implementationDescription) ⟨_, rfl⟩).schema_eq
  have haliases : ReadableAliases descriptor.record.schema :=
    hschema.symm ▸ readableAliases_implementationDescription
  have hpaths : forall filter, filter ∈ filters ->
      Path.read filter.path ≠ .error .abandoned := by
    decide +kernel
  have hverdict := verdict_iff_meets descriptor filters haliases hpaths
  rw [hmatches] at hverdict
  rcases hverdict with ⟨accepted, hsome, hmeets⟩
  exact ⟨hmatches, hmeets.mp (Option.some.inj hsome).symm⟩

end Matching
end VideoConfig
