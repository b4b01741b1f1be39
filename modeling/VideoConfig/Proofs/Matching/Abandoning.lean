import VideoConfig.Matching
import VideoConfig.Proofs.Access.Abandoning

/-!
# Operations that are abandoned

Matching is abandoned over the first path over which nothing can be told, unless a filter in
front of it rejects the descriptor. With that, the operations on properties are all told apart:
each of them ends in a result or in an error that is told, but over such a path, or where a
code of four characters has no place.
-/

namespace VideoConfig
namespace Matching

variable {schema : Schema}

/-!
## Filters one by one

The members of a range are looked up one after the other, and only as long as those before
are there.
-/

inductive UntoldMember (schema : Schema) (path : String) : List String -> Prop where
  | here {name : String} {rest : List String} :
      Location.Untold schema (path ++ "." ++ name) -> UntoldMember schema path (name :: rest)
  | later {name : String} {rest : List String} {location : Location} :
      member? schema path name = .ok location -> UntoldMember schema path rest ->
      UntoldMember schema path (name :: rest)

/-- A path over which matching is abandoned: nothing can be told over it, or it leads to nothing
itself and nothing can be told over a member of a range behind it. -/
inductive Untold (schema : Schema) (path : String) : Prop where
  | path : Location.Untold schema path -> Untold schema path
  | member {cause : AccessError} :
      resolve schema path = .error (.refused cause) ->
      UntoldMember schema path ["Min", "Max", "Step"] -> Untold schema path

theorem member?_eq_abandoned {path name : String} :
    member? schema path name = .error .abandoned <->
      Location.Untold schema (path ++ "." ++ name) := by
  rw [← Location.resolve_eq_abandoned]
  unfold member?
  rcases resolve schema (path ++ "." ++ name) with (_ | _) | location
  · simp
  · simp
  · dsimp only
    split <;> simp

theorem rangeMembers?_eq_abandoned {path : String} :
    rangeMembers? schema path = .error .abandoned <->
      UntoldMember schema path ["Min", "Max", "Step"] := by
  unfold rangeMembers?
  constructor
  · intro h
    rcases bind_eq_error.mp h with hleast | ⟨least, hleast, h⟩
    · exact UntoldMember.here (member?_eq_abandoned.mp hleast)
    refine UntoldMember.later hleast ?_
    rcases bind_eq_error.mp h with hgreatest | ⟨greatest, hgreatest, h⟩
    · exact UntoldMember.here (member?_eq_abandoned.mp hgreatest)
    refine UntoldMember.later hgreatest ?_
    rcases bind_eq_error.mp h with hstep | ⟨step, hstep, h⟩
    · exact UntoldMember.here (member?_eq_abandoned.mp hstep)
    split at h <;> cases h
  · intro h
    cases h with
    | here hleast =>
        exact bind_eq_error.mpr (Or.inl (member?_eq_abandoned.mpr hleast))
    | later hleast h =>
        refine bind_eq_error.mpr (Or.inr ⟨_, hleast, ?_⟩)
        cases h with
        | here hgreatest =>
            exact bind_eq_error.mpr (Or.inl (member?_eq_abandoned.mpr hgreatest))
        | later hgreatest h =>
            refine bind_eq_error.mpr (Or.inr ⟨_, hgreatest, ?_⟩)
            cases h with
            | here hstep =>
                exact bind_eq_error.mpr (Or.inl (member?_eq_abandoned.mpr hstep))
            | later _ h =>
                cases h

theorem UntoldMember.exists_untold {path : String} {names : List String}
    (h : UntoldMember schema path names) :
    exists name, name ∈ names ∧ Location.Untold schema (path ++ "." ++ name) := by
  induction h with
  | here huntold =>
      exact ⟨_, List.mem_cons_self, huntold⟩
  | later _ _ ih =>
      rcases ih with ⟨name, hname, huntold⟩
      exact ⟨name, List.mem_cons_of_mem _ hname, huntold⟩

theorem checkOf_eq_abandoned {filter : Filter} :
    checkOf schema filter = .error .abandoned <-> Untold schema filter.path := by
  constructor
  · intro h
    unfold checkOf at h
    split at h
    · next hresolve =>
        exact Untold.path (Location.resolve_eq_abandoned.mp hresolve)
    · split at h <;> cases h
    · next cause hresolve =>
        split at h
        · next hmembers =>
            exact Untold.member hresolve (rangeMembers?_eq_abandoned.mp hmembers)
        · cases h
        · split at h <;> cases h
  · intro h
    cases h with
    | path hpath =>
        simp only [checkOf, Location.resolve_eq_abandoned.mpr hpath]
    | member hresolve hmembers =>
        simp only [checkOf, hresolve, rangeMembers?_eq_abandoned.mpr hmembers]

theorem judge?_eq_none {descriptor : Descriptor} {filter : Filter} :
    judge? descriptor filter = none <-> Untold descriptor.record.schema filter.path := by
  rw [← checkOf_eq_abandoned]
  unfold judge?
  dsimp only
  rcases checkOf descriptor.record.schema filter with ((_ | _) | _) | check
  · simp
  · simp
  · simp
  · cases hshared : check.sharedTag? <;> simp [hshared]

/-!
## Filters one behind the other

The reading is abandoned over the first filter over whose path it is, if no filter in front
of it ends the reading.
-/

def ReadsOn (descriptor : Descriptor) (filter : Filter) : Prop :=
  exists judgement, judge? descriptor filter = some judgement ∧ judgement ≠ .rejected

theorem scan?_eq_none {descriptor : Descriptor} {filters : List Filter} :
    scan? descriptor filters = none <->
      exists before filter after, filters = before ++ filter :: after ∧
        (forall earlier, earlier ∈ before -> ReadsOn descriptor earlier) ∧
        Untold descriptor.record.schema filter.path := by
  constructor
  · intro h
    induction filters with
    | nil =>
        cases h
    | cons first rest ih =>
        have hlater : ReadsOn descriptor first -> scan? descriptor rest = none ->
            exists before filter after, first :: rest = before ++ filter :: after ∧
              (forall earlier, earlier ∈ before -> ReadsOn descriptor earlier) ∧
              Untold descriptor.record.schema filter.path := by
          intro hfirst hrest
          rcases ih hrest with ⟨before, filter, after, rfl, hbefore, hfilter⟩
          exact ⟨first :: before, filter, after, rfl,
            List.forall_mem_cons.mpr ⟨hfirst, hbefore⟩, hfilter⟩
        unfold scan? at h
        split at h
        · next hjudged =>
            exact ⟨[], first, rest, rfl, List.forall_mem_nil _, judge?_eq_none.mp hjudged⟩
        · cases h
        · next hjudged =>
            exact hlater ⟨_, hjudged, by simp⟩ h
        · next hjudged =>
            exact hlater ⟨_, hjudged, by simp⟩ (Option.map_eq_none_iff.mp h)
  · rintro ⟨before, filter, after, rfl, hbefore, hfilter⟩
    induction before with
    | nil =>
        rw [List.nil_append]
        unfold scan?
        rw [judge?_eq_none.mpr hfilter]
    | cons first before ih =>
        rcases List.forall_mem_cons.mp hbefore with ⟨⟨judgement, hjudged, haccepts⟩, hbefore⟩
        have hrest := ih hbefore
        rw [List.cons_append]
        unfold scan?
        rw [hjudged]
        cases judgement with
        | rejected =>
            exact absurd rfl haccepts
        | accepted =>
            exact hrest
        | shared tag check =>
            exact Option.map_eq_none_iff.mpr hrest

theorem matches?_eq_none {descriptor : Descriptor} {filters : List Filter} :
    matches? descriptor filters = none <->
      exists before filter after, filters = before ++ filter :: after ∧
        (forall earlier, earlier ∈ before -> ReadsOn descriptor earlier) ∧
        Untold descriptor.record.schema filter.path := by
  rw [← scan?_eq_none]
  exact Option.map_eq_none_iff

end Matching

namespace Record

/-- Where the operations on properties are abandoned. Resolving and getting are over paths over
which nothing can be told; setting and applying are also where the text is a code of four
characters that has no place in a buffer that is there, or that is attached for it; and matching
is over the first path that is reached and over which nothing can be told. Everywhere else they
end in a result or in an error. -/
theorem access_abandoned_iff {schema : Schema} {declarations : List Declaration}
    {aliases : List (String × String)} {record : Record}
    (hbuild : Schema.build declarations aliases = .ok schema)
    (hreachable : Reachable schema record) :
    (forall path, resolve schema path = .error .abandoned <-> Location.Untold schema path) ∧
      (forall path, record.get path = .error .abandoned <-> Location.Untold schema path) ∧
      (forall path value, (record.set path value).result = .error .abandoned <->
        Location.Untold schema path ∨ record.Misplaces 0 path value) ∧
      (forall path value, (record.apply path value).result = .error .abandoned <->
        Location.Untold schema path ∨ record.Misplaces 1 path value) ∧
      forall descriptor filters, descriptor.record = record ->
        (Matching.matches? descriptor filters = none <->
          exists before filter after, filters = before ++ filter :: after ∧
            (forall earlier, earlier ∈ before -> Matching.ReadsOn descriptor earlier) ∧
            Matching.Untold schema filter.path) := by
  have hbuilt := Schema.builtFrom_of_build hbuild
  have h := hreachable.wellFormed hbuilt
  refine ⟨fun _ => Location.resolve_eq_abandoned, fun _ => get_eq_abandoned h.schema_eq,
    fun _ _ => h.set_eq_abandoned hbuilt, fun _ _ => h.apply_eq_abandoned hbuilt, ?_⟩
  rintro descriptor filters rfl
  rw [Matching.matches?_eq_none, h.schema_eq]

/-- No operation ends in a result or an error over a path that opens with a character outside
ASCII. -/
theorem access_abandoned_accented :
    let record := new Catalog.implementationDescription
    resolve Catalog.implementationDescription "é" = .error .abandoned ∧
      record.get "é" = .error .abandoned ∧
      (record.set "é" "1").result = .error .abandoned ∧
      (record.apply "é" "1").result = .error .abandoned ∧
      Matching.matches? (Descriptor.new "gpu") [{ path := "é", expected := .text "1" }] = none := by
  decide +kernel

/-- A code of four characters has no place in a word of 16 bits, where a number has. -/
theorem access_abandoned_iff_code :
    let declarations : List Declaration :=
      [{ name := "Session", role := .base
         entries := [.field "Codec" (.scalar (.int ⟨false, .w16⟩)) [] .fourCC] }]
    exists schema, Schema.build declarations [] = .ok schema ∧
      ((new schema).set "Codec" "AVC ").result = .error .abandoned ∧
      (new schema).Misplaces 0 "Codec" "AVC " ∧ ¬ (new schema).Misplaces 0 "Codec" "7" := by
  intro declarations
  let schema := (Schema.build declarations []).toOption.getD Catalog.emptySchema
  have hbuild : Schema.build declarations [] = .ok schema :=
    Catalog.build_eq_ok (by decide +kernel)
  have hcode : ((new schema).set "Codec" "AVC ").result = .error .abandoned := by
    decide +kernel
  have hnumber : ((new schema).set "Codec" "7").result = .ok () := by
    decide +kernel
  have hreadable : resolve schema "Codec" ≠ .error .abandoned := by
    decide +kernel
  have hreachable : Reachable schema (new schema) := ⟨[], rfl⟩
  rcases access_abandoned_iff hbuild hreachable with ⟨hresolve, _, hset, _, _⟩
  refine ⟨schema, hbuild, hcode, ?_, ?_⟩
  · rcases (hset "Codec" "AVC ").mp hcode with huntold | hmisplaced
    · exact absurd ((hresolve "Codec").mpr huntold) hreadable
    · exact hmisplaced
  · intro hmisplaced
    have habandoned := (hset "Codec" "7").mpr (Or.inr hmisplaced)
    rw [hnumber] at habandoned
    cases habandoned

end Record
end VideoConfig
