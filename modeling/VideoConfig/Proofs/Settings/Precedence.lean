import Mathlib.Data.List.Induction
import VideoConfig.Proofs.Access.Assigning
import VideoConfig.Proofs.Settings.Reassigning

/-!
# Precedence in merged settings

The assignments of merged settings attach the same buffers as those of the user with those of
the project behind them, and none of them fails if none of those does. They also store the
same bytes, unless the place of a path that both assign tells: where an assignment that stands
behind it is written over the text of the project, or where that text does not reach as far as
the one of the user.
-/

namespace VideoConfig
namespace Record

variable {schema : Schema} {declarations : List Declaration}
  {aliases : List (String × String)} {record : Record}
variable {bytes : Target -> Nat -> Prop} {first second final final' : Record}

/-!
## A text that takes the place of another
-/

/-- A text that is applied last may as well be applied in the place of an earlier text for the
same property. The bytes agree if it is written over those of the earlier text, and nothing
behind this place is written over it. -/
theorem AgreeOn.replace (hbuilt : schema.BuiltFrom declarations aliases)
    (hcodes : schema.CodesFit) (h : record.WellFormed schema)
    {ahead behind : List (String × String)} {path text text' : String} {merged : Record}
    (hrun : record.assignAll true (ahead ++ (path, text) :: behind) = .ok merged)
    (hagree : AgreeOn schema bytes merged final)
    (happly : final.apply path text' = { record := final', result := .ok () }) :
    exists merged', record.assignAll true (ahead ++ (path, text') :: behind) = .ok merged' ∧
      AgreeOn schema (fun target k => bytes target k ∧
        (schema.Writes path text target k -> schema.Writes path text' target k) ∧
        (schema.Writes path text' target k ->
          forall entry, entry ∈ behind -> ¬ schema.Writes entry.1 entry.2 target k))
        merged' final' := by
  rcases assignAll_append.mp hrun with ⟨start, hahead, hrun⟩
  rcases assignAll_cons.mp hrun with ⟨early, hearly, hbehind⟩
  have hstart := (h.assignAll hbuilt hcodes hahead).left
  rcases (hstart.apply_eq_ok hbuilt hcodes).mp hearly with ⟨location, hresolve, _⟩
  rcases hstart.apply_holds hbuilt hcodes hearly hresolve with ⟨hearlyForm, hholds, _⟩
  -- The later text is applied in the place of the earlier one, and the rest behind it.
  rcases hstart.exists_apply hbuilt hcodes hstart hagree.right rfl hearly happly with
    ⟨early', hearly', _⟩
  have hself : AgreeOn schema (fun _ _ => True) start start := AgreeOn.refl hstart
  have hplaces := hself.apply_apart hbuilt hcodes hearly hearly'
  rcases hplaces.assignAll hbuilt hcodes hbehind with ⟨merged', hbehind', hmerged⟩
  refine ⟨merged', assignAll_append.mpr ⟨start, hahead, assignAll_cons.mpr
    ⟨early', hearly', hbehind'⟩⟩, ?_⟩
  -- At the end the buffer of the property is attached, so nothing more is.
  rcases hearlyForm.assignAll hbuilt hcodes hbehind with ⟨_, hholds', _⟩
  have hfinal : final.prepared location.target = final :=
    prepared_of_holds ((holds_tags hagree.tags).mp (hholds' _ hholds))
  rcases hagree.right.apply_holds hbuilt hcodes happly hresolve with ⟨hform, _, htags⟩
  refine ⟨hmerged.right, hform, ?_, ?_⟩
  · rw [← hmerged.tags, hagree.tags, htags, hfinal]
  · rintro target k ⟨hbytes, hreach, hover⟩
    by_cases hwrites : schema.Writes path text' target k
    · rcases hstart.apply_writes hbuilt hcodes hagree.right hearly' happly hwrites with
        ⟨byte, hbyte, hbyte'⟩
      rcases hplaces.right.assignAll hbuilt hcodes hbehind' with ⟨_, _, hkeeps⟩
      rw [hkeeps target k byte (hover hwrites) hbyte, hbyte']
    · have hunwritten : ¬ schema.Writes path text target k := fun h => hwrites (hreach h)
      rw [← hmerged.bytes target k ⟨trivial, hunwritten, hwrites⟩,
        hagree.bytes target k hbytes,
        hagree.right.apply_keeps hbuilt hcodes happly hresolve hwrites, hfinal]

end Record

/-!
## Merged settings
-/

/-- Whether the place of the paths that the user and the project both assign makes no
difference for a byte: the text of the project is written over the byte if that of the user
is, and then no assignment between the two is written over it. -/
def Schema.Undisturbed (schema : Schema) (user project : List (String × String))
    (target : Target) (k : Nat) : Prop :=
  forall before path text between ahead text' behind,
    user = before ++ (path, text) :: between -> project = ahead ++ (path, text') :: behind ->
      (schema.Writes path text target k -> schema.Writes path text' target k) ∧
      (schema.Writes path text' target k -> forall entry, entry ∈ between ++ ahead ->
        ¬ schema.Writes entry.1 entry.2 target k)

theorem Schema.Undisturbed.of_append {schema : Schema} {user project more : List (String × String)}
    {target : Target} {k : Nat} (h : schema.Undisturbed user (project ++ more) target k) :
    schema.Undisturbed user project target k := by
  intro before path text between ahead text' behind huser hproject
  refine h before path text between ahead text' (behind ++ more) huser ?_
  rw [hproject, List.append_assoc, List.cons_append]

namespace Record

variable {schema : Schema} {declarations : List Declaration}
  {aliases : List (String × String)} {record : Record}

theorem WellFormed.assignAll_merged (hbuilt : schema.BuiltFrom declarations aliases)
    (hcodes : schema.CodesFit) (h : record.WellFormed schema)
    {user project : List (String × String)} (hnodup : (project.map Prod.fst).Nodup)
    {final : Record} (hrun : record.assignAll true (user ++ project) = .ok final) :
    exists merged, record.assignAll true (project.foldl reassign user) = .ok merged ∧
      AgreeOn schema (schema.Undisturbed user project) merged final := by
  induction project using List.reverseRecOn generalizing final with
  | nil =>
      rw [List.append_nil] at hrun
      exact ⟨final, hrun, AgreeOn.refl (h.assignAll hbuilt hcodes hrun).left⟩
  | append_singleton project entry ih =>
      rcases entry with ⟨path, text'⟩
      rw [← List.append_assoc] at hrun
      rcases assignAll_append.mp hrun with ⟨between, hbetween, hlast⟩
      rw [assignAll_single] at hlast
      rw [List.map_append, List.nodup_append'] at hnodup
      have hnew : path ∉ project.map Prod.fst := by
        intro hmem
        exact hnodup.right.right hmem (List.mem_singleton.mpr rfl)
      rcases ih hnodup.left hbetween with ⟨merged, hmerged, hagree⟩
      have hagree' : AgreeOn schema (schema.Undisturbed user (project ++ [(path, text')]))
          merged between := hagree.imp fun target k hk => hk.of_append
      rw [List.foldl_append, List.foldl_cons, List.foldl_nil]
      by_cases hmem : path ∈ user.map Prod.fst
      · -- The path keeps the place of the user's text, behind which little may happen.
        rcases exists_first_assignment hmem with ⟨before, text, rest, rfl, hbefore⟩
        rcases exists_foldl_reassign text rest hbefore hnew with
          ⟨ahead, behind, hplaces, hahead, hbehind⟩
        rw [hplaces] at hmerged
        rcases hagree'.replace hbuilt hcodes h hmerged hlast with ⟨merged', hmerged', hfinal⟩
        have hreplaced : reassign (ahead ++ (path, text) :: behind) (path, text') =
            ahead ++ (path, text') :: behind := by
          rw [reassign_append_of_not_mem hahead, reassign, if_pos rfl]
        rw [hplaces, hreplaced]
        refine ⟨merged', hmerged', hfinal.imp ?_⟩
        intro target k hk
        rcases hk before path text rest project text' [] rfl rfl with ⟨hreach, hover⟩
        exact ⟨hk, hreach, fun hwrites entry hentry =>
          hover hwrites entry (hbehind entry hentry)⟩
      · have hunset : path ∉ (project.foldl reassign user).map Prod.fst := by
          intro hset
          rcases paths_foldl_reassign hset with hset | hset
          · exact hmem hset
          · exact hnew hset
        rw [reassign_of_not_mem hunset]
        rcases hagree'.symm.apply hbuilt hcodes hlast with ⟨merged', hmerged', hfinal⟩
        exact ⟨merged', assignAll_append.mpr ⟨merged, hmerged, assignAll_single.mpr hmerged'⟩,
          hfinal.symm⟩

theorem AgreeOn.get_eq (hbuilt : schema.BuiltFrom declarations aliases)
    {bytes : Target -> Nat -> Prop} {first second : Record}
    (h : AgreeOn schema bytes first second) {path : String} {location : Location}
    (hresolve : resolve schema path = .ok location)
    (hcovers : forall k, location.region.Covers k -> bytes location.target k) :
    first.get path = second.get path := by
  refine h.left.get_congr hbuilt h.right h.tags hresolve ?_
  intro slot before after hslot hbefore hafter k hk
  have hbyte := h.bytes location.target k (hcovers k hk)
  have hslotFirst : first.negotiate path location = .ok slot :=
    (negotiate_congr h.tags).trans hslot
  unfold byteOf? at hbyte
  rwa [bufferOf?_of_negotiate hslotFirst, bufferOf?_of_negotiate hslot, hbefore, hafter] at hbyte

end Record

namespace Settings

open Record

/-- Where the assignments of the user and behind them those of the project all succeed, from
any record that a run leads to, the assignments of the merged settings succeed as well and
attach the same buffers. A property has the same values unless one of its bytes is disturbed:
some path is assigned by both, and either the text of the user reaches the byte and that of the
project does not, or that of the project does and another assignment between the two as well. -/
theorem get_merged {schema : Schema} {declarations : List Declaration}
    {aliases : List (String × String)}
    (hbuild : Schema.build declarations aliases = .ok schema) (hcodes : schema.CodesFit)
    {record : Record} (hreachable : Reachable schema record) {user project : Settings}
    (hnodup : (project.params.map Prod.fst).Nodup) {given added : List (String × String)}
    (huser : user.assignments = .ok given) (hproject : project.assignments = .ok added)
    {final : Record} (hrun : record.assignAll true (given ++ added) = .ok final) :
    exists assignments merged, (user.merge project).assignments = .ok assignments ∧
      record.assignAll true assignments = .ok merged ∧ merged.tags = final.tags ∧
      forall path location, resolve schema path = .ok location ->
        (forall k, location.region.Covers k ->
          schema.Undisturbed given added location.target k) ->
          merged.get path = final.get path := by
  have hbuilt := Schema.builtFrom_of_build hbuild
  have hpaths : added.map Prod.fst = project.params.map Prod.fst :=
    paths_of_assignments hproject
  rw [← hpaths] at hnodup
  rcases (hreachable.wellFormed hbuilt).assignAll_merged hbuilt hcodes hnodup hrun with
    ⟨merged, hmerged, hagree⟩
  refine ⟨_, merged, assignments_merge huser hproject, hmerged, hagree.tags, ?_⟩
  intro path location hresolve hcovers
  exact hagree.get_eq hbuilt hresolve hcovers

/-- A width that the user and the project set, and a height that only the project sets. -/
theorem get_merged_width :
    let user := { empty with params := [("Width", .integer 640)] }
    let project := { empty with params := [("Width", .integer 1920), ("Height", .integer 1080)] }
    exists assignments merged final, (user.merge project).assignments = .ok assignments ∧
      (Record.new Catalog.videoParameters).assignAll true assignments = .ok merged ∧
      (Record.new Catalog.videoParameters).assignAll true
        [("Width", "640"), ("Width", "1920"), ("Height", "1080")] = .ok final ∧
      merged.get "Width" = final.get "Width" := by
  intro user project
  have hfacts : user.assignments.toOption = some [("Width", "640")] ∧
      project.assignments.toOption = some [("Width", "1920"), ("Height", "1080")] ∧
      ((Record.new Catalog.videoParameters).assignAll true
        [("Width", "640"), ("Width", "1920"), ("Height", "1080")]).toOption.isSome = true ∧
      (project.params.map Prod.fst).Nodup ∧
      (resolve Catalog.videoParameters "Width").toOption.map Location.count = some 1 ∧
      (((resolve Catalog.videoParameters "Width").toOption.bind fun location =>
        (location.payload "1920").toOption)).isSome = true := by
    decide +kernel
  rcases hfacts with ⟨huser, hproject, hrun, hnodup, hcount, hpayload⟩
  rcases Option.isSome_iff_exists.mp hrun with ⟨final, hrun⟩
  rcases Option.map_eq_some_iff.mp hcount with ⟨width, hwidth, hcount⟩
  rw [hwidth] at hpayload
  change (width.payload "1920").toOption.isSome = true at hpayload
  rcases Option.isSome_iff_exists.mp hpayload with ⟨payload', hpayload⟩
  rw [toOption_eq_some] at huser hproject hrun hwidth hpayload
  rcases get_merged Catalog.build_videoParameters (by decide +kernel) ⟨[], rfl⟩ hnodup huser
    hproject hrun with ⟨assignments, merged, hassignments, hmerged, _, hget⟩
  refine ⟨assignments, merged, final, hassignments, hmerged, hrun, ?_⟩
  refine hget "Width" width hwidth ?_
  -- Both texts for the width are one value, and nothing is assigned between them.
  intro k _ before path text between ahead text' behind hgiven hadded
  rcases List.singleton_eq_append_iff.mp hgiven with ⟨rfl, hgiven⟩ | ⟨_, hnil⟩
  · cases hgiven
    rcases List.cons_eq_append_iff.mp hadded with ⟨rfl, hfirst⟩ | ⟨others, _, hothers⟩
    · cases hfirst
      constructor
      · rintro ⟨location, payload, hresolve, hpayload₀, hbuffer, htouches⟩
        cases hresolve.symm.trans hwidth
        exact ⟨width, payload', hwidth, hpayload, hbuffer,
          Location.touches_of_single hpayload₀ hpayload hcount htouches⟩
      · intro _ entry hentry
        cases hentry
    · have hmem : ("Width", text') ∈ [("Height", "1080")] := by
        rw [hothers]
        exact List.mem_append_right _ List.mem_cons_self
      rcases Prod.mk.inj (List.mem_singleton.mp hmem) with ⟨hpath, _⟩
      exact absurd hpath (by decide)
  · cases hnil

/-- The user sets the width twice, by its short name and by its path, and the project once by
the short name. One list behind the other ends with the width of the project, and the merged
settings with one of the user. -/
theorem get_merged_ne_width :
    let user := { empty with
      params := [("Width", .integer 640), ("mfx.FrameInfo.Width", .integer 1280)] }
    let project := { empty with params := [("Width", .integer 1920)] }
    let start := Record.new Catalog.videoParameters
    let assigned (settings : Settings) := settings.assignments.toOption.getD []
    let width (assignments : List (String × String)) := do
      let record ← (start.assignAll true assignments).toOption
      (record.get "Width").toOption
    width (assigned user ++ assigned project) = some [Value.ofInt ⟨false, .w16⟩ 1920] ∧
      width (assigned (user.merge project)) = some [Value.ofInt ⟨false, .w16⟩ 1280] := by
  decide +kernel

end Settings
end VideoConfig
