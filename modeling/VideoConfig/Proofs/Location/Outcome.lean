import VideoConfig.Proofs.Location.Spelling
import VideoConfig.Proofs.Path.Parts

/-!
# Outcomes of paths

Whether a path resolves, and to which location, depends on the names and indexes that its
parts are read as. The outcome of a text is that of the path without ranges that its parts
come to. A run is abandoned only over a text over which nothing can be told, that of the path
or that of a short name.
-/

namespace VideoConfig
namespace Location

variable {schema : Schema}

/-!
## Starts

At the start of a path a run is abandoned only over the text of a short name.
-/

theorem expandAlias_eq_abandoned {full : String} {short : Segment} {rest : Path} :
    expandAlias full short rest = .error .abandoned <->
      Path.read full = .error .abandoned := by
  unfold expandAlias
  rcases Path.read full with (_ | _) | _ <;> simp

theorem start_eq_abandoned {path : Path} :
    start schema path = .error .abandoned <->
      exists first rest full, dropQualifier schema path = first :: rest ∧
        schema.base.field? first.name = none ∧ schema.alias? first.name = some full ∧
        Path.read full = .error .abandoned := by
  unfold start
  cases dropQualifier schema path with
  | nil =>
      simp
  | cons first rest =>
      dsimp only
      constructor
      · intro h
        split at h
        · cases h
        · next hfield =>
            rw [Bool.not_eq_true, Option.isSome_eq_false_iff, Option.isNone_iff_eq_none] at hfield
            split at h
            · next full halias =>
                cases hexpanded : expandAlias full first rest with
                | ok expanded =>
                    rw [hexpanded] at h
                    cases h
                | error failure =>
                    cases failure with
                    | refused refusal =>
                        rw [hexpanded] at h
                        cases h
                    | abandoned =>
                        exact ⟨first, rest, full, rfl, hfield, halias,
                          expandAlias_eq_abandoned.mp hexpanded⟩
            · split at h
              · exact absurd h (mapError_refused_ne_abandoned _)
              · cases h
      · rintro ⟨first', rest', full, heq, hfield, halias, hread⟩
        cases heq
        rw [if_neg (by simp [hfield]), halias]
        dsimp only
        rw [expandAlias_eq_abandoned.mpr hread]
        rfl

theorem start_abandoned_alike {first second : Path} (halike : first.Alike second)
    (h : start schema first = .error .abandoned) :
    start schema second = .error .abandoned := by
  rcases start_eq_abandoned.mp h with ⟨segment, rest, full, hdropped, hfield, halias, hread⟩
  have hpath : (dropQualifier schema first).Alike (dropQualifier schema second) :=
    dropQualifier_alike halike
  rw [hdropped] at hpath
  rcases List.forall₂_cons_left_iff.mp hpath with ⟨other, others, hsegment, _, hdropped'⟩
  rw [hsegment.name] at hfield halias
  exact start_eq_abandoned.mpr ⟨other, others, full, hdropped', hfield, halias, hread⟩

theorem ofPath_eq_ok {path : Path} {location : Location} :
    ofPath schema path = .ok location <->
      exists origin, start schema path = .ok origin ∧ origin.LeadsTo schema location := by
  constructor
  · intro h
    rcases bind_eq_ok.mp h with ⟨origin, hstart, hfollow⟩
    exact ⟨origin, hstart, follow_eq_ok.mp (mapError_eq_ok.mp hfollow)⟩
  · rintro ⟨origin, hstart, hleads⟩
    exact bind_eq_ok.mpr ⟨origin, hstart, mapError_eq_ok.mpr (follow_eq_ok.mpr hleads)⟩

theorem ofPath_eq_abandoned {path : Path} :
    ofPath schema path = .error .abandoned <-> start schema path = .error .abandoned := by
  constructor
  · intro h
    rcases bind_eq_error.mp h with hstart | ⟨origin, _, hfollow⟩
    · exact hstart
    · exact absurd hfollow (mapError_refused_ne_abandoned _)
  · intro h
    exact bind_eq_error.mpr (Or.inl h)

/-!
## Paths over which nothing is told
-/

/-- A path over which nothing can be told: its own text is such, or it opens with a short name
for a text that is. -/
inductive Untold (schema : Schema) (path : String) : Prop where
  | text : Path.Untold path -> Untold schema path
  | shortName {segments rest : Path} {first : Segment} {full : String} :
      Path.read path = .ok segments -> dropQualifier schema segments = first :: rest ->
      schema.base.field? first.name = none -> schema.alias? first.name = some full ->
      Path.Untold full -> Untold schema path

theorem resolve_eq_abandoned {path : String} :
    resolve schema path = .error .abandoned <-> Untold schema path := by
  unfold resolve
  cases hread : Path.read path with
  | error failure =>
      cases failure with
      | abandoned =>
          exact iff_of_true rfl (Untold.text (Path.read_eq_abandoned.mp hread))
      | refused error =>
          refine iff_of_false (by simp) ?_
          rintro (huntold | ⟨hsegments, _, _, _, _⟩)
          · cases hread.symm.trans (Path.read_eq_abandoned.mpr huntold)
          · cases hread.symm.trans hsegments
  | ok segments =>
      dsimp only
      have hfailure : ((ofPath schema segments).mapError fun failure =>
          failure.map fun refusal => AccessError.notFound path refusal.obstacle refusal.span) =
            .error .abandoned <-> ofPath schema segments = .error .abandoned := by
        rcases ofPath schema segments with (_ | _) | _ <;> simp [Except.mapError]
      rw [hfailure, ofPath_eq_abandoned, start_eq_abandoned]
      constructor
      · rintro ⟨first, rest, full, hdropped, hfield, halias, hfull⟩
        exact Untold.shortName hread hdropped hfield halias (Path.read_eq_abandoned.mp hfull)
      · rintro (huntold | ⟨hsegments, hdropped, hfield, halias, hfull⟩)
        · cases hread.symm.trans (Path.read_eq_abandoned.mpr huntold)
        · cases hread.symm.trans hsegments
          exact ⟨_, _, _, hdropped, hfield, halias, Path.read_eq_abandoned.mpr hfull⟩

theorem resolve_ne_abandoned {path : String} (hpath : Path.read path ≠ .error .abandoned)
    (haliases : forall entry, entry ∈ schema.aliases -> Path.read entry.2 ≠ .error .abandoned) :
    resolve schema path ≠ .error .abandoned := by
  rw [ne_eq, resolve_eq_abandoned]
  rintro (huntold | ⟨_, _, _, halias, hfull⟩)
  · exact hpath (Path.read_eq_abandoned.mpr huntold)
  · rcases Option.map_eq_some_iff.mp halias with ⟨entry, hentry, rfl⟩
    have hmem := List.mem_reverse.mp (List.mem_of_find?_eq_some hentry)
    exact haliases entry hmem (Path.read_eq_abandoned.mpr hfull)

/-!
## Paths with the same names and indexes

They have the same outcome, so a text resolves as the path does that its parts come to.
-/

theorem outcome_ofPath_alike {first second : Path} (halike : first.Alike second) :
    outcome (ofPath schema first) = outcome (ofPath schema second) := by
  have hok : forall {first second : Path} {location : Location}, first.Alike second ->
      ofPath schema first = .ok location -> ofPath schema second = .ok location := by
    intro first second location halike h
    rcases ofPath_eq_ok.mp h with ⟨origin, hstart, hleads⟩
    rcases start_alike halike hstart with ⟨origin', hstart', horigin⟩
    exact ofPath_eq_ok.mpr ⟨origin', hstart', horigin.leadsTo hleads⟩
  refine outcome_congr ?_ ?_
  · intro location
    exact ⟨hok halike, hok halike.symm⟩
  · rw [ofPath_eq_abandoned, ofPath_eq_abandoned]
    exact ⟨start_abandoned_alike halike, start_abandoned_alike halike.symm⟩

theorem alike_unplaced (path : Path) : path.Alike (path.map Segment.unplaced) := by
  unfold Path.Alike
  rw [List.forall₂_map_right_iff]
  exact List.forall₂_same.mpr fun _ _ => ⟨rfl, rfl⟩

theorem outcome_resolve (schema : Schema) (text : String) :
    outcome (resolve schema text) =
      (Text.pieces '.' text.toList).mapM Path.readPart >>= fun path =>
        outcome (ofPath schema path) := by
  rw [← Path.outcome_read]
  unfold resolve
  rcases Path.read text with (error | _) | segments
  · rfl
  · rfl
  · dsimp only
    rw [outcome_mapError, outcome_ofPath_alike (alike_unplaced segments)]
    rfl

end Location
end VideoConfig
