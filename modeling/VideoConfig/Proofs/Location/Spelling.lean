import VideoConfig.Proofs.Location.Origin
import VideoConfig.Proofs.Path.Indexing

/-!
# Spellings of a path

Where a segment stands in its text counts for errors alone: paths with the same names and
indexes resolve to the same location.
-/

namespace VideoConfig

def Segment.reindexed (segment : Segment) (index : Option Index) : Segment :=
  { segment with index }

namespace Location

variable {schema : Schema}

/-!
## Walks
-/

theorem select_alike {field : Field} {first second : Segment} {selection : Selection}
    (halike : first.Alike second) (h : select field first = .ok selection) :
    select field second = .ok selection := by
  unfold select at h ⊢
  rw [← halike.index]
  split at h
  · exact h
  · cases h
  · exact h
  · exact h

theorem enter_alike {place place' : Place} {field : Field} {element : Nat}
    {first second : Segment} {selection : Selection}
    (h : enter place field element first selection = .ok place') :
    enter place field element second selection = .ok place' := by
  cases selection with
  | single =>
      exact h
  | text =>
      exact h
  | element indexes =>
      rcases bind_eq_ok.mp h with ⟨position, hposition, hplace⟩
      exact bind_eq_ok.mpr
        ⟨position, linearIndex_eq_ok.mpr (linearIndex_eq_ok.mp hposition), hplace⟩
  | each =>
      dsimp only [enter] at h ⊢
      split at h
      · cases h
      · exact h

theorem leaf_alike {target : Target} {place : Place} {field : Field}
    {first second : Segment} {selection : Selection} {location : Location}
    (h : leaf target place field first selection = .ok location) :
    leaf target place field second selection = .ok location := by
  dsimp only [leaf] at h ⊢
  split at h
  · cases h
  · exact h
  · exact h

theorem Leads.alike {target : Target} {type : RecordType} {place : Place}
    {first second : Path} {location : Location}
    (h : Leads schema target type place first location) (halike : first.Alike second) :
    Leads schema target type place second location := by
  induction h generalizing second with
  | leaf hfield hkind hselect henter hleaf =>
      cases halike with
      | cons hsegment hrest =>
          cases hrest
          rw [hsegment.name] at hfield
          exact Leads.leaf hfield hkind (select_alike hsegment hselect) (enter_alike henter)
            (leaf_alike hleaf)
  | nested hfield hkind hinner hselect henter _ ih =>
      cases halike with
      | cons hsegment hrest =>
          rw [hsegment.name] at hfield
          exact Leads.nested hfield hkind hinner (select_alike hsegment hselect)
            (enter_alike henter) (ih hrest)

/-!
## Starts

Starts are alike if they differ at most in where the segments stand in their text. Another
index than none on a segment keeps it from being dropped as the name of the base record.
-/

structure Start.Alike (first second : Start) : Prop where
  target : first.target = second.target
  type : first.type = second.type
  path : first.path.Alike second.path

theorem Start.base_alike {first second : Path} (h : first.Alike second) :
    (Start.base schema first).Alike (Start.base schema second) :=
  ⟨rfl, rfl, h⟩

theorem dropQualifier_alike {first second : Path} (h : first.Alike second) :
    (dropQualifier schema first).Alike (dropQualifier schema second) := by
  cases h with
  | nil =>
      exact List.Forall₂.nil
  | @cons segment other rest others hsegment hrest =>
      have hcondition :
          (segment.name = schema.base.name ∧ segment.index = none ∧ rest ≠ []) <->
            (other.name = schema.base.name ∧ other.index = none ∧ others ≠ []) := by
        rw [hsegment.name, hsegment.index]
        simp only [ne_eq, Path.Alike.eq_nil_iff hrest]
      unfold dropQualifier
      dsimp only
      split
      · next hqualified =>
          rw [if_pos (hcondition.mp hqualified)]
          exact hrest
      · next hqualified =>
          rw [if_neg fun h => hqualified (hcondition.mpr h)]
          exact List.Forall₂.cons hsegment hrest

theorem dropQualifier_reindexed {ahead front after : Path} {segment : Segment}
    (index : Index)
    (h : dropQualifier schema (ahead ++ segment :: after) = front ++ segment :: after) :
    dropQualifier schema (ahead ++ segment.reindexed (some index) :: after) =
      front ++ segment.reindexed (some index) :: after := by
  cases ahead with
  | nil =>
      have hfront : front = [] := by
        rw [List.nil_append] at h
        unfold dropQualifier at h
        dsimp only at h
        split at h
        · have hlength := congrArg List.length h
          simp only [List.length_append, List.length_cons] at hlength
          omega
        · have hlength := congrArg List.length h
          simp only [List.length_append, List.length_cons] at hlength
          exact List.length_eq_zero_iff.mp (by omega)
      rw [hfront]
      exact if_neg fun hqualified => by cases hqualified.right.left
  | cons first others =>
      rw [List.cons_append] at h ⊢
      unfold dropQualifier at h ⊢
      dsimp only at h ⊢
      split at h
      · next hqualified =>
          rw [if_pos ⟨hqualified.left, hqualified.right.left, by simp⟩,
            List.append_cancel_right h]
      · next hqualified =>
          have hfront : first :: others = front := List.append_cancel_right h
          rw [← hfront]
          exact if_neg fun h => hqualified ⟨h.left, h.right.left, by simp⟩

theorem reindexLast_alike {first second : Path} (index : Option Index)
    (h : first.Alike second) : (reindexLast index first).Alike (reindexLast index second) := by
  induction h with
  | nil =>
      exact List.Forall₂.nil
  | @cons segment other rest others hsegment hrest ih =>
      cases hrest with
      | nil =>
          exact List.Forall₂.cons ⟨hsegment.name, rfl⟩ List.Forall₂.nil
      | cons hnext hbehind =>
          exact List.Forall₂.cons hsegment ih

theorem expandAlias_alike {full : String} {first second : Segment} {rest others path : Path}
    (hsegment : first.Alike second) (hrest : rest.Alike others)
    (h : expandAlias full first rest = .ok path) :
    exists path', expandAlias full second others = .ok path' ∧ path.Alike path' := by
  unfold expandAlias at h ⊢
  cases hread : Path.read full with
  | error failure =>
      rw [hread] at h
      cases failure with
      | abandoned =>
          cases h
      | refused error =>
          cases h
  | ok segments =>
      rw [hread] at h
      cases h
      refine ⟨_, rfl, Path.Alike.append ?_ hrest⟩
      rw [hsegment.index]
      refine reindexLast_alike _ ?_
      unfold Path.Alike
      rw [List.forall₂_map_left_iff, List.forall₂_map_right_iff]
      exact List.forall₂_same.mpr fun _ _ => ⟨rfl, rfl⟩

theorem Start.extension_alike {type : RecordType} {tag : Tag} {first second : Segment}
    {rest others : Path} {origin : Start} (hsegment : first.Alike second)
    (hrest : rest.Alike others) (h : Start.extension type tag first rest = .ok origin) :
    exists origin', Start.extension type tag second others = .ok origin' ∧
      origin.Alike origin' := by
  rcases bind_eq_ok.mp h with ⟨chosen, hchosen, h⟩
  have hchosen' : selector second = .ok chosen := by
    unfold selector at hchosen ⊢
    rw [← hsegment.index]
    split at hchosen
    · exact hchosen
    · split at hchosen
      · next hlt =>
          rw [if_pos hlt]
          exact hchosen
      · cases hchosen
    · cases hchosen
  split at h
  · cases h
  · next hne =>
      cases h
      refine ⟨_, bind_eq_ok.mpr ⟨chosen, hchosen', if_neg ?_⟩, ⟨rfl, rfl, hrest⟩⟩
      exact fun hnil => hne (hrest.eq_nil_iff.mpr hnil)

/-- Where a walk begins, given the first segment behind the name of the base record. -/
inductive Begins (schema : Schema) (first : Segment) (rest : Path) : Start -> Prop where
  | field :
      (schema.base.field? first.name).isSome = true ->
      Begins schema first rest (.base schema (first :: rest))
  | short {full : String} {expanded : Path} :
      schema.base.field? first.name = none ->
      schema.alias? first.name = some full ->
      expandAlias full first rest = .ok expanded ->
      Begins schema first rest (.base schema expanded)
  | extension {type : RecordType} {tag : Tag} {origin : Start} :
      schema.base.field? first.name = none ->
      schema.alias? first.name = none ->
      extension? schema first.name = some (type, tag) ->
      Start.extension type tag first rest = .ok origin ->
      Begins schema first rest origin
  | unknown :
      schema.base.field? first.name = none ->
      schema.alias? first.name = none ->
      extension? schema first.name = none ->
      Begins schema first rest (.base schema (first :: rest))

theorem start_eq_ok {path : Path} {origin : Start} :
    start schema path = .ok origin <->
      exists first rest, dropQualifier schema path = first :: rest ∧
        Begins schema first rest origin := by
  unfold start
  cases dropQualifier schema path with
  | nil =>
      simp
  | cons first rest =>
      dsimp only
      constructor
      · intro h
        refine ⟨first, rest, rfl, ?_⟩
        split at h
        · next hfield =>
            cases h
            exact Begins.field hfield
        · next hfield =>
            rw [Bool.not_eq_true, Option.isSome_eq_false_iff, Option.isNone_iff_eq_none] at hfield
            split at h
            · next full halias =>
                rcases map_eq_ok.mp h with ⟨expanded, hexpanded, rfl⟩
                exact Begins.short hfield halias hexpanded
            · next halias =>
                split at h
                · next type tag hextension =>
                    exact Begins.extension hfield halias hextension (mapError_eq_ok.mp h)
                · next hextension =>
                    cases h
                    exact Begins.unknown hfield halias hextension
      · rintro ⟨first', rest', heq, hbegins⟩
        cases heq
        cases hbegins with
        | field hfield =>
            rw [if_pos hfield]
        | short hfield halias hexpanded =>
            rw [if_neg (by simp [hfield]), halias]
            exact map_eq_ok.mpr ⟨_, hexpanded, rfl⟩
        | extension hfield halias hextension horigin =>
            rw [if_neg (by simp [hfield]), halias]
            dsimp only
            rw [hextension]
            exact mapError_eq_ok.mpr horigin
        | unknown hfield halias hextension =>
            rw [if_neg (by simp [hfield]), halias]
            dsimp only
            rw [hextension]

theorem Begins.alike {first second : Segment} {rest others : Path} {origin : Start}
    (h : Begins schema first rest origin) (hsegment : first.Alike second)
    (hrest : rest.Alike others) :
    exists origin', Begins schema second others origin' ∧ origin.Alike origin' := by
  have hname := hsegment.name
  cases h with
  | field hfield =>
      rw [hname] at hfield
      exact ⟨_, Begins.field hfield, Start.base_alike (List.Forall₂.cons hsegment hrest)⟩
  | short hfield halias hexpanded =>
      rw [hname] at hfield halias
      rcases expandAlias_alike hsegment hrest hexpanded with ⟨expanded', hexpanded', hpath⟩
      exact ⟨_, Begins.short hfield halias hexpanded', Start.base_alike hpath⟩
  | extension hfield halias hextension horigin =>
      rw [hname] at hfield halias hextension
      rcases Start.extension_alike hsegment hrest horigin with ⟨origin', horigin', hpath⟩
      exact ⟨origin', Begins.extension hfield halias hextension horigin', hpath⟩
  | unknown hfield halias hextension =>
      rw [hname] at hfield halias hextension
      exact ⟨_, Begins.unknown hfield halias hextension,
        Start.base_alike (List.Forall₂.cons hsegment hrest)⟩

theorem start_alike {first second : Path} {origin : Start} (halike : first.Alike second)
    (h : start schema first = .ok origin) :
    exists origin', start schema second = .ok origin' ∧ origin.Alike origin' := by
  rcases start_eq_ok.mp h with ⟨segment, rest, hdropped, hbegins⟩
  have hpath : (dropQualifier schema first).Alike (dropQualifier schema second) :=
    dropQualifier_alike halike
  rw [hdropped] at hpath
  rcases List.forall₂_cons_left_iff.mp hpath with ⟨other, others, hsegment, hrest, hdropped'⟩
  rcases hbegins.alike hsegment hrest with ⟨origin', hbegins', horigin⟩
  exact ⟨origin', start_eq_ok.mpr ⟨other, others, hdropped', hbegins'⟩, horigin⟩

theorem Start.Alike.leadsTo {first second : Start} {location : Location}
    (halike : first.Alike second) (h : first.LeadsTo schema location) :
    second.LeadsTo schema location := by
  unfold Start.LeadsTo at h ⊢
  rw [← halike.target, ← halike.type]
  exact h.alike halike.path

theorem resolve_of_read {text : String} {read path : Path} {origin : Start}
    (hread : Path.read text = .ok read) (halike : read.Alike path)
    (hstart : start schema path = .ok origin) {location : Location} :
    resolve schema text = .ok location <-> origin.LeadsTo schema location := by
  rcases start_alike halike.symm hstart with ⟨origin', hstart', horigin⟩
  constructor
  · intro h
    rcases resolve_eq_ok.mp h with ⟨found, hfound, hleads⟩
    rcases origin?_eq_some.mp hfound with ⟨segments, hsegments, hstartFound⟩
    cases hread.symm.trans hsegments
    rcases start_alike halike hstartFound with ⟨same, hsame, hback⟩
    cases hstart.symm.trans hsame
    exact hback.leadsTo hleads
  · intro h
    exact resolve_eq_ok.mpr
      ⟨origin', origin?_eq_some.mpr ⟨_, hread, hstart'⟩, horigin.leadsTo h⟩

theorem resolve_eq_notFound {text : String} {read path : Path} {origin : Start}
    (hread : Path.read text = .ok read) (halike : read.Alike path)
    (hstart : start schema path = .ok origin)
    (h : forall location, ¬ origin.LeadsTo schema location) :
    exists obstacle span,
      resolve schema text = .error (.refused (.notFound text obstacle span)) := by
  rcases start_alike halike.symm hstart with ⟨origin', hstart', _⟩
  cases hresolve : resolve schema text with
  | ok location =>
      exact absurd ((resolve_of_read hread halike hstart).mp hresolve) (h location)
  | error failure =>
      rcases resolve_eq_error hresolve with rfl | ⟨obstacle, span, rfl⟩
      · unfold resolve at hresolve
        rw [hread] at hresolve
        rcases mapError_eq_error.mp hresolve with ⟨failure, hfailure, heq⟩
        cases failure with
        | refused refusal =>
            cases heq
        | abandoned =>
            rcases bind_eq_error.mp hfailure with hstarted | ⟨_, _, hfollow⟩
            · cases hstart'.symm.trans hstarted
            · exact absurd hfollow (mapError_refused_ne_abandoned _)
      · exact ⟨obstacle, span, rfl⟩

end Location
end VideoConfig
