import VideoConfig.Proofs.Location.Agreement

/-!
# Empty brackets

An array that is addressed without index is addressed as a whole, just as with empty
brackets behind it. So a path with a bare array and the path with empty brackets there have
the same outcome, whatever stands before and behind the array.
-/

namespace VideoConfig

namespace Path

def emptied (text : String) (position : Nat) : String :=
  String.ofList (['.'].intercalate
    ((Text.pieces '.' text.toList).modify position (· ++ ['[', ']'])))

theorem pieces_emptied (text : String) (position : Nat) :
    Text.pieces '.' (emptied text position).toList =
      (Text.pieces '.' text.toList).modify position (· ++ ['[', ']']) := by
  unfold emptied
  rw [String.toList_ofList]
  refine Text.pieces_modify ?_ _ position
  intro part hpart
  rw [List.mem_append, not_or]
  exact ⟨hpart, by decide⟩

theorem mapM_readPart_emptied {parts : List (List Char)} {ahead after : Path}
    {segment : Segment} (h : parts.mapM readPart = .ok (ahead ++ segment :: after))
    (hindex : segment.index = none) :
    (parts.modify ahead.length (· ++ ['[', ']'])).mapM readPart =
      .ok (ahead ++ segment.reindexed (some .all) :: after) := by
  rw [mapM_eq_ok_iff] at h ⊢
  induction ahead generalizing parts with
  | nil =>
      rcases List.forall₂_cons_right_iff.mp h with ⟨part, rest, hpart, hrest, rfl⟩
      rcases eq_name_of_readPart hpart hindex with ⟨_, hname⟩
      have hbare := readPart_bare hname
      rw [hpart] at hbare
      have hbrackets : readPart (part ++ ['[', ']']) =
          .ok (segment.reindexed (some .all)) := by
        rw [readPart_name hname (by decide), Except.ok.inj hbare]
        rfl
      exact .cons hbrackets hrest
  | cons first ahead ih =>
      rcases List.forall₂_cons_right_iff.mp h with ⟨part, rest, hpart, hrest, rfl⟩
      exact .cons hpart (ih hrest)

end Path

namespace Location

variable {schema : Schema} {target : Target}

/-!
## Walks
-/

theorem select_reindexed {field : Field} {segment : Segment} {index index' : Option Index}
    (harray : field.isArray = true) (hindex : index = none ∨ index = some .all)
    (hindex' : index' = none ∨ index' = some .all) :
    select field (segment.reindexed index) = select field (segment.reindexed index') := by
  unfold select Segment.reindexed
  rw [harray]
  rcases hindex with rfl | rfl <;> rcases hindex' with rfl | rfl <;> rfl

theorem Leads.reindex {before after : Path} (last : Segment) {type : RecordType}
    {place : Place} {location : Location} {field : Field} {index index' : Option Index}
    (hindex : index = none ∨ index = some .all)
    (hindex' : index' = none ∨ index' = some .all)
    (hfield : fieldAt? schema type before last = some field)
    (harray : field.isArray = true)
    (h : Leads schema target type place (before ++ last.reindexed index :: after) location) :
    Leads schema target type place (before ++ last.reindexed index' :: after) location := by
  induction before generalizing type place with
  | nil =>
      rw [List.nil_append] at h ⊢
      cases h with
      | leaf hfound hkind hselect henter hleaf =>
          cases hfield.symm.trans hfound
          rw [select_reindexed harray hindex hindex'] at hselect
          exact Leads.leaf hfound hkind hselect (enter_alike henter) (leaf_alike hleaf)
      | nested hfound hkind hinner hselect henter hrest =>
          cases hfield.symm.trans hfound
          rw [select_reindexed harray hindex hindex'] at hselect
          exact Leads.nested hfound hkind hinner hselect (enter_alike henter) hrest
  | cons first before ih =>
      rw [List.cons_append] at h ⊢
      rcases h.exists_nested (by simp) with
        ⟨_, _, inner, _, _, hfound, hkind, hinner, hselect, henter, hrest⟩
      simp only [fieldAt?, hfound, hkind, hinner, Option.bind_eq_bind, Option.bind_some] at hfield
      exact Leads.nested hfound hkind hinner hselect henter (ih hfield hrest)

/-!
## Starts

With another index on a segment that is not the name of an extension a path starts at the
same place, and the index stands on the segment that the one in front of the rest has
become.
-/

theorem expandAlias_eq_ok {full : String} {short : Segment} {rest expanded : Path} :
    expandAlias full short rest = .ok expanded <->
      exists path, Path.read full = .ok path ∧
        expanded = reindexLast short.index (path.map fun segment =>
          { segment with index := none, span := short.span }) ++ rest := by
  unfold expandAlias
  rcases Path.read full with (_ | _) | path <;> simp [eq_comm]

theorem extension_eq_ok {type : RecordType} {tag : Tag} {first : Segment} {rest : Path}
    {origin : Start} :
    Start.extension type tag first rest = .ok origin <->
      exists chosen, selector first = .ok chosen ∧ rest ≠ [] ∧
        origin = {
          target := .extension tag type.name type.size chosen, type, path := rest } := by
  constructor
  · intro h
    rcases bind_eq_ok.mp h with ⟨chosen, hchosen, h⟩
    split at h
    · cases h
    · next hne =>
        cases h
        exact ⟨chosen, hchosen, hne, rfl⟩
  · rintro ⟨chosen, hchosen, hne, rfl⟩
    exact bind_eq_ok.mpr ⟨chosen, hchosen, if_neg hne⟩

theorem Begins.reindex {front after : Path} {segment first : Segment} {rest : Path}
    {origin : Start} (hpath : first :: rest = front ++ segment :: after)
    (hhead : front = [] -> schema.base.field? segment.name = none ->
      schema.alias? segment.name = none -> extension? schema segment.name = none)
    (h : Begins schema first rest origin) :
    exists (before : Path) (last : Segment),
      origin.path = before ++ last.reindexed segment.index :: after ∧
      forall index first' rest', first' :: rest' = front ++ segment.reindexed index :: after ->
        Begins schema first' rest'
          { origin with path := before ++ last.reindexed index :: after } := by
  cases front with
  | nil =>
      rw [List.nil_append, List.cons.injEq] at hpath
      rcases hpath with ⟨rfl, rfl⟩
      cases h with
      | field hfield =>
          refine ⟨[], first, rfl, ?_⟩
          rintro index first' rest' ⟨⟩
          exact Begins.field hfield
      | short hfield halias hexpanded =>
          rcases expandAlias_eq_ok.mp hexpanded with ⟨path, hread, rfl⟩
          rcases List.eq_nil_or_concat path with hnil | ⟨before, last, rfl⟩
          · exact absurd hnil (Path.read_ne_nil hread)
          · rw [List.concat_eq_append, List.map_append, List.map_singleton] at *
            refine ⟨_, _, by rw [reindexLast_append, List.append_assoc]; rfl, ?_⟩
            rintro index first' rest' ⟨⟩
            refine Begins.short hfield halias ?_
            rw [expandAlias_eq_ok]
            refine ⟨_, hread, ?_⟩
            rw [List.map_append, List.map_singleton, reindexLast_append, List.append_assoc]
            rfl
      | extension hfield halias hextension _ =>
          rw [hhead rfl hfield halias] at hextension
          cases hextension
      | unknown hfield halias hextension =>
          refine ⟨[], first, rfl, ?_⟩
          rintro index first' rest' ⟨⟩
          exact Begins.unknown hfield halias hextension
  | cons head front =>
      rw [List.cons_append, List.cons.injEq] at hpath
      rcases hpath with ⟨rfl, rfl⟩
      cases h with
      | field hfield =>
          refine ⟨first :: front, segment, rfl, ?_⟩
          rintro index first' rest' ⟨⟩
          exact Begins.field hfield
      | short hfield halias hexpanded =>
          rcases expandAlias_eq_ok.mp hexpanded with ⟨path, hread, rfl⟩
          refine ⟨_, segment, by rw [← List.append_assoc]; rfl, ?_⟩
          rintro index first' rest' ⟨⟩
          refine Begins.short hfield halias ?_
          rw [expandAlias_eq_ok]
          exact ⟨path, hread, by rw [List.append_assoc]; rfl⟩
      | extension hfield halias hextension horigin =>
          rcases extension_eq_ok.mp horigin with ⟨chosen, hchosen, _, rfl⟩
          refine ⟨front, segment, rfl, ?_⟩
          rintro index first' rest' ⟨⟩
          exact Begins.extension hfield halias hextension
            (extension_eq_ok.mpr ⟨chosen, hchosen, by simp, rfl⟩)
      | unknown hfield halias hextension =>
          refine ⟨first :: front, segment, rfl, ?_⟩
          rintro index first' rest' ⟨⟩
          exact Begins.unknown hfield halias hextension

/-!
## Arrays

The first name of a path does not change with an index, and behind the name of an extension
stands what is walked there. So a bare array and the array with empty brackets agree in the
locations that they lead to.
-/

/-- Whether a segment of a path names an array: it is not the name of the base record in
front, and where the path is walked it stands, or the path of the short name that it is
ends, at an array. -/
structure NamesArray (schema : Schema) (ahead : Path) (segment : Segment) (after : Path) :
    Prop where
  unqualified : exists front,
    dropQualifier schema (ahead ++ segment :: after) = front ++ segment :: after
  array : forall origin, start schema (ahead ++ segment :: after) = .ok origin ->
    exists before last field, origin.path = before ++ last :: after ∧
      fieldAt? schema origin.type before last = some field ∧ field.isArray = true

theorem NamesArray.leads {ahead before after : Path} {segment last : Segment}
    {origin : Start} {location : Location} {index index' : Option Index}
    (h : NamesArray schema ahead segment after)
    (hstart : start schema (ahead ++ segment :: after) =
      .ok { origin with path := before ++ last.reindexed none :: after })
    (hindex : index = none ∨ index = some .all)
    (hindex' : index' = none ∨ index' = some .all)
    (hpath : origin.path = before ++ last.reindexed index :: after)
    (hleads : origin.LeadsTo schema location) :
    Start.LeadsTo schema
      { origin with path := before ++ last.reindexed index' :: after } location := by
  rcases h.array _ hstart with ⟨before', last', field, hbehind, hfield, harray⟩
  rcases List.append_inj' hbehind rfl with ⟨rfl, hlast⟩
  rw [List.cons.injEq] at hlast
  rw [← hlast.left] at hfield
  unfold Start.LeadsTo at hleads
  rw [hpath] at hleads
  exact Leads.reindex (last.reindexed none) hindex hindex' hfield harray hleads

theorem reindexed_none {segment : Segment} (h : segment.index = none) :
    segment.reindexed none = segment := by
  rcases segment with ⟨name, index, span⟩
  cases h
  rfl

theorem exists_head_reindexed {front after : Path} {segment first : Segment} {rest : Path}
    {index : Option Index} (index' : Option Index)
    (h : front ++ segment.reindexed index :: after = first :: rest) :
    exists first' rest', front ++ segment.reindexed index' :: after = first' :: rest' ∧
      first'.name = first.name := by
  cases front with
  | nil =>
      cases h
      exact ⟨_, _, rfl, rfl⟩
  | cons head front =>
      cases h
      exact ⟨_, _, rfl, rfl⟩

theorem Begins.extension_head {first : Segment} {rest : Path} {origin : Start}
    (h : Begins schema first rest origin) (hfield : schema.base.field? first.name = none)
    (halias : schema.alias? first.name = none) :
    extension? schema first.name = none ∨
      origin.path = rest ∧ exists chosen, selector first = .ok chosen := by
  cases h with
  | field hsome =>
      rw [hfield] at hsome
      cases hsome
  | short _ hsome _ =>
      rw [halias] at hsome
      cases hsome
  | extension _ _ _ horigin =>
      rcases extension_eq_ok.mp horigin with ⟨chosen, hchosen, _, rfl⟩
      exact Or.inr ⟨rfl, chosen, hchosen⟩
  | unknown _ _ hnone =>
      exact Or.inl hnone

theorem start_abandoned_reindexed {front after path path' : Path} {segment : Segment}
    {index index' : Option Index}
    (hdropped : dropQualifier schema path = front ++ segment.reindexed index :: after)
    (hdropped' : dropQualifier schema path' = front ++ segment.reindexed index' :: after)
    (h : start schema path = .error .abandoned) :
    start schema path' = .error .abandoned := by
  rcases start_eq_abandoned.mp h with ⟨first, rest, full, hpath, hfield, halias, hread⟩
  rcases exists_head_reindexed index' (hdropped.symm.trans hpath) with
    ⟨first', rest', hpath', hname⟩
  rw [← hname] at hfield halias
  exact start_eq_abandoned.mpr
    ⟨first', rest', full, hdropped'.trans hpath', hfield, halias, hread⟩

theorem NamesArray.ofPath_emptied {ahead front after : Path} {segment : Segment}
    {location : Location} (hindex : segment.index = none)
    (h : NamesArray schema ahead segment after)
    (hdropped : dropQualifier schema (ahead ++ segment :: after) = front ++ segment :: after) :
    ofPath schema (ahead ++ segment.reindexed (some .all) :: after) = .ok location <->
      ofPath schema (ahead ++ segment :: after) = .ok location := by
  have hdropped' := dropQualifier_reindexed .all hdropped
  rw [ofPath_eq_ok, ofPath_eq_ok]
  constructor
  · rintro ⟨origin, hstart, hleads⟩
    rcases start_eq_ok.mp hstart with ⟨first, rest, hpath, hbegins⟩
    rw [hdropped'] at hpath
    rcases hbegins.reindex hpath.symm (by
      rintro rfl hfield halias
      cases hpath
      rcases hbegins.extension_head hfield halias with hnone | ⟨_, chosen, hchosen⟩
      · exact hnone
      · cases hchosen) with ⟨before, last, hbehind, hother⟩
    rcases exists_head_reindexed none hpath with ⟨first', rest', hpath', _⟩
    have hbare := hother none first' rest' hpath'.symm
    rw [reindexed_none hindex] at hpath'
    have hstart' := start_eq_ok.mpr ⟨first', rest', hdropped.trans hpath', hbare⟩
    exact ⟨_, hstart', h.leads hstart' (Or.inr rfl) (Or.inl rfl) hbehind hleads⟩
  · rintro ⟨origin, hstart, hleads⟩
    rcases start_eq_ok.mp hstart with ⟨first, rest, hpath, hbegins⟩
    rw [hdropped] at hpath
    rcases hbegins.reindex hpath.symm (by
      rintro rfl hfield halias
      cases hpath
      rcases hbegins.extension_head hfield halias with hnone | ⟨hbehind, _⟩
      · exact hnone
      · -- Behind the name of an extension there is no segment for the name itself.
        rcases h.array origin hstart with ⟨before, last, _, hsplit, _⟩
        have hlength := congrArg List.length (hbehind.symm.trans hsplit)
        simp only [List.length_append, List.length_cons] at hlength
        omega) with ⟨before, last, hbehind, hother⟩
    rw [hindex] at hbehind
    have hbare := reindexed_none hindex
    rw [← hbare] at hpath
    rcases exists_head_reindexed (some .all) hpath with ⟨first', rest', hpath', _⟩
    have hstart' := start_eq_ok.mpr ⟨first', rest', hdropped'.trans hpath',
      hother (some .all) first' rest' hpath'.symm⟩
    refine ⟨_, hstart', h.leads ?_ (Or.inl rfl) (Or.inr rfl) hbehind hleads⟩
    rw [← hbehind]
    exact hstart

theorem outcome_ofPath_emptied {ahead after : Path} {segment : Segment}
    (hindex : segment.index = none) (harray : NamesArray schema ahead segment after) :
    outcome (ofPath schema (ahead ++ segment.reindexed (some .all) :: after)) =
      outcome (ofPath schema (ahead ++ segment :: after)) := by
  rcases harray.unqualified with ⟨front, hdropped⟩
  have hdropped' := dropQualifier_reindexed .all hdropped
  refine outcome_congr ?_ ?_
  · intro location
    exact harray.ofPath_emptied hindex hdropped
  · rw [ofPath_eq_abandoned, ofPath_eq_abandoned]
    have hbare : dropQualifier schema (ahead ++ segment :: after) =
        front ++ segment.reindexed none :: after := by
      rw [reindexed_none hindex]
      exact hdropped
    exact ⟨start_abandoned_reindexed hdropped' hbare,
      start_abandoned_reindexed hbare hdropped'⟩

theorem outcome_emptied {text : String} {ahead after : Path} {segment : Segment}
    (hread : Path.read text = .ok (ahead ++ segment :: after))
    (hindex : segment.index = none) (harray : NamesArray schema ahead segment after) :
    outcome (resolve schema (Path.emptied text ahead.length)) =
      outcome (resolve schema text) := by
  have hparts := Path.mapM_readPart_of_read hread
  have hemptied : (Text.pieces '.' (Path.emptied text ahead.length).toList).mapM Path.readPart =
      .ok ((ahead ++ segment.reindexed (some .all) :: after).map Segment.unplaced) := by
    rw [Path.pieces_emptied, List.map_append, List.map_cons]
    rw [List.map_append, List.map_cons] at hparts
    have hlength : ahead.length = (ahead.map Segment.unplaced).length := by simp
    rw [hlength]
    exact Path.mapM_readPart_emptied hparts hindex
  rw [outcome_resolve, outcome_resolve, hemptied, hparts]
  change outcome (ofPath schema (List.map Segment.unplaced _)) =
    outcome (ofPath schema (List.map Segment.unplaced _))
  rw [← outcome_ofPath_alike (alike_unplaced _), ← outcome_ofPath_alike (alike_unplaced _)]
  exact outcome_ofPath_emptied hindex harray

end Location
end VideoConfig
