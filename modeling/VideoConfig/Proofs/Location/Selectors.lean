import VideoConfig.Proofs.Location.Agreement

/-!
# Selectors

An index behind the name of an extension selects one of its buffers. It does not change
which field the path leads to, and only a single number below the limit is an index there.
-/

namespace VideoConfig
namespace Path

theorem readSuffix_bracketsText {brackets : List (Option Nat)} {index : Option Index}
    (h : readSuffix (bracketsText brackets) = .ok index) : combine? brackets = some index := by
  rcases bind_eq_ok.mp h with ⟨found, hfound, hindex⟩
  rcases readBrackets_bracketsText.mp (outcome_eq_ok.mp hfound) with ⟨_, rfl⟩
  split at hindex
  · next hcombine =>
      rw [hcombine, pure_eq_ok.mp hindex]
  · cases hindex

theorem readSuffix_single {k : Nat} (hk : k < indexLimit) :
    readSuffix (bracketsText [some k]) = .ok (some (.element [k])) := by
  have hfound : readBrackets 0 .outside (bracketsText [some k]) = .ok [some k] :=
    readBrackets_bracketsText.mpr ⟨by simpa using hk, rfl⟩
  unfold readSuffix
  rw [hfound]
  rfl

theorem readSuffix_ne_abandoned (suffix : List Char) :
    readSuffix suffix ≠ .error .abandoned := by
  intro h
  rcases bind_eq_error.mp h with h | ⟨found, _, h⟩
  · exact readBrackets_ne_abandoned _ _ (outcome_eq_abandoned.mp h)
  · split at h <;> cases h

end Path

namespace Location

def retargeted (target : Target) (location : Location) : Location :=
  { location with target }

variable {schema : Schema}

/-!
## Walks in another buffer

Where a walk leads to in a buffer does not depend on how the buffer is addressed.
-/

theorem leaf_retargeted (target target' : Target) {place : Place} {field : Field}
    {segment : Segment} {selection : Selection} :
    leaf target' place field segment selection =
      (leaf target place field segment selection).map (retargeted target') := by
  dsimp only [leaf]
  split <;> rfl

theorem follow_retargeted (target target' : Target) {type : RecordType} {place : Place}
    {path : Path} :
    follow schema target' type place path =
      (follow schema target type place path).map (retargeted target') := by
  induction path generalizing type place with
  | nil =>
      rfl
  | cons segment rest ih =>
      unfold follow
      cases type.field? segment.name with
      | none =>
          rfl
      | some field =>
          dsimp only
          split
          · next name hkind =>
              cases schema.record? name with
              | none =>
                  rfl
              | some inner =>
                  dsimp only
                  split
                  · rfl
                  · cases select field segment with
                    | error refusal =>
                        rfl
                    | ok selection =>
                        change (enter place field inner.size segment selection >>= _) =
                          Except.map _ (enter place field inner.size segment selection >>= _)
                        cases enter place field inner.size segment selection with
                        | error refusal =>
                            rfl
                        | ok place' =>
                            exact ih
          · split
            · rfl
            · cases select field segment with
              | error refusal =>
                  rfl
              | ok selection =>
                  change (enter place field field.size segment selection >>= _) =
                    Except.map _ (enter place field field.size segment selection >>= _)
                  cases enter place field field.size segment selection with
                  | error refusal =>
                      rfl
                  | ok place' =>
                      exact leaf_retargeted target target'

/-!
## Starts at an extension

With a selector behind the name the same path is walked in the buffer that is selected.
-/

/-- The name of an extension: neither a field of the base record nor a short name is called
so, nor the base record itself. -/
structure NamesExtension (schema : Schema) (name : String) (type : RecordType) (tag : Tag) :
    Prop where
  isName : Path.isName name.toList = true
  found : extension? schema name = some (type, tag)
  field : schema.base.field? name = none
  short : schema.alias? name = none
  base : name ≠ schema.base.name

theorem start_of_namesExtension {name : String} {type : RecordType} {tag : Tag}
    (h : NamesExtension schema name type tag) (index : Option Index) (rest : Path) :
    start schema (Segment.plain name.toList index :: rest) =
      (Start.extension type tag (Segment.plain name.toList index) rest).mapError .refused := by
  have hname : (Segment.plain name.toList index).name = name := String.ofList_toList
  have hkept : dropQualifier schema (Segment.plain name.toList index :: rest) =
      Segment.plain name.toList index :: rest := by
    refine dropQualifier_of_name_ne ?_
    rw [hname]
    exact h.base
  unfold start
  rw [hkept]
  dsimp only
  rw [hname, h.field, h.short, h.found]
  rfl

theorem ofPath_of_selector {name : String} {type : RecordType} {tag : Tag}
    (h : NamesExtension schema name type tag) {index : Option Index} {chosen : Option Nat}
    (hchosen : selector (Segment.plain name.toList index) = .ok chosen) {rest : Path}
    (hne : rest ≠ []) :
    ofPath schema (Segment.plain name.toList index :: rest) =
      (follow schema (.extension tag type.name type.size chosen) type
        { offset := 0, projection := none } rest).mapError .refused := by
  unfold ofPath
  rw [start_of_namesExtension h]
  unfold Start.extension
  rw [hchosen]
  change (Except.mapError _ (if rest = [] then _ else _) >>= _) = _
  rw [if_neg hne]
  rfl

theorem outcome_of_not_selector {name : String} {type : RecordType} {tag : Tag}
    (h : NamesExtension schema name type tag) {index : Option Index}
    (hrefused : forall chosen, selector (Segment.plain name.toList index) ≠ .ok chosen)
    (rest : Path) :
    outcome (ofPath schema (Segment.plain name.toList index :: rest)) =
      .error (.refused ()) := by
  unfold ofPath
  rw [start_of_namesExtension h]
  unfold Start.extension
  cases hselector : selector (Segment.plain name.toList index) with
  | error refusal =>
      rfl
  | ok chosen =>
      exact absurd hselector (hrefused chosen)

/-!
## Texts behind an extension

A text that is empty or starts with a point cuts off what stands in front of it. A selector
selects another buffer and changes nothing else; without one a path leads into a buffer of
the extension and selects none.
-/

theorem exists_pieces_of_head {tail : List Char}
    (h : forall c, tail.head? = some c -> c = '.') :
    exists parts, Text.pieces '.' tail = [] :: parts := by
  cases tail with
  | nil =>
      exact ⟨[], rfl⟩
  | cons c rest =>
      refine ⟨Text.pieces '.' rest, ?_⟩
      rw [Text.pieces, if_pos (h c rfl)]

theorem outcome_brackets {name tail : String} {type : RecordType} {tag : Tag}
    {parts : List (List Char)} (h : NamesExtension schema name type tag)
    (hparts : Text.pieces '.' tail.toList = [] :: parts) (brackets : List (Option Nat)) :
    outcome (resolve schema (name ++ String.ofList (Path.bracketsText brackets) ++ tail)) =
      Path.readSuffix (Path.bracketsText brackets) >>= fun index =>
        parts.mapM Path.readPart >>= fun rest =>
          outcome (ofPath schema (Segment.plain name.toList index :: rest)) := by
  have hpoint : '.' ∉ name.toList ++ Path.bracketsText brackets := by
    rw [List.mem_append, not_or]
    refine ⟨?_, Path.point_not_mem_bracketsText brackets⟩
    intro hmem
    exact absurd (Path.isNameChar_of_isName h.isName hmem) (by decide)
  have hfront : Text.pieces '.' (name.toList ++ Path.bracketsText brackets) =
      [] ++ [name.toList ++ Path.bracketsText brackets] :=
    Text.pieces_of_not_mem hpoint
  rw [outcome_resolve, String.toList_append, String.toList_append, String.toList_ofList,
    Text.pieces_append hfront hparts, List.nil_append, List.append_nil, List.mapM_cons,
    Path.readPart_name h.isName (Path.head?_bracketsText brackets)]
  cases Path.readSuffix (Path.bracketsText brackets) with
  | error failure =>
      rfl
  | ok index =>
      cases parts.mapM Path.readPart <;> rfl

theorem outcome_unselected {name tail : String} {type : RecordType} {tag : Tag}
    {parts : List (List Char)} (h : NamesExtension schema name type tag)
    (hparts : Text.pieces '.' tail.toList = [] :: parts) :
    outcome (resolve schema (name ++ tail)) =
      parts.mapM Path.readPart >>= fun rest =>
        outcome (ofPath schema (Segment.plain name.toList none :: rest)) := by
  have hplain := outcome_brackets h hparts []
  have hempty : name ++ String.ofList (Path.bracketsText []) = name := by
    simp [Path.bracketsText]
  rw [hempty] at hplain
  exact hplain

theorem outcome_selected {name tail : String} {type : RecordType} {tag : Tag} {k : Nat}
    (h : NamesExtension schema name type tag)
    (htail : forall c, tail.toList.head? = some c -> c = '.') (hk : k < instanceLimit) :
    outcome (resolve schema (name ++ String.ofList (Path.bracketsText [some k]) ++ tail)) =
      (outcome (resolve schema (name ++ tail))).map
        (retargeted (.extension tag type.name type.size (some k))) := by
  rcases exists_pieces_of_head htail with ⟨parts, hparts⟩
  have hlimit : k < Path.indexLimit := Nat.lt_trans hk (by decide)
  rw [outcome_unselected h hparts, outcome_brackets h hparts, Path.readSuffix_single hlimit]
  change (parts.mapM Path.readPart >>= _) = _
  cases parts.mapM Path.readPart with
  | error failure =>
      rfl
  | ok rest =>
      have hselected : selector (Segment.plain name.toList (some (.element [k]))) =
          .ok (some k) :=
        if_pos hk
      change outcome (ofPath schema _) = (outcome (ofPath schema _)).map _
      cases rest with
      | nil =>
          unfold ofPath
          rw [start_of_namesExtension h, start_of_namesExtension h]
          unfold Start.extension
          rw [hselected]
          rfl
      | cons first rest =>
          rw [ofPath_of_selector h hselected (List.cons_ne_nil _ _),
            ofPath_of_selector h rfl (List.cons_ne_nil _ _),
            follow_retargeted (.extension tag type.name type.size none), ← outcome_map]
          congr 1
          cases follow schema (.extension tag type.name type.size none) type
            { offset := 0, projection := none } (first :: rest) <;> rfl

theorem target_of_unselected {name tail : String} {type : RecordType} {tag : Tag}
    {location : Location} (h : NamesExtension schema name type tag)
    (htail : forall c, tail.toList.head? = some c -> c = '.')
    (hresolve : resolve schema (name ++ tail) = .ok location) :
    location.target = .extension tag type.name type.size none := by
  rcases exists_pieces_of_head htail with ⟨parts, hparts⟩
  have hplain := outcome_unselected h hparts
  rw [hresolve] at hplain
  rcases bind_eq_ok.mp hplain.symm with ⟨rest, _, hrest⟩
  rcases ofPath_eq_ok.mp (outcome_eq_ok.mp hrest) with ⟨origin, hstart, hleads⟩
  rw [start_of_namesExtension h] at hstart
  rcases bind_eq_ok.mp (mapError_eq_ok.mp hstart) with ⟨chosen, hchosen, horigin⟩
  cases hchosen
  split at horigin
  · cases horigin
  · cases horigin
    exact hleads.target_eq

theorem selector_eq_ok {segment : Segment} {chosen : Option Nat} :
    selector segment = .ok chosen <->
      segment.index = none ∧ chosen = none ∨
        exists k, segment.index = some (.element [k]) ∧ k < instanceLimit ∧ chosen = some k := by
  unfold selector
  split
  · next hindex =>
      simp [hindex, eq_comm]
  · next k hindex =>
      rw [hindex]
      split
      · next hk =>
          simp [hk, eq_comm]
      · next hk =>
          simp [refuse, hk]
  · next index hother hindex =>
      rw [hindex]
      constructor
      · intro h
        cases h
      · rintro (⟨hnone, _⟩ | ⟨k, hsome, _⟩)
        · cases hnone
        · cases hsome
          exact absurd rfl (hother k)

theorem not_selector_of_combine? {brackets : List (Option Nat)} {segment : Segment}
    (hcombine : Path.combine? brackets = some segment.index) (hne : brackets ≠ [])
    (hsingle : forall k, brackets = [some k] -> instanceLimit ≤ k) (chosen : Option Nat) :
    selector segment ≠ .ok chosen := by
  intro h
  rcases selector_eq_ok.mp h with ⟨hindex, _⟩ | ⟨k, hindex, hk, _⟩
  · rw [hindex] at hcombine
    rcases Path.combine?_eq_some.mp hcombine with ⟨hnil, _⟩ | ⟨_, hall⟩ | ⟨_, _, _, helement⟩
    · exact hne hnil
    · cases hall
    · cases helement
  · rw [hindex] at hcombine
    rcases Path.combine?_eq_some.mp hcombine with ⟨_, hnone⟩ | ⟨_, hall⟩ | ⟨_, _, hmap, helement⟩
    · cases hnone
    · cases hall
    · cases helement
      exact absurd hk (Nat.not_lt.mpr (hsingle k hmap))

theorem exists_notFound_of_outcome {path : String}
    (h : outcome (resolve schema path) = .error (.refused ())) :
    exists obstacle span,
      resolve schema path = .error (.refused (.notFound path obstacle span)) := by
  cases hresolve : resolve schema path with
  | ok location =>
      rw [hresolve] at h
      cases h
  | error failure =>
      rcases resolve_eq_error hresolve with rfl | ⟨obstacle, span, rfl⟩
      · rw [hresolve] at h
        cases h
      · exact ⟨obstacle, span, rfl⟩

/-- A single number below the limit is the only selector. Behind any other brackets nothing
is found, unless the run is abandoned over what follows, as it is without them. -/
theorem notFound_of_brackets {name tail : String} {type : RecordType} {tag : Tag}
    {brackets : List (Option Nat)} (h : NamesExtension schema name type tag)
    (htail : forall c, tail.toList.head? = some c -> c = '.')
    (hne : brackets ≠ []) (hsingle : forall k, brackets = [some k] -> instanceLimit ≤ k) :
    (exists obstacle span,
      resolve schema (name ++ String.ofList (Path.bracketsText brackets) ++ tail) =
        .error (.refused (.notFound
          (name ++ String.ofList (Path.bracketsText brackets) ++ tail) obstacle span))) ∨
      resolve schema (name ++ String.ofList (Path.bracketsText brackets) ++ tail) =
          .error .abandoned ∧
        resolve schema (name ++ tail) = .error .abandoned := by
  rcases exists_pieces_of_head htail with ⟨parts, hparts⟩
  have hselected := outcome_brackets h hparts brackets
  have hplain := outcome_unselected h hparts
  cases hsuffix : Path.readSuffix (Path.bracketsText brackets) with
  | error failure =>
      rw [hsuffix] at hselected
      cases failure with
      | refused reason =>
          exact Or.inl (exists_notFound_of_outcome hselected)
      | abandoned =>
          exact absurd hsuffix (Path.readSuffix_ne_abandoned _)
  | ok index =>
      rw [hsuffix] at hselected
      cases hrest : parts.mapM Path.readPart with
      | error failure =>
          rw [hrest] at hselected hplain
          cases failure with
          | refused reason =>
              exact Or.inl (exists_notFound_of_outcome hselected)
          | abandoned =>
              exact Or.inr ⟨outcome_eq_abandoned.mp hselected, outcome_eq_abandoned.mp hplain⟩
      | ok rest =>
          rw [hrest] at hselected
          have hcombine := Path.readSuffix_bracketsText hsuffix
          have hrefused := outcome_of_not_selector h
            (not_selector_of_combine? hcombine hne hsingle) rest
          exact Or.inl (exists_notFound_of_outcome (hselected.trans hrefused))

end Location
end VideoConfig
