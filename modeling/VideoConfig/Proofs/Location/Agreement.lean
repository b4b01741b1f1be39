import VideoConfig.Proofs.Catalog
import VideoConfig.Proofs.Location.Elements
import VideoConfig.Proofs.Location.Outcome

/-!
# Paths that agree

One property has many paths. The name of the base record may stand in front, a short name
for the path that it stands for, empty brackets behind an array, and an index behind an
extension, which only selects one of several buffers. Such paths have the same outcome.
-/

namespace VideoConfig

namespace Location

variable {schema : Schema} {declarations : List Declaration}
  {aliases : List (String × String)}

/-!
## The name of the base record

It is dropped in front of a path that does not start with it. A text that is read as a path
behind the name starts with the name and a point.
-/

theorem dropQualifier_of_name_ne {first : Segment} {rest : Path}
    (h : first.name ≠ schema.base.name) :
    dropQualifier schema (first :: rest) = first :: rest :=
  if_neg fun hqualified => h hqualified.left

theorem start_qualified {path : Path} (hne : path ≠ [])
    (hdropped : dropQualifier schema path = path) :
    start schema (Segment.plain schema.base.name.toList none :: path) =
      start schema path := by
  have hqualified : dropQualifier schema
      (Segment.plain schema.base.name.toList none :: path) = path :=
    if_pos ⟨String.ofList_toList, rfl, hne⟩
  unfold start
  rw [hqualified, hdropped]

theorem dropQualifier_of_unqualified {text : List Char} {path : Path}
    (hunqualified : ¬ schema.base.name.toList ++ ['.'] <+: text)
    (hread : (Text.pieces '.' text).mapM Path.readPart = .ok path) :
    dropQualifier schema path = path := by
  cases path with
  | nil =>
      rfl
  | cons first rest =>
      refine if_neg ?_
      rintro ⟨hname, hindex, hne⟩
      apply hunqualified
      cases hpieces : Text.pieces '.' text with
      | nil =>
          exact absurd hpieces (Text.pieces_ne_nil _ _)
      | cons part parts =>
          rw [hpieces, List.mapM_cons] at hread
          rcases bind_eq_ok.mp hread with ⟨segment, hsegment, hread⟩
          rcases bind_eq_ok.mp hread with ⟨others, hothers, hpath⟩
          cases pure_eq_ok.mp hpath
          rcases Path.eq_name_of_readPart hsegment hindex with ⟨hpart, _⟩
          have hpartName : part = schema.base.name.toList := hpart.trans (congrArg _ hname)
          cases parts with
          | nil =>
              cases hothers
              exact absurd rfl hne
          | cons next parts =>
              refine ⟨['.'].intercalate (next :: parts), ?_⟩
              rw [← Text.intercalate_pieces '.' text, hpieces, List.intercalate_cons_cons,
                hpartName]

theorem outcome_qualified (hname : Path.isName schema.base.name.toList = true)
    {text : String} (hunqualified : ¬ schema.base.name.toList ++ ['.'] <+: text.toList) :
    outcome (resolve schema (schema.base.name ++ "." ++ text)) =
      outcome (resolve schema text) := by
  have hchars : (schema.base.name ++ "." ++ text).toList =
      schema.base.name.toList ++ '.' :: text.toList := by
    simp [String.toList_append]
  have hpoint : '.' ∉ schema.base.name.toList := fun hmem =>
    absurd (Path.isNameChar_of_isName hname hmem) (by decide)
  rw [outcome_resolve, outcome_resolve, hchars, Text.pieces_append_cons,
    Text.pieces_of_not_mem hpoint, List.singleton_append, List.mapM_cons,
    Path.readPart_bare hname]
  cases hread : (Text.pieces '.' text.toList).mapM Path.readPart with
  | error failure =>
      rfl
  | ok path =>
      have hne := Path.ne_nil_of_mapM_readPart hread (Text.pieces_ne_nil _ _)
      have hstart := start_qualified hne (dropQualifier_of_unqualified hunqualified hread)
      change outcome (ofPath schema (_ :: path)) = outcome (ofPath schema path)
      unfold ofPath
      rw [hstart]

/-!
## Short names

A short name agrees with the path that it stands for, whatever index and members follow.
-/

theorem head?_of_pieces {text first : List Char} {rest : List (List Char)}
    (h : Text.pieces '.' text = first :: rest)
    (htext : text.head?.any Path.isNameChar = false) :
    first.head?.any Path.isNameChar = false := by
  rw [← Text.intercalate_pieces '.' text, h] at htext
  cases first with
  | nil =>
      rfl
  | cons c first =>
      cases rest with
      | nil =>
          rw [List.intercalate_singleton] at htext
          exact htext
      | cons second rest =>
          rw [List.intercalate_cons_cons] at htext
          exact htext

theorem reindexLast_append (index : Option Index) (before : Path) (last : Segment) :
    reindexLast index (before ++ [last]) = before ++ [{ last with index }] := by
  induction before with
  | nil =>
      rfl
  | cons first before ih =>
      cases before with
      | nil =>
          rfl
      | cons second before =>
          rw [List.cons_append, List.cons_append, reindexLast, ← List.cons_append, ih]
          · rfl
          · simp

theorem expandAlias_bare {full : String} {short last : Segment} {before : Path} (rest : Path)
    (hspan : short.unplaced = short) (hread : Path.read full = .ok (before ++ [last]))
    (hbare : forall segment, segment ∈ before ++ [last] -> segment.index = none) :
    expandAlias full short rest =
      .ok (before.map Segment.unplaced ++
        { last.unplaced with index := short.index } :: rest) := by
  have hshort : short.span = { offset := 0, length := 0 } :=
    (congrArg Segment.span hspan).symm
  have hstripped : (before ++ [last]).map
      (fun segment => { segment with index := none, span := short.span }) =
        before.map Segment.unplaced ++ [last.unplaced] := by
    rw [← List.map_singleton, ← List.map_append]
    refine List.map_congr_left ?_
    intro segment hsegment
    have hindex := hbare segment hsegment
    rcases segment with ⟨name, index, span⟩
    cases hindex
    rw [hshort]
    rfl
  unfold expandAlias
  rw [hread]
  dsimp only
  rw [hstripped, reindexLast_append, List.append_assoc]
  rfl

theorem start_at_field {first : Segment} {rest : Path}
    (hfield : (schema.base.field? first.name).isSome = true)
    (hbase : schema.base.field? schema.base.name = none) :
    start schema (first :: rest) = .ok (.base schema (first :: rest)) := by
  have hne : first.name ≠ schema.base.name := by
    intro heq
    rw [heq, hbase] at hfield
    cases hfield
  exact start_eq_ok.mpr ⟨first, rest, dropQualifier_of_name_ne hne, Begins.field hfield⟩

theorem start_short {full : String} {short last : Segment} {before : Path} (rest : Path)
    (halias : schema.alias? short.name = some full)
    (hfield : schema.base.field? short.name = none) (hne : short.name ≠ schema.base.name)
    (hbase : schema.base.field? schema.base.name = none)
    (hspan : short.unplaced = short) (hread : Path.read full = .ok (before ++ [last]))
    (hbare : forall segment, segment ∈ before ++ [last] -> segment.index = none)
    (hhead : forall first, (before ++ [last]).head? = some first ->
      (schema.base.field? first.name).isSome = true) :
    start schema (short :: rest) = start schema
      (before.map Segment.unplaced ++ { last.unplaced with index := short.index } :: rest) := by
  have hshort : start schema (short :: rest) = .ok (.base schema
      (before.map Segment.unplaced ++ { last.unplaced with index := short.index } :: rest)) :=
    start_eq_ok.mpr ⟨_, _, dropQualifier_of_name_ne hne,
      Begins.short hfield halias (expandAlias_bare rest hspan hread hbare)⟩
  rw [hshort]
  cases before with
  | nil =>
      refine (start_at_field ?_ hbase).symm
      exact hhead last rfl
  | cons first before =>
      refine (start_at_field ?_ hbase).symm
      exact hhead first rfl

theorem outcome_short {name full tail : String} {path : Path}
    (hname : Path.isName name.toList = true) (halias : schema.alias? name = some full)
    (hfield : schema.base.field? name = none) (hne : name ≠ schema.base.name)
    (hbase : schema.base.field? schema.base.name = none)
    (hread : Path.read full = .ok path)
    (hbare : forall segment, segment ∈ path -> segment.index = none)
    (hhead : forall first, path.head? = some first ->
      (schema.base.field? first.name).isSome = true)
    (htail : tail.toList.head?.any Path.isNameChar = false) :
    outcome (resolve schema (name ++ tail)) = outcome (resolve schema (full ++ tail)) := by
  rcases List.eq_nil_or_concat path with hnil | ⟨before, last, hpath⟩
  · exact absurd hnil (Path.read_ne_nil hread)
  rw [List.concat_eq_append] at hpath
  subst hpath
  rcases List.exists_cons_of_ne_nil (Text.pieces_ne_nil '.' tail.toList) with
    ⟨next, parts, htailParts⟩
  have hnext := head?_of_pieces htailParts htail
  have hpoint : '.' ∉ name.toList := fun hmem =>
    absurd (Path.isNameChar_of_isName hname hmem) (by decide)
  have hnameParts : Text.pieces '.' name.toList = [] ++ [name.toList] :=
    Text.pieces_of_not_mem hpoint
  rcases Path.exists_parts_of_read hread (hbare last (by simp)) with
    ⟨names, hfullParts, hnames, hlast⟩
  rw [outcome_resolve, outcome_resolve, String.toList_append, String.toList_append,
    Text.pieces_append hnameParts htailParts, Text.pieces_append hfullParts htailParts,
    List.nil_append, List.mapM_cons, List.mapM_append, List.mapM_cons,
    Path.readPart_name hname hnext, Path.readPart_name hlast hnext, hnames]
  cases Path.readSuffix next with
  | error failure =>
      rfl
  | ok index =>
      cases parts.mapM Path.readPart with
      | error failure =>
          rfl
      | ok rest =>
          have hstart : start schema (Segment.plain name.toList index :: rest) =
              start schema
                (before.map Segment.unplaced ++ Segment.plain last.name.toList index :: rest) := by
            have hplain : Segment.plain last.name.toList index =
                { last.unplaced with index := (Segment.plain name.toList index).index } := by
              simp [Segment.plain, Segment.unplaced]
            rw [hplain]
            rw [← String.ofList_toList (s := name)] at halias hfield hne
            exact start_short rest halias hfield hne hbase rfl hread hbare hhead
          change outcome (ofPath schema (Segment.plain name.toList index :: rest)) =
            outcome (ofPath schema
              (before.map Segment.unplaced ++ Segment.plain last.name.toList index :: rest))
          unfold ofPath
          rw [hstart]

end Location
end VideoConfig
