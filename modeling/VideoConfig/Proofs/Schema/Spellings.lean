import VideoConfig.Proofs.Location.Brackets
import VideoConfig.Proofs.Location.Selectors

/-!
# Spellings of a property

A schema whose names are names of paths, and in which nothing is called like the base record,
has spellings for its properties that agree: with and without the name of the base record,
by a short name and by the path that it stands for, with and without empty brackets behind an
array, and with and without a selector behind an extension. Agreeing paths resolve to the
same location, or are both refused.
-/

namespace VideoConfig
namespace Schema

/-- Whether the names of a schema can be spelled, and no field of the base record and no
short name is called like the base record. -/
structure Spellable (schema : Schema) : Prop where
  typeNames : forall type, type ∈ schema.records -> Path.isName type.name.toList = true
  shortNames : forall entry, entry ∈ schema.aliases -> Path.isName entry.1.toList = true
  baseField : schema.base.field? schema.base.name = none
  baseShort : schema.alias? schema.base.name = none

/-- The outcomes of paths that spell one property. -/
structure SpellingsAgree (schema : Schema) : Prop where
  qualified : forall text : String, ¬ schema.base.name.toList ++ ['.'] <+: text.toList ->
    outcome (resolve schema (schema.base.name ++ "." ++ text)) = outcome (resolve schema text)
  /-- A short name that is no field, and the path that it stands for, which starts with a
  field and has no index, with the same indexes and members behind them. -/
  short : forall (name full tail : String) (path : Path), schema.alias? name = some full ->
    schema.base.field? name = none -> Path.read full = .ok path ->
    (forall segment, segment ∈ path -> segment.index = none) ->
    (forall first, path.head? = some first -> (schema.base.field? first.name).isSome = true) ->
    tail.toList.head?.any Path.isNameChar = false ->
      outcome (resolve schema (name ++ tail)) = outcome (resolve schema (full ++ tail))
  whole : forall (text : String) (ahead after : Path) (segment : Segment),
    Path.read text = .ok (ahead ++ segment :: after) -> segment.index = none ->
    Location.NamesArray schema ahead segment after ->
      outcome (resolve schema (Path.emptied text ahead.length)) = outcome (resolve schema text)
  /-- The name of an extension without and with a selector: the locations differ in the
  selector alone. -/
  selected : forall (name tail : String) (type : RecordType) (tag : Tag) (k : Nat),
    Location.extension? schema name = some (type, tag) -> schema.base.field? name = none ->
    schema.alias? name = none -> (forall c, tail.toList.head? = some c -> c = '.') ->
    k < instanceLimit ->
      (forall location, resolve schema (name ++ tail) = .ok location ->
        location.target = .extension tag type.name type.size none) ∧
      outcome (resolve schema (name ++ String.ofList (Path.bracketsText [some k]) ++ tail)) =
        (outcome (resolve schema (name ++ tail))).map
          (Location.retargeted (.extension tag type.name type.size (some k)))
  /-- The name of an extension with any other brackets, behind which nothing is found. Over
  some texts the run is abandoned, with and without the brackets. -/
  unselected : forall (name tail : String) (type : RecordType) (tag : Tag)
    (brackets : List (Option Nat)),
    Location.extension? schema name = some (type, tag) -> schema.base.field? name = none ->
    schema.alias? name = none -> (forall c, tail.toList.head? = some c -> c = '.') ->
    brackets ≠ [] -> (forall k, brackets = [some k] -> instanceLimit ≤ k) ->
      (exists obstacle span,
        resolve schema (name ++ String.ofList (Path.bracketsText brackets) ++ tail) =
          .error (.refused (.notFound
            (name ++ String.ofList (Path.bracketsText brackets) ++ tail) obstacle span))) ∨
        resolve schema (name ++ String.ofList (Path.bracketsText brackets) ++ tail) =
            .error .abandoned ∧
          resolve schema (name ++ tail) = .error .abandoned

variable {schema : Schema} {declarations : List Declaration}
  {aliases : List (String × String)}

theorem Spellable.shortName (h : schema.Spellable) {name full : String}
    (halias : schema.alias? name = some full) : Path.isName name.toList = true := by
  rcases Option.map_eq_some_iff.mp halias with ⟨entry, hentry, _⟩
  have hname := List.find?_some hentry
  rw [beq_iff_eq] at hname
  rw [← hname]
  exact h.shortNames entry (List.mem_reverse.mp (List.mem_of_find?_eq_some hentry))

theorem Spellable.namesExtension (h : schema.Spellable)
    (hbuilt : schema.BuiltFrom declarations aliases) {name : String} {type : RecordType}
    {tag : Tag} (hextension : Location.extension? schema name = some (type, tag))
    (hfield : schema.base.field? name = none) (halias : schema.alias? name = none) :
    Location.NamesExtension schema name type tag := by
  rcases Location.extension?_eq_some hextension with ⟨hmem, htag⟩
  have hname : type.name = name := by
    unfold Location.extension? at hextension
    simp only [Option.bind_eq_bind, Option.bind_eq_some_iff] at hextension
    rcases hextension with ⟨found, hfound, _, _, hpair⟩
    cases hpair
    exact (extensionNamed?_eq_some hfound).right
  refine ⟨hname ▸ h.typeNames type hmem, hextension, hfield, halias, ?_⟩
  -- The base record is no extension.
  rintro rfl
  have hsame : type = schema.base :=
    List.inj_on_of_nodup_map hbuilt.names_nodup hmem hbuilt.base_mem hname
  have hrole := hbuilt.base_role
  rw [← hsame, role_of_tag? htag] at hrole
  cases hrole

/-- All spellings of a property agree. -/
theorem spellings_agree (hbuild : Schema.build declarations aliases = .ok schema)
    (hspellable : schema.Spellable) : schema.SpellingsAgree := by
  have hbuilt := builtFrom_of_build hbuild
  constructor
  · intro text hunqualified
    exact Location.outcome_qualified (hspellable.typeNames _ hbuilt.base_mem) hunqualified
  · intro name full tail path halias hfield hread hbare hhead htail
    have hne : name ≠ schema.base.name := by
      rintro rfl
      rw [hspellable.baseShort] at halias
      cases halias
    exact Location.outcome_short (hspellable.shortName halias) halias hfield hne
      hspellable.baseField hread hbare hhead htail
  · intro text ahead after segment hread hindex harray
    exact Location.outcome_emptied hread hindex harray
  · intro name tail type tag k hextension hfield halias htail hk
    have hnames := hspellable.namesExtension hbuilt hextension hfield halias
    constructor
    · intro location hresolve
      exact Location.target_of_unselected hnames htail hresolve
    · exact Location.outcome_selected hnames htail hk
  · intro name tail type tag brackets hextension hfield halias htail hne hsingle
    have hnames := hspellable.namesExtension hbuilt hextension hfield halias
    exact Location.notFound_of_brackets hnames htail hne hsingle

/-- The spellings of the video parameters. The width of a frame is one of them. -/
theorem spellings_agree_videoParameters :
    Catalog.videoParameters.Spellable ∧ Catalog.videoParameters.SpellingsAgree ∧
      outcome (resolve Catalog.videoParameters "Width") =
        outcome (resolve Catalog.videoParameters "mfx.FrameInfo.Width") ∧
      (resolve Catalog.videoParameters "Width").toOption.isSome = true := by
  have hfacts :
      (forall type, type ∈ Catalog.videoParameters.records ->
        Path.isName type.name.toList = true) ∧
      (forall entry, entry ∈ Catalog.videoParameters.aliases ->
        Path.isName entry.1.toList = true) ∧
      Catalog.videoParameters.base.field? Catalog.videoParameters.base.name = none ∧
      Catalog.videoParameters.alias? Catalog.videoParameters.base.name = none ∧
      Catalog.videoParameters.alias? "Width" = some "mfx.FrameInfo.Width" ∧
      Catalog.videoParameters.base.field? "Width" = none ∧
      (Catalog.videoParameters.base.field? "mfx").isSome = true ∧
      (resolve Catalog.videoParameters "Width").toOption.isSome = true := by
    decide +kernel
  rcases hfacts with ⟨htypes, hshort, hfield, halias, hwidth, hnone, hmfx, hresolve⟩
  have hspellable : Catalog.videoParameters.Spellable := ⟨htypes, hshort, hfield, halias⟩
  have hagree := spellings_agree Catalog.build_videoParameters hspellable
  have hread : (Path.read "mfx.FrameInfo.Width").toOption =
      some [{ name := "mfx", index := none, span := { offset := 0, length := 3 } },
        { name := "FrameInfo", index := none, span := { offset := 4, length := 9 } },
        { name := "Width", index := none, span := { offset := 14, length := 5 } }] := by
    decide +kernel
  refine ⟨hspellable, hagree, ?_, hresolve⟩
  refine hagree.short "Width" "mfx.FrameInfo.Width" "" _ hwidth hnone
    (toOption_eq_some.mp hread) (by simp) ?_ rfl
  rintro first ⟨⟩
  exact hmfx

end Schema
end VideoConfig
