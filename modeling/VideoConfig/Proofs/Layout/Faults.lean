import Mathlib.Data.List.Induction
import VideoConfig.Proofs.Layout.Natural

/-!
# Faults of declarations

Record types can be laid out exactly if their declarations fit together: every name is
declared once, every record that is referred to is declared before, and no record type has
two fields of one name. Where declarations do not fit together, the first that does not fit
those before it is told, with what is wrong about it.
-/

namespace VideoConfig
namespace Layout

/-!
## Records that entries refer to

The branches of an overlay are included; the header of an extension refers to none.
-/

def kindReferences : Kind -> List String
  | .scalar _ => []
  | .record name => [name]

mutual

def entryReferences : Entry -> List String
  | .field _ kind _ _ => kindReferences kind
  | .pad kind _ => kindReferences kind
  | .overlay branches => branchesReferences branches

def entriesReferences : List Entry -> List String
  | [] => []
  | entry :: rest => entryReferences entry ++ entriesReferences rest

def branchesReferences : List (List Entry) -> List String
  | [] => []
  | branch :: rest => entriesReferences branch ++ branchesReferences rest

end

theorem entriesReferences_fullEntries (declaration : Declaration) :
    entriesReferences (fullEntries declaration) = entriesReferences declaration.entries := by
  unfold fullEntries
  split <;> rfl

/-!
## References that lead nowhere

Of two results one behind the other the first that is missing counts, and what is made of a
result that is there is never missing.
-/

def firstUnknown? (known : List RecordType) (names : List String) : Option String :=
  names.find? fun name => !(known.map RecordType.name).contains name

theorem firstUnknown?_eq_some {known : List RecordType} {names : List String}
    {nested : String} :
    firstUnknown? known names = some nested <->
      nested ∉ known.map RecordType.name ∧ exists before after,
        names = before ++ nested :: after ∧
          forall name, name ∈ before -> name ∈ known.map RecordType.name := by
  unfold firstUnknown?
  rw [List.find?_eq_some_iff_append]
  simp

theorem firstUnknown?_eq_none {known : List RecordType} {names : List String} :
    firstUnknown? known names = none <->
      forall name, name ∈ names -> name ∈ known.map RecordType.name := by
  unfold firstUnknown?
  rw [List.find?_eq_none]
  simp

/-- A result that is missing exactly over a reference that leads nowhere. -/
def FailsOver {result : Type} (owner : String) (unknown : Option String)
    (attempt : Except LayoutError result) : Prop :=
  forall error, attempt = .error error <->
    exists nested, unknown = some nested ∧ error = .unknownRecord owner nested

namespace FailsOver

variable {result result' : Type} {owner : String} {unknown unknown' : Option String}

theorem ok (value : result) : FailsOver owner none (.ok value) := by
  intro error
  simp

theorem exists_ok {attempt : Except LayoutError result} (h : FailsOver owner none attempt) :
    exists value, attempt = .ok value := by
  cases attempt with
  | ok value =>
      exact ⟨value, rfl⟩
  | error error =>
      rcases (h error).mp rfl with ⟨nested, hnested, _⟩
      cases hnested

theorem bind {attempt : Except LayoutError result}
    {next : result -> Except LayoutError result'} (h : FailsOver owner unknown attempt)
    (hnext : forall value, FailsOver owner unknown' (next value)) :
    FailsOver owner (unknown.or unknown') (attempt >>= next) := by
  intro error
  rw [bind_eq_error, h error]
  cases unknown with
  | none =>
      rcases h.exists_ok with ⟨value, rfl⟩
      simpa using hnext value error
  | some nested =>
      have herror := (h _).mpr ⟨nested, rfl, rfl⟩
      simp [herror]

theorem bind_pure {attempt : Except LayoutError result} {next : result -> result'}
    (h : FailsOver owner unknown attempt) :
    FailsOver owner unknown (attempt >>= fun value => pure (next value)) := by
  rw [← @Option.or_none _ unknown]
  exact h.bind fun value => ok (next value)

end FailsOver

section

variable {known : List RecordType} {owner : String}

theorem measure_failsOver (kind : Kind) :
    FailsOver owner (firstUnknown? known (kindReferences kind)) (measure known owner kind) := by
  cases kind with
  | scalar scalar =>
      exact FailsOver.ok _
  | record name =>
      intro error
      unfold kindReferences
      cases hfind : known.find? fun type => type.name == name with
      | none =>
          have hnew : name ∉ known.map RecordType.name := by
            simpa using hfind
          have hunknown : firstUnknown? known [name] = some name :=
            firstUnknown?_eq_some.mpr ⟨hnew, [], [], rfl, by simp⟩
          simp [measure, hfind, hunknown, eq_comm]
      | some type =>
          have hname : type.name = name := by simpa using List.find?_some hfind
          have hold : name ∈ known.map RecordType.name :=
            hname ▸ List.mem_map_of_mem (List.mem_of_find?_eq_some hfind)
          have hnone : firstUnknown? known [name] = none :=
            firstUnknown?_eq_none.mpr (by simpa using hold)
          simp [measure, hfind, hnone]

mutual

theorem entryAlign_failsOver :
    forall entry, FailsOver owner (firstUnknown? known (entryReferences entry))
      (entryAlign known owner entry)
  | .field _ kind _ _ => (measure_failsOver kind).bind_pure
  | .pad kind _ => (measure_failsOver kind).bind_pure
  | .overlay branches => branchesAlign_failsOver branches

theorem entriesAlign_failsOver :
    forall entries, FailsOver owner (firstUnknown? known (entriesReferences entries))
      (entriesAlign known owner entries)
  | [] => FailsOver.ok _
  | entry :: rest => by
      unfold entriesReferences firstUnknown?
      rw [List.find?_append]
      exact (entryAlign_failsOver entry).bind fun _ => (entriesAlign_failsOver rest).bind_pure

theorem branchesAlign_failsOver :
    forall branches, FailsOver owner (firstUnknown? known (branchesReferences branches))
      (branchesAlign known owner branches)
  | [] => FailsOver.ok _
  | branch :: rest => by
      unfold branchesReferences firstUnknown?
      rw [List.find?_append]
      exact (entriesAlign_failsOver branch).bind fun _ =>
        (branchesAlign_failsOver rest).bind_pure

end

mutual

theorem placeEntry_failsOver (start : Nat) :
    forall entry, FailsOver owner (firstUnknown? known (entryReferences entry))
      (placeEntry known owner start entry)
  | .field _ kind _ _ => (measure_failsOver kind).bind_pure
  | .pad kind _ => (measure_failsOver kind).bind_pure
  | .overlay branches => by
      -- The branches are gone through twice, for their alignment and for their places.
      unfold entryReferences
      rw [← @Option.or_self _ (firstUnknown? known (branchesReferences branches))]
      exact (branchesAlign_failsOver branches).bind fun align =>
        (placeBranches_failsOver (alignUp start align) branches).bind_pure

theorem placeEntries_failsOver (start : Nat) :
    forall entries, FailsOver owner (firstUnknown? known (entriesReferences entries))
      (placeEntries known owner start entries)
  | [] => FailsOver.ok _
  | entry :: rest => by
      unfold entriesReferences firstUnknown?
      rw [List.find?_append]
      exact (placeEntry_failsOver start entry).bind fun first =>
        (placeEntries_failsOver first.stop rest).bind_pure

theorem placeBranches_failsOver (origin : Nat) :
    forall branches, FailsOver owner (firstUnknown? known (branchesReferences branches))
      (placeBranches known owner origin branches)
  | [] => FailsOver.ok _
  | branch :: rest => by
      unfold branchesReferences firstUnknown?
      rw [List.find?_append]
      exact (placeEntries_failsOver origin branch).bind fun _ =>
        (placeBranches_failsOver origin rest).bind_pure

end

end

/-!
## Keys that are repeated

Names of fields and tags of extensions are searched for repetitions in the same way. Items
without a key are passed over.
-/

section

variable {item key : Type} [DecidableEq key] {keyOf : item -> Option key} {seen : List key}
  {items : List item}

def firstRepeat? (keyOf : item -> Option key) : (seen : List key) -> List item -> Option item
  | _, [] => none
  | seen, first :: rest =>
      match keyOf first with
      | some own => if own ∈ seen then some first else firstRepeat? keyOf (own :: seen) rest
      | none => firstRepeat? keyOf seen rest

theorem firstRepeat?_cons_none {first : item} {rest : List item} (h : keyOf first = none) :
    firstRepeat? keyOf seen (first :: rest) = firstRepeat? keyOf seen rest := by
  simp [firstRepeat?, h]

theorem firstRepeat?_cons_some {first : item} {rest : List item} {own : key}
    (h : keyOf first = some own) :
    firstRepeat? keyOf seen (first :: rest) =
      if own ∈ seen then some first else firstRepeat? keyOf (own :: seen) rest := by
  simp [firstRepeat?, h]

theorem firstRepeat?_eq_none :
    firstRepeat? keyOf seen items = none <->
      (items.filterMap keyOf).Nodup ∧
        forall other, other ∈ items.filterMap keyOf -> other ∉ seen := by
  induction items generalizing seen with
  | nil =>
      simp [firstRepeat?]
  | cons first rest ih =>
      cases hfirst : keyOf first with
      | none =>
          rw [firstRepeat?_cons_none hfirst, List.filterMap_cons_none hfirst]
          exact ih
      | some own =>
          rw [firstRepeat?_cons_some hfirst, List.filterMap_cons_some hfirst, List.nodup_cons,
            List.forall_mem_cons]
          split
          · next hseen =>
              simp [hseen]
          · next hnew =>
              simp only [ih, List.mem_cons, not_or]
              constructor
              · rintro ⟨hnodup, hrest⟩
                exact ⟨⟨fun hmem => (hrest own hmem).left rfl, hnodup⟩, hnew,
                  fun other hmem => (hrest other hmem).right⟩
              · rintro ⟨⟨hown, hnodup⟩, _, hrest⟩
                refine ⟨hnodup, fun other hmem => ⟨?_, hrest other hmem⟩⟩
                rintro rfl
                exact hown hmem

theorem firstRepeat?_eq_some {found : item} :
    firstRepeat? keyOf seen items = some found <->
      exists before after own, items = before ++ found :: after ∧ keyOf found = some own ∧
        firstRepeat? keyOf seen before = none ∧
        (own ∈ seen ∨ own ∈ before.filterMap keyOf) := by
  induction items generalizing seen with
  | nil =>
      simp [firstRepeat?]
  | cons first rest ih =>
      constructor
      · intro h
        cases hfirst : keyOf first with
        | none =>
            rw [firstRepeat?_cons_none hfirst] at h
            rcases ih.mp h with ⟨before, after, last, rfl, hlast, hbefore, hrepeated⟩
            refine ⟨first :: before, after, last, rfl, hlast, ?_, ?_⟩
            · rw [firstRepeat?_cons_none hfirst]
              exact hbefore
            · rw [List.filterMap_cons_none hfirst]
              exact hrepeated
        | some own =>
            rw [firstRepeat?_cons_some hfirst] at h
            split at h
            · next hseen =>
                cases h
                exact ⟨[], rest, own, rfl, hfirst, rfl, Or.inl hseen⟩
            · next hnew =>
                rcases ih.mp h with ⟨before, after, last, rfl, hlast, hbefore, hrepeated⟩
                refine ⟨first :: before, after, last, rfl, hlast, ?_, ?_⟩
                · rw [firstRepeat?_cons_some hfirst, if_neg hnew]
                  exact hbefore
                · rw [List.filterMap_cons_some hfirst, List.mem_cons]
                  rw [List.mem_cons] at hrepeated
                  tauto
      · rintro ⟨before, after, last, hsplit, hlast, hbefore, hrepeated⟩
        cases before with
        | nil =>
            cases hsplit
            rw [firstRepeat?_cons_some hlast, if_pos (by simpa using hrepeated)]
        | cons other before =>
            cases hsplit
            cases hfirst : keyOf first with
            | none =>
                rw [firstRepeat?_cons_none hfirst] at hbefore ⊢
                rw [List.filterMap_cons_none hfirst] at hrepeated
                exact ih.mpr ⟨before, after, last, rfl, hlast, hbefore, hrepeated⟩
            | some own =>
                rw [firstRepeat?_cons_some hfirst] at hbefore ⊢
                split at hbefore
                · cases hbefore
                · next hnew =>
                    rw [if_neg hnew]
                    refine ih.mpr ⟨before, after, last, rfl, hlast, hbefore, ?_⟩
                    rw [List.filterMap_cons_some hfirst, List.mem_cons] at hrepeated
                    rw [List.mem_cons]
                    tauto

end

theorem firstRepeated?_eq_firstRepeat? (seen names : List String) :
    firstRepeated? seen names = firstRepeat? some seen names := by
  induction names generalizing seen with
  | nil =>
      rfl
  | cons first rest ih =>
      simp [firstRepeated?, firstRepeat?, ih]

theorem firstRepeated?_eq_none_iff {names : List String} :
    firstRepeated? [] names = none <-> names.Nodup := by
  rw [firstRepeated?_eq_firstRepeat?, firstRepeat?_eq_none, List.filterMap_some]
  simp

theorem firstRepeated?_eq_some {names : List String} {name : String} :
    firstRepeated? [] names = some name <->
      exists before after, names = before ++ name :: after ∧ before.Nodup ∧
        name ∈ before := by
  rw [firstRepeated?_eq_firstRepeat?, firstRepeat?_eq_some]
  simp only [← firstRepeated?_eq_firstRepeat?, firstRepeated?_eq_none_iff,
    List.filterMap_some, Option.some.injEq, List.not_mem_nil, false_or]
  constructor
  · rintro ⟨before, after, _, hsplit, rfl, hnodup, hmem⟩
    exact ⟨before, after, hsplit, hnodup, hmem⟩
  · rintro ⟨before, after, hsplit, hnodup, hmem⟩
    exact ⟨before, after, name, hsplit, rfl, hnodup, hmem⟩

/-!
## One declaration

A record type is laid out exactly if its declaration fits those before it. The error that is
told otherwise is the fault of the declaration.
-/

structure FitsBehind (known : List String) (declaration : Declaration) : Prop where
  name_new : declaration.name ∉ known
  declared : forall nested, nested ∈ entriesReferences declaration.entries -> nested ∈ known
  fields_nodup : (entriesNames (fullEntries declaration)).Nodup

/-- What is wrong about a declaration behind others with these names. A name that is
declared before is told first, then the first record that is not, and then the first field
whose name another one has before. -/
inductive Fault (known : List String) (declaration : Declaration) : LayoutError -> Prop where
  | duplicateRecord :
      declaration.name ∈ known ->
      Fault known declaration (.duplicateRecord declaration.name)
  | unknownRecord {before after : List String} {nested : String} :
      declaration.name ∉ known ->
      entriesReferences declaration.entries = before ++ nested :: after ->
      (forall name, name ∈ before -> name ∈ known) ->
      nested ∉ known ->
      Fault known declaration (.unknownRecord declaration.name nested)
  | duplicateField {before after : List String} {field : String} :
      declaration.name ∉ known ->
      (forall nested, nested ∈ entriesReferences declaration.entries -> nested ∈ known) ->
      entriesNames (fullEntries declaration) = before ++ field :: after ->
      before.Nodup ->
      field ∈ before ->
      Fault known declaration (.duplicateField declaration.name field)

section

variable {known : List RecordType} {declaration : Declaration}

theorem layOut_of_known (hknown : declaration.name ∈ known.map RecordType.name) :
    layOut known declaration = .error (.duplicateRecord declaration.name) := by
  have hany : (known.any fun type => type.name == declaration.name) = true := by
    simpa using hknown
  unfold layOut
  dsimp only
  rw [if_pos hany]
  rfl

theorem layOut_of_unknown (hnew : declaration.name ∉ known.map RecordType.name)
    {nested : String}
    (hunknown : firstUnknown? known (entriesReferences declaration.entries) = some nested) :
    layOut known declaration = .error (.unknownRecord declaration.name nested) := by
  have hany : ¬ (known.any fun type => type.name == declaration.name) = true := by
    simpa using hnew
  rw [← entriesReferences_fullEntries] at hunknown
  have halign : entriesAlign known declaration.name (fullEntries declaration) =
      .error (.unknownRecord declaration.name nested) :=
    (entriesAlign_failsOver _ _).mpr ⟨nested, hunknown, rfl⟩
  unfold layOut
  dsimp only
  rw [if_neg hany, halign]
  rfl

theorem exists_placed
    (hdeclared : firstUnknown? known (entriesReferences declaration.entries) = none) :
    exists align placed,
      entriesAlign known declaration.name (fullEntries declaration) = .ok align ∧
        placeEntries known declaration.name 0 (fullEntries declaration) = .ok placed ∧
        placed.fields.map Field.name = entriesNames (fullEntries declaration) := by
  rw [← entriesReferences_fullEntries] at hdeclared
  have haligns : FailsOver declaration.name
      (firstUnknown? known (entriesReferences (fullEntries declaration)))
      (entriesAlign known declaration.name (fullEntries declaration)) :=
    entriesAlign_failsOver _
  have hplaces : FailsOver declaration.name
      (firstUnknown? known (entriesReferences (fullEntries declaration)))
      (placeEntries known declaration.name 0 (fullEntries declaration)) :=
    placeEntries_failsOver 0 _
  rw [hdeclared] at haligns hplaces
  rcases haligns.exists_ok with ⟨align, halign⟩
  rcases hplaces.exists_ok with ⟨placed, hplaced⟩
  exact ⟨align, placed, halign, hplaced, placeEntries_names _ hplaced⟩

theorem layOut_of_repeated (hnew : declaration.name ∉ known.map RecordType.name)
    (hdeclared : firstUnknown? known (entriesReferences declaration.entries) = none)
    {field : String}
    (hrepeated : firstRepeated? [] (entriesNames (fullEntries declaration)) = some field) :
    layOut known declaration = .error (.duplicateField declaration.name field) := by
  have hany : ¬ (known.any fun type => type.name == declaration.name) = true := by
    simpa using hnew
  rcases exists_placed hdeclared with ⟨align, placed, halign, hplaced, hnames⟩
  rw [← hnames] at hrepeated
  unfold layOut
  dsimp only
  rw [if_neg hany, halign, hplaced]
  simp only [bind, Except.bind, hrepeated]
  rfl

theorem exists_layOut (h : FitsBehind (known.map RecordType.name) declaration) :
    exists type, layOut known declaration = .ok type := by
  have hany : ¬ (known.any fun type => type.name == declaration.name) = true := by
    simpa using h.name_new
  rcases exists_placed (firstUnknown?_eq_none.mpr h.declared) with
    ⟨align, placed, halign, hplaced, hnames⟩
  have hrepeated := firstRepeated?_eq_none_iff.mpr h.fields_nodup
  rw [← hnames] at hrepeated
  unfold layOut
  dsimp only
  rw [if_neg hany, halign, hplaced]
  simp only [bind, Except.bind, hrepeated]
  exact ⟨_, rfl⟩

theorem exists_layOut_iff :
    (exists type, layOut known declaration = .ok type) <->
      FitsBehind (known.map RecordType.name) declaration := by
  constructor
  · rintro ⟨type, htype⟩
    have hnew : declaration.name ∉ known.map RecordType.name := by
      intro hknown
      cases htype.symm.trans (layOut_of_known hknown)
    have hdeclared : firstUnknown? known (entriesReferences declaration.entries) = none := by
      rw [Option.eq_none_iff_forall_ne_some]
      intro nested hunknown
      cases htype.symm.trans (layOut_of_unknown hnew hunknown)
    have hrepeated : firstRepeated? [] (entriesNames (fullEntries declaration)) = none := by
      rw [Option.eq_none_iff_forall_ne_some]
      intro field hfield
      cases htype.symm.trans (layOut_of_repeated hnew hdeclared hfield)
    exact ⟨hnew, firstUnknown?_eq_none.mp hdeclared, firstRepeated?_eq_none_iff.mp hrepeated⟩
  · exact exists_layOut

theorem layOut_eq_error {error : LayoutError} :
    layOut known declaration = .error error <->
      Fault (known.map RecordType.name) declaration error := by
  constructor
  · intro h
    by_cases hnew : declaration.name ∈ known.map RecordType.name
    · cases h.symm.trans (layOut_of_known hnew)
      exact Fault.duplicateRecord hnew
    cases hunknown : firstUnknown? known (entriesReferences declaration.entries) with
    | some nested =>
        cases h.symm.trans (layOut_of_unknown hnew hunknown)
        rcases firstUnknown?_eq_some.mp hunknown with ⟨hnested, before, after, hsplit, hbefore⟩
        exact Fault.unknownRecord hnew hsplit hbefore hnested
    | none =>
        have hdeclared := firstUnknown?_eq_none.mp hunknown
        cases hrepeated : firstRepeated? [] (entriesNames (fullEntries declaration)) with
        | some field =>
            cases h.symm.trans (layOut_of_repeated hnew hunknown hrepeated)
            rcases firstRepeated?_eq_some.mp hrepeated with
              ⟨before, after, hsplit, hnodup, hfield⟩
            exact Fault.duplicateField hnew hdeclared hsplit hnodup hfield
        | none =>
            have hfits := FitsBehind.mk hnew hdeclared (firstRepeated?_eq_none_iff.mp hrepeated)
            rcases exists_layOut hfits with ⟨type, htype⟩
            cases h.symm.trans htype
  · intro h
    cases h with
    | duplicateRecord hknown =>
        exact layOut_of_known hknown
    | unknownRecord hnew hsplit hbefore hnested =>
        exact layOut_of_unknown hnew
          (firstUnknown?_eq_some.mpr ⟨hnested, _, _, hsplit, hbefore⟩)
    | duplicateField hnew hdeclared hsplit hnodup hfield =>
        exact layOut_of_repeated hnew (firstUnknown?_eq_none.mpr hdeclared)
          (firstRepeated?_eq_some.mpr ⟨_, _, hsplit, hnodup, hfield⟩)

end

/-!
## Declarations one behind the other

They are laid out exactly if each of them fits those before it. Otherwise the fault of the
first that does not is told.
-/

structure Coherent (declarations : List Declaration) : Prop where
  names_nodup : (declarations.map Declaration.name).Nodup
  declared_before : forall before declaration after,
    declarations = before ++ declaration :: after ->
      forall nested, nested ∈ entriesReferences declaration.entries ->
        nested ∈ before.map Declaration.name
  fields_nodup : forall declaration, declaration ∈ declarations ->
    (entriesNames (fullEntries declaration)).Nodup

theorem coherent_nil : Coherent [] where
  names_nodup := List.nodup_nil
  declared_before := by simp
  fields_nodup := by simp

theorem coherent_append_singleton {declarations : List Declaration}
    {declaration : Declaration} :
    Coherent (declarations ++ [declaration]) <->
      Coherent declarations ∧
        FitsBehind (declarations.map Declaration.name) declaration := by
  constructor
  · intro h
    have hnames := h.names_nodup
    rw [List.map_append, List.map_singleton, List.nodup_append] at hnames
    constructor
    · exact {
        names_nodup := hnames.left
        declared_before := by
          rintro before other after rfl
          exact h.declared_before before other (after ++ [declaration]) (by simp)
        fields_nodup := fun other hother =>
          h.fields_nodup other (List.mem_append_left _ hother) }
    · exact {
        name_new := fun hmem => hnames.right.right _ hmem _ List.mem_cons_self rfl
        declared := h.declared_before declarations declaration [] rfl
        fields_nodup := h.fields_nodup declaration (by simp) }
  · rintro ⟨h, hfits⟩
    exact {
      names_nodup := by
        rw [List.map_append, List.map_singleton, List.nodup_append]
        refine ⟨h.names_nodup, by simp, ?_⟩
        intro name hname other hother heq
        rw [List.mem_singleton.mp hother] at heq
        exact hfits.name_new (heq ▸ hname)
      declared_before := by
        intro before other after hsplit
        rcases List.eq_nil_or_concat after with rfl | ⟨middle, last, rfl⟩
        · rcases List.append_inj' hsplit rfl with ⟨rfl, hsame⟩
          cases hsame
          exact hfits.declared
        · rw [List.concat_eq_append, ← List.cons_append, ← List.append_assoc] at hsplit
          rcases List.append_inj' hsplit rfl with ⟨hbefore, _⟩
          exact h.declared_before before other middle hbefore
      fields_nodup := by
        intro other hother
        rcases List.mem_append.mp hother with hother | hother
        · exact h.fields_nodup other hother
        · rw [List.mem_singleton.mp hother]
          exact hfits.fields_nodup }

theorem layOutAll_append (known : List RecordType) (first second : List Declaration) :
    layOutAll known (first ++ second) =
      layOutAll known first >>= fun types => layOutAll types second := by
  induction first generalizing known with
  | nil =>
      rfl
  | cons declaration rest ih =>
      rw [List.cons_append, layOutAll, layOutAll, bind_assoc]
      congr 1
      funext type
      exact ih (known ++ [type])

theorem names_of_layOutAll {declarations : List Declaration} {types : List RecordType}
    (h : layOutAll [] declarations = .ok types) :
    types.map RecordType.name = declarations.map Declaration.name := by
  have hnames := (natural_of_layOutAll h).imp fun _ _ hnatural => hnatural.name_eq.symm
  rw [eq_comm, ← List.forall₂_eq_eq_eq, List.forall₂_map_left_iff, List.forall₂_map_right_iff]
  exact hnames

theorem exists_layOutAll_iff {declarations : List Declaration} :
    (exists types, layOutAll [] declarations = .ok types) <-> Coherent declarations := by
  induction declarations using List.reverseRecOn with
  | nil =>
      exact ⟨fun _ => coherent_nil, fun _ => ⟨[], rfl⟩⟩
  | append_singleton declarations declaration ih =>
      rw [coherent_append_singleton, ← ih, layOutAll_append]
      constructor
      · rintro ⟨types, h⟩
        rcases bind_eq_ok.mp h with ⟨before, hbefore, h⟩
        rcases bind_eq_ok.mp h with ⟨type, htype, _⟩
        refine ⟨⟨before, hbefore⟩, ?_⟩
        rw [← names_of_layOutAll hbefore]
        exact exists_layOut_iff.mp ⟨type, htype⟩
      · rintro ⟨⟨before, hbefore⟩, hfits⟩
        rw [← names_of_layOutAll hbefore] at hfits
        rcases exists_layOut_iff.mpr hfits with ⟨type, htype⟩
        refine ⟨before ++ [type], bind_eq_ok.mpr ⟨before, hbefore, ?_⟩⟩
        exact bind_eq_ok.mpr ⟨type, htype, rfl⟩

theorem layOutAll_eq_error {declarations : List Declaration} {error : LayoutError} :
    layOutAll [] declarations = .error error <->
      exists before declaration after, declarations = before ++ declaration :: after ∧
        Coherent before ∧ Fault (before.map Declaration.name) declaration error := by
  constructor
  · induction declarations using List.reverseRecOn with
    | nil =>
        intro h
        cases h
    | append_singleton declarations declaration ih =>
        intro h
        rw [layOutAll_append] at h
        rcases bind_eq_error.mp h with hbefore | ⟨types, htypes, hlast⟩
        · rcases ih hbefore with ⟨before, other, after, rfl, hcoherent, hfault⟩
          exact ⟨before, other, after ++ [declaration], by simp, hcoherent, hfault⟩
        · rcases bind_eq_error.mp hlast with hlast | ⟨type, _, hok⟩
          · rw [layOut_eq_error, names_of_layOutAll htypes] at hlast
            exact ⟨declarations, declaration, [], rfl,
              exists_layOutAll_iff.mp ⟨types, htypes⟩, hlast⟩
          · cases hok
  · rintro ⟨before, declaration, after, rfl, hcoherent, hfault⟩
    rcases exists_layOutAll_iff.mpr hcoherent with ⟨types, htypes⟩
    rw [← names_of_layOutAll htypes, ← layOut_eq_error] at hfault
    rw [layOutAll_append]
    refine bind_eq_error.mpr (Or.inr ⟨types, htypes, ?_⟩)
    exact bind_eq_error.mpr (Or.inl hfault)

end Layout
end VideoConfig
