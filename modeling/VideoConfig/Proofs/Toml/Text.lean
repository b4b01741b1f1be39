import VideoConfig.Proofs.Coercion.Lists
import VideoConfig.Settings

/-!
# Texts of values

The text of an array joins the texts of its items with commas, and an item may be an array
again. So the text of integers that are nested in arrays to any depth is that of one flat list,
and reading it gives back the integers from left to right, as no text of an integer has a comma
in it. A value has no text exactly if there is a date or a table somewhere in it.
-/

namespace VideoConfig
namespace Toml
namespace Value

/-!
## Values without a text

Within arrays nothing but a date or a table leaves a value without a text.
-/

inductive Occurs (part : Value) : Value -> Prop where
  | self : Occurs part part
  | item {items : List Value} {value : Value} (hmem : value ∈ items) (h : Occurs part value) :
      Occurs part (.array items)
  | entry {entries : List (String × Value)} {key : String} {value : Value}
      (hmem : (key, value) ∈ entries) (h : Occurs part value) : Occurs part (.table entries)

inductive Wordless : Value -> Prop where
  | datetime (text : String) : Wordless (.datetime text)
  | table (entries : List (String × Value)) : Wordless (.table entries)

theorem Wordless.text?_eq_none {value : Value} (h : Wordless value) : value.text? = none := by
  cases h with
  | datetime text =>
      rfl
  | table entries =>
      rfl

theorem texts?_eq_none_iff {items : List Value} :
    texts? items = none <-> exists item, item ∈ items ∧ item.text? = none := by
  induction items with
  | nil =>
      simp [texts?]
  | cons item rest ih =>
      rw [List.exists_mem_cons_iff, ← ih, texts?]
      cases item.text? with
      | none =>
          simp
      | some first =>
          cases texts? rest with
          | none =>
              simp
          | some others =>
              simp

theorem text?_array_eq_none_iff {items : List Value} :
    (array items).text? = none <-> exists item, item ∈ items ∧ item.text? = none := by
  rw [text?, Option.map_eq_none_iff, texts?_eq_none_iff]

theorem exists_wordless_of_text?_eq_none :
    forall {value : Value}, value.text? = none ->
      exists part, Occurs part value ∧ Wordless part
  | .datetime text, _ => ⟨.datetime text, .self, .datetime text⟩
  | .table entries, _ => ⟨.table entries, .self, .table entries⟩
  | .array items, h => by
      rcases text?_array_eq_none_iff.mp h with ⟨item, hmem, hnone⟩
      have hsmaller : sizeOf item < sizeOf items := List.sizeOf_lt_of_mem hmem
      rcases exists_wordless_of_text?_eq_none hnone with ⟨part, hoccurs, hwordless⟩
      exact ⟨part, .item hmem hoccurs, hwordless⟩

theorem text?_eq_none_iff {value : Value} :
    value.text? = none <-> exists part, Occurs part value ∧ Wordless part := by
  constructor
  · exact exists_wordless_of_text?_eq_none
  · rintro ⟨part, hoccurs, hwordless⟩
    induction hoccurs with
    | self =>
        exact hwordless.text?_eq_none
    | item hmem _ ih =>
        exact text?_array_eq_none_iff.mpr ⟨_, hmem, ih⟩
    | entry _ _ _ =>
        exact (Wordless.table _).text?_eq_none

/-!
## Numbers in nested arrays

The text of a numeric value is that of its numbers from left to right, whatever arrays they
are in. A truth value counts as one or zero.
-/

/-- A value that is built from integers, truth values and arrays that are not empty. -/
inductive Numeric : Value -> Prop where
  | integer (n : Int) : Numeric (.integer n)
  | boolean (b : Bool) : Numeric (.boolean b)
  | array {items : List Value} (hne : items ≠ [])
      (hitems : forall item, item ∈ items -> Numeric item) : Numeric (.array items)

mutual

def numbers : Value -> List Int
  | integer n => [n]
  | boolean b => [if b then 1 else 0]
  | array items => numbersOf items
  | _ => []

def numbersOf : List Value -> List Int
  | [] => []
  | item :: rest => numbers item ++ numbersOf rest

end

theorem numbersOf_eq_flatten (items : List Value) :
    numbersOf items = (items.map numbers).flatten := by
  induction items with
  | nil =>
      rfl
  | cons item rest ih =>
      rw [numbersOf, ih, List.map_cons, List.flatten_cons]

theorem Numeric.numbers_ne_nil {value : Value} (h : value.Numeric) : value.numbers ≠ [] := by
  induction h with
  | integer n =>
      exact List.cons_ne_nil _ _
  | boolean b =>
      exact List.cons_ne_nil _ _
  | @array items hne _ ih =>
      rcases List.exists_cons_of_ne_nil hne with ⟨item, rest, rfl⟩
      exact List.append_ne_nil_of_left_ne_nil (ih item List.mem_cons_self) _

def commaText (numbers : List Int) : String :=
  String.intercalate "," (numbers.map Text.signedDecimal)

theorem toList_commaText (numbers : List Int) :
    (commaText numbers).toList =
      [','].intercalate (numbers.map fun n => (Text.signedDecimal n).toList) := by
  rw [commaText, toList_commas, List.map_map]
  rfl

theorem commaText_singleton (n : Int) : commaText [n] = Text.signedDecimal n := by
  apply String.toList_inj.mp
  rw [toList_commaText, List.map_singleton, List.intercalate_singleton]

theorem commaText_flatten {groups : List (List Int)}
    (h : forall group, group ∈ groups -> group ≠ []) :
    String.intercalate "," (groups.map commaText) = commaText groups.flatten := by
  apply String.toList_inj.mp
  rw [toList_commas, toList_commaText, List.map_map, List.map_flatten,
    Text.intercalate_flatten, List.map_map]
  · apply congrArg [','].intercalate
    apply List.map_congr_left
    intro group _
    exact toList_commaText group
  · intro parts hparts
    rcases List.mem_map.mp hparts with ⟨group, hgroup, rfl⟩
    exact fun hnil => h group hgroup (List.map_eq_nil_iff.mp hnil)

theorem texts?_of_forall {items : List Value} {text : Value -> String}
    (h : forall item, item ∈ items -> item.text? = some (text item)) :
    texts? items = some (items.map text) := by
  induction items with
  | nil =>
      rfl
  | cons item rest ih =>
      rw [texts?, h item List.mem_cons_self, ih fun other hother =>
        h other (List.mem_cons_of_mem item hother)]
      rfl

theorem Numeric.text?_eq {value : Value} (h : value.Numeric) :
    value.text? = some (commaText value.numbers) := by
  induction h with
  | integer n =>
      rw [text?, numbers, commaText_singleton]
  | boolean b =>
      rw [text?, numbers, commaText_singleton]
      cases b with
      | false =>
          rfl
      | true =>
          rfl
  | @array items _ hitems ih =>
      have hgroups : forall group, group ∈ items.map numbers -> group ≠ [] := by
        intro group hgroup
        rcases List.mem_map.mp hgroup with ⟨item, hitem, rfl⟩
        exact (hitems item hitem).numbers_ne_nil
      rw [text?, texts?_of_forall ih, numbers, numbersOf_eq_flatten,
        ← commaText_flatten hgroups, List.map_map]
      rfl

theorem Numeric.coerceList_text {value : Value} (h : value.Numeric) (kind : Kind)
    (category : Category) :
    coerceList (commaText value.numbers) kind category =
      value.numbers.mapM fun n => coerceValue (Text.signedDecimal n) kind category := by
  rw [commaText, coerceList_commas, List.mapM_map]
  · rfl
  · exact fun hnil => h.numbers_ne_nil (List.map_eq_nil_iff.mp hnil)
  · intro token htoken
    rcases List.mem_map.mp htoken with ⟨n, _, rfl⟩
    exact comma_not_mem_signedDecimal n

theorem mapM_signedDecimal_eq_ok {kind : IntKind} {numbers : List Int}
    {values : List VideoConfig.Value} :
    (numbers.mapM fun n =>
        coerceValue (Text.signedDecimal n) (.scalar (.int kind)) .value) = .ok values <->
      (forall n, n ∈ numbers -> kind.holds n = true) ∧
        values = numbers.map (VideoConfig.Value.ofInt kind) := by
  simp only [mapM_eq_ok_iff, coerceValue_signedDecimal]
  constructor
  · intro h
    induction h with
    | nil =>
        exact ⟨List.forall_mem_nil _, rfl⟩
    | cons hfirst _ ih =>
        rcases ih with ⟨hrest, rfl⟩
        exact ⟨List.forall_mem_cons.mpr ⟨hfirst.left, hrest⟩, by rw [hfirst.right, List.map_cons]⟩
  · rintro ⟨hall, rfl⟩
    rw [List.forall₂_map_right_iff, List.forall₂_same]
    exact fun n hn => ⟨hall n hn, rfl⟩

/-- A value of integers, truth values and arrays that are not empty has a text, from which an
array of a kind of integers is read as from the texts of its numbers one by one: it takes them
all if the kind holds them all, and otherwise the first that it does not hold gives the error.
Any value is without a text exactly if a date or a table occurs in it. -/
theorem coerceList_numbers (value : Value) (kind : IntKind) :
    (value.Numeric ->
      exists text, value.text? = some text ∧
        coerceList text (.scalar (.int kind)) .value =
          (value.numbers.mapM fun n =>
            coerceValue (Text.signedDecimal n) (.scalar (.int kind)) .value) ∧
        (forall values, coerceList text (.scalar (.int kind)) .value = .ok values <->
          (forall n, n ∈ value.numbers -> kind.holds n = true) ∧
            values = value.numbers.map (VideoConfig.Value.ofInt kind)) ∧
        forall cause, coerceList text (.scalar (.int kind)) .value = .error cause <->
          exists before n behind, value.numbers = before ++ n :: behind ∧
            (forall m, m ∈ before -> kind.holds m = true) ∧
            coerceValue (Text.signedDecimal n) (.scalar (.int kind)) .value = .error cause) ∧
      (value.text? = none <-> exists part, Occurs part value ∧ Wordless part) := by
  constructor
  · intro h
    have hlist := h.coerceList_text (.scalar (.int kind)) .value
    refine ⟨commaText value.numbers, h.text?_eq, hlist, ?_, ?_⟩
    · intro values
      rw [hlist]
      exact mapM_signedDecimal_eq_ok
    · intro cause
      rw [hlist, mapM_eq_error_iff]
      simp only [mapM_signedDecimal_eq_ok]
      constructor
      · rintro ⟨before, n, behind, _, hnumbers, ⟨hbefore, _⟩, hn⟩
        exact ⟨before, n, behind, hnumbers, hbefore, hn⟩
      · rintro ⟨before, n, behind, hnumbers, hbefore, hn⟩
        exact ⟨before, n, behind, _, hnumbers, ⟨hbefore, rfl⟩, hn⟩
  · exact text?_eq_none_iff

/-- Numbers at different depths, of which the third is the first that the kind does not hold. -/
theorem coerceList_numbers_nested :
    let value := array [.integer 1, .array [.boolean true, .array [.integer 300]], .integer (-1)]
    exists text, value.text? = some text ∧
      coerceList text .u8 .value = .error (.outOfRange "300" .u8) := by
  intro value
  have hdeepest : Numeric (array [.integer 300]) :=
    .array (List.cons_ne_nil _ _) (List.forall_mem_singleton.mpr (.integer 300))
  have hinner : Numeric (array [.boolean true, .array [.integer 300]]) :=
    .array (List.cons_ne_nil _ _) (List.forall_mem_cons.mpr
      ⟨.boolean true, List.forall_mem_singleton.mpr hdeepest⟩)
  have hnumeric : value.Numeric :=
    .array (List.cons_ne_nil _ _) (List.forall_mem_cons.mpr ⟨.integer 1,
      List.forall_mem_cons.mpr ⟨hinner, List.forall_mem_singleton.mpr (.integer (-1))⟩⟩)
  rcases (coerceList_numbers value ⟨false, .w8⟩).left hnumeric with
    ⟨text, htext, _, _, herror⟩
  exact ⟨text, htext, (herror _).mpr ⟨[1, 1], 300, [-1], rfl, by decide, by decide +kernel⟩⟩

end Value
end Toml
end VideoConfig
