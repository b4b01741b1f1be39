import Mathlib.Data.Nat.Find
import VideoConfig.Proofs.Matching.Abandoning
import VideoConfig.Selection

/-!
# Selecting and listing implementations

Both ways of going through the implementations ask for one index after the other. The listing
asks up to the first index without an implementation and names all that match; the selection
stops at the first that matches, and that is the head of the list. Either is abandoned exactly
if a descriptor for which it asks is matched with nothing to report.
-/

namespace VideoConfig
namespace Enumerator

variable {source : Enumerator} {filters : List Filter}

def verdict? (source : Enumerator) (filters : List Filter) (index : Nat) : Option Bool :=
  (source.answer index).bind fun descriptor => Matching.matches? descriptor filters

structure EndsAt (source : Enumerator) (n : Nat) : Prop where
  none_at : source.answer n = none
  some_before : forall i, i < n -> (source.answer i).isSome = true

theorem EndsAt.le_limit {n : Nat} (h : source.EndsAt n) : n ≤ source.limit := by
  by_contra hlt
  have hsome := h.some_before source.limit (Nat.lt_of_not_le hlt)
  rw [source.ends] at hsome
  cases hsome

theorem exists_endsAt (source : Enumerator) : exists n, source.EndsAt n := by
  have hends : exists n, source.answer n = none := ⟨source.limit, source.ends⟩
  refine ⟨Nat.find hends, Nat.find_spec hends, ?_⟩
  intro i hi
  exact Option.isSome_iff_ne_none.mpr (Nat.find_min hends hi)

theorem endsAt_ofList (descriptors : List Descriptor) :
    (ofList descriptors).EndsAt descriptors.length where
  none_at := List.getElem?_eq_none (Nat.le_refl _)
  some_before i hi := by
    show descriptors[i]?.isSome = true
    rw [List.getElem?_eq_getElem hi]
    rfl

/-- Whether the implementation of an index is one over which matching is abandoned: behind
filters that do not end the reading there is one over whose path nothing can be told. -/
def Untold (source : Enumerator) (filters : List Filter) (index : Nat) : Prop :=
  exists descriptor, source.answer index = some descriptor ∧
    exists before filter after, filters = before ++ filter :: after ∧
      (forall earlier, earlier ∈ before -> Matching.ReadsOn descriptor earlier) ∧
      Matching.Untold descriptor.record.schema filter.path

theorem verdict?_eq_none {index : Nat} (h : (source.answer index).isSome = true) :
    source.verdict? filters index = none <-> source.Untold filters index := by
  rcases Option.isSome_iff_exists.mp h with ⟨descriptor, hanswer⟩
  simp only [verdict?, Untold, hanswer, Option.bind_some, Option.some.injEq, exists_eq_left',
    Matching.matches?_eq_none]

/-!
## One request
-/

theorem matchingFrom?_of_none {index : Nat} (h : source.answer index = none) (remaining : Nat) :
    source.matchingFrom? filters remaining index = some { result := [], requests := [index] } := by
  cases remaining <;> rw [matchingFrom?, h]

theorem matchingFrom?_of_some {index : Nat} (h : (source.answer index).isSome = true)
    (remaining : Nat) :
    source.matchingFrom? filters (remaining + 1) index =
      (source.verdict? filters index).bind fun accepted =>
        (source.matchingFrom? filters remaining (index + 1)).map fun found =>
          { result := if accepted then index :: found.result else found.result
            requests := index :: found.requests } := by
  rcases Option.isSome_iff_exists.mp h with ⟨descriptor, hanswer⟩
  rw [matchingFrom?, verdict?, hanswer]
  dsimp only [Option.bind_some]
  cases Matching.matches? descriptor filters with
  | none =>
      rfl
  | some accepted =>
      rfl

theorem selectFrom?_of_none {index : Nat} (h : source.answer index = none) (remaining : Nat) :
    source.selectFrom? filters remaining index =
      some { result := none, requests := [index] } := by
  cases remaining <;> rw [selectFrom?, h]

theorem selectFrom?_of_some {index : Nat} (h : (source.answer index).isSome = true)
    (remaining : Nat) :
    source.selectFrom? filters (remaining + 1) index =
      (source.verdict? filters index).bind fun accepted =>
        if accepted then some { result := some index, requests := [index] }
        else (source.selectFrom? filters remaining (index + 1)).map fun found =>
          found.after index := by
  rcases Option.isSome_iff_exists.mp h with ⟨descriptor, hanswer⟩
  rw [selectFrom?, verdict?, hanswer]
  dsimp only [Option.bind_some]
  cases Matching.matches? descriptor filters with
  | none =>
      rfl
  | some accepted =>
      cases accepted <;> rfl

/-!
## A row of requests

Both are told by the indexes of the row alone: the listing by all of them, the selection by the
first that does not fail to match.
-/

/-- From an index on, the next `count` indexes have implementations and the one behind them has
none. -/
inductive Row (source : Enumerator) : (index count : Nat) -> Prop where
  | stop {index : Nat} : source.answer index = none -> Row source index 0
  | step {index count : Nat} : (source.answer index).isSome = true ->
      Row source (index + 1) count -> Row source index (count + 1)

theorem EndsAt.row {n : Nat} (h : source.EndsAt n) {index count : Nat}
    (hcount : index + count = n) : source.Row index count := by
  induction count generalizing index with
  | zero =>
      apply Row.stop
      rw [← h.none_at, ← hcount, Nat.add_zero]
  | succ count ih =>
      apply Row.step
      · apply h.some_before
        omega
      · apply ih
        omega

theorem Row.matchingFrom?_eq {index count : Nat} (h : source.Row index count) {remaining : Nat}
    (hbound : count ≤ remaining) :
    source.matchingFrom? filters remaining index =
      if (List.range' index count).any fun i => (source.verdict? filters i).isNone then
        none
      else
        some {
          result := (List.range' index count).filter fun i => source.verdict? filters i = some true
          requests := List.range' index (count + 1) } := by
  induction h generalizing remaining with
  | stop hnone =>
      rw [matchingFrom?_of_none hnone]
      simp
  | @step index count hsome _ ih =>
      cases remaining with
      | zero =>
          cases hbound
      | succ remaining =>
          rw [matchingFrom?_of_some hsome, ih (Nat.le_of_succ_le_succ hbound),
            @List.range'_succ index count, @List.range'_succ index (count + 1),
            List.any_cons, List.filter_cons]
          cases source.verdict? filters index with
          | none =>
              rfl
          | some accepted =>
              cases (List.range' (index + 1) count).any fun i =>
                  (source.verdict? filters i).isNone with
              | true =>
                  rfl
              | false =>
                  cases accepted <;> rfl

theorem Row.selectFrom?_eq {index count : Nat} (h : source.Row index count) {remaining : Nat}
    (hbound : count ≤ remaining) :
    source.selectFrom? filters remaining index =
      match (List.range' index count).find? fun i => source.verdict? filters i ≠ some false with
      | none => some { result := none, requests := List.range' index (count + 1) }
      | some i =>
          (source.verdict? filters i).map fun _ =>
            { result := some i, requests := List.range' index (i - index + 1) } := by
  induction h generalizing remaining with
  | stop hnone =>
      rw [selectFrom?_of_none hnone]
      rfl
  | @step index count hsome _ ih =>
      cases remaining with
      | zero =>
          cases hbound
      | succ remaining =>
          rw [selectFrom?_of_some hsome, ih (Nat.le_of_succ_le_succ hbound),
            @List.range'_succ index count, @List.range'_succ index (count + 1)]
          cases hverdict : source.verdict? filters index with
          | none =>
              simp [hverdict]
          | some accepted =>
              cases accepted with
              | true =>
                  simp [hverdict]
              | false =>
                  rw [List.find?_cons_of_neg (by simp [hverdict])]
                  cases hfind : (List.range' (index + 1) count).find? fun i =>
                      source.verdict? filters i ≠ some false with
                  | none =>
                      rfl
                  | some i =>
                      have hle : index + 1 ≤ i :=
                        (List.mem_range'_1.mp (List.mem_of_find?_eq_some hfind)).1
                      have hrequests : List.range' index (i - index + 1) =
                          index :: List.range' (index + 1) (i - (index + 1) + 1) := by
                        rw [← List.range'_succ]
                        congr 1
                        omega
                      dsimp only
                      rw [hrequests]
                      cases source.verdict? filters i <;> rfl

/-!
## Whole runs

Every source comes to an end. The listing is abandoned over any implementation over which
matching is, and the selection only over one that stands before all that match.
-/

theorem matching?_eq {n : Nat} (h : source.EndsAt n) :
    source.matching? filters =
      if (List.range n).any fun i => (source.verdict? filters i).isNone then
        none
      else
        some {
          result := (List.range n).filter fun i => source.verdict? filters i = some true
          requests := List.range (n + 1) } := by
  rw [matching?, (h.row (Nat.zero_add n)).matchingFrom?_eq h.le_limit, List.range_eq_range',
    List.range_eq_range']

theorem select?_eq {n : Nat} (h : source.EndsAt n) :
    source.select? filters =
      match (List.range n).find? fun i => source.verdict? filters i ≠ some false with
      | none => some { result := none, requests := List.range (n + 1) }
      | some i =>
          (source.verdict? filters i).map fun _ =>
            { result := some i, requests := List.range (i + 1) } := by
  rw [select?, (h.row (Nat.zero_add n)).selectFrom?_eq h.le_limit]
  simp only [List.range_eq_range', Nat.sub_zero]

theorem matching?_eq_none {n : Nat} (h : source.EndsAt n) :
    source.matching? filters = none <-> exists i, i < n ∧ source.verdict? filters i = none := by
  rw [matching?_eq h]
  simp

theorem select?_cases (filters : List Filter) {n : Nat} (h : source.EndsAt n) :
    (exists i, i < n ∧ source.verdict? filters i = none ∧
      (forall j, j < i -> source.verdict? filters j = some false) ∧
      source.select? filters = none) ∨
    (exists i, i < n ∧ source.verdict? filters i = some true ∧
      (forall j, j < i -> source.verdict? filters j = some false) ∧
      source.select? filters = some { result := some i, requests := List.range (i + 1) }) ∨
    (forall j, j < n -> source.verdict? filters j = some false) ∧
      source.select? filters = some { result := none, requests := List.range (n + 1) } := by
  rw [select?_eq h]
  cases hfind : (List.range n).find? fun i => source.verdict? filters i ≠ some false with
  | none =>
      refine Or.inr (Or.inr ⟨?_, rfl⟩)
      simpa using hfind
  | some i =>
      rw [List.find?_range_eq_some] at hfind
      rcases hfind with ⟨hstops, hi, hbefore⟩
      have hi := List.mem_range.mp hi
      have hbefore : forall j, j < i -> source.verdict? filters j = some false := by
        simpa using hbefore
      dsimp only
      cases hverdict : source.verdict? filters i with
      | none =>
          exact Or.inl ⟨i, hi, hverdict, hbefore, rfl⟩
      | some accepted =>
          cases accepted with
          | false =>
              simp [hverdict] at hstops
          | true =>
              exact Or.inr (Or.inl ⟨i, hi, hverdict, hbefore, rfl⟩)

theorem select?_eq_none {n : Nat} (h : source.EndsAt n) :
    source.select? filters = none <->
      exists i, i < n ∧ source.verdict? filters i = none ∧
        forall j, j < i -> source.verdict? filters j = some false := by
  constructor
  · intro hnone
    rcases select?_cases filters h with
      ⟨i, hi, hverdict, hbefore, _⟩ | ⟨i, _, _, _, hsome⟩ | ⟨_, hsome⟩
    · exact ⟨i, hi, hverdict, hbefore⟩
    · cases hnone.symm.trans hsome
    · cases hnone.symm.trans hsome
  · rintro ⟨i, hi, hverdict, hbefore⟩
    rcases select?_cases filters h with
      ⟨_, _, _, _, hnone⟩ | ⟨k, _, hmatches, hrejected, _⟩ | ⟨hrejected, _⟩
    · exact hnone
    · rcases Nat.lt_trichotomy i k with hlt | rfl | hlt
      · cases hverdict.symm.trans (hrejected i hlt)
      · cases hverdict.symm.trans hmatches
      · cases hmatches.symm.trans (hbefore k hlt)
    · cases hverdict.symm.trans (hrejected i hi)

/-!
## Selecting and listing together
-/

/-- What the listing comes to, if the first index without an implementation is `n`: the
indexes of all that match, in order, after one request for every index up to `n`. -/
structure Lists (source : Enumerator) (filters : List Filter) (n : Nat)
    (listed : Requested (List Nat)) : Prop where
  requests : listed.requests = List.range (n + 1)
  ordered : listed.result.Pairwise fun first second => first < second
  matching : forall i, i ∈ listed.result <-> i < n ∧ source.verdict? filters i = some true

/-- What the selection comes to: the first index that matches, after one request for every
index up to it, or up to `n` if none does. -/
structure Selects (source : Enumerator) (filters : List Filter) (n : Nat)
    (selected : Requested (Option Nat)) : Prop where
  found : forall i, selected.result = some i ->
    selected.requests = List.range (i + 1) ∧ i < n ∧ source.verdict? filters i = some true ∧
      forall j, j < i -> source.verdict? filters j = some false
  missed : selected.result = none -> selected.requests = List.range (n + 1) ∧
    forall j, j < n -> source.verdict? filters j = some false

theorem eq_filter_of_matching? {n : Nat} (h : source.EndsAt n) {listed : Requested (List Nat)}
    (hlisted : source.matching? filters = some listed) :
    listed.result = ((List.range n).filter fun i => source.verdict? filters i = some true) ∧
      listed.requests = List.range (n + 1) := by
  rw [matching?_eq h] at hlisted
  split at hlisted
  · cases hlisted
  · cases hlisted
    exact ⟨rfl, rfl⟩

theorem lists_of_matching? {n : Nat} (h : source.EndsAt n) {listed : Requested (List Nat)}
    (hlisted : source.matching? filters = some listed) : source.Lists filters n listed := by
  rcases eq_filter_of_matching? h hlisted with ⟨hresult, hrequests⟩
  constructor
  · exact hrequests
  · rw [hresult]
    exact List.pairwise_lt_range.filter _
  · intro i
    rw [hresult, List.mem_filter, List.mem_range, decide_eq_true_eq]

theorem selects_of_select? {n : Nat} (h : source.EndsAt n)
    {selected : Requested (Option Nat)} (hselected : source.select? filters = some selected) :
    source.Selects filters n selected := by
  rcases select?_cases filters h with
    ⟨_, _, _, _, hnone⟩ | ⟨i, hi, hverdict, hbefore, hsome⟩ | ⟨hrejected, hsome⟩
  · cases hselected.symm.trans hnone
  · cases hselected.symm.trans hsome
    constructor
    · rintro _ ⟨⟩
      exact ⟨rfl, hi, hverdict, hbefore⟩
    · rintro ⟨⟩
  · cases hselected.symm.trans hsome
    constructor
    · rintro _ ⟨⟩
    · intro _
      exact ⟨rfl, hrejected⟩

theorem result_of_select? {n : Nat} (h : source.EndsAt n) {listed : Requested (List Nat)}
    (hlisted : source.matching? filters = some listed) {selected : Requested (Option Nat)}
    (hselected : source.select? filters = some selected) :
    selected.result = listed.result.head? := by
  have hselects := selects_of_select? h hselected
  rw [(eq_filter_of_matching? h hlisted).left, List.head?_filter]
  symm
  cases hresult : selected.result with
  | none =>
      rw [List.find?_eq_none]
      intro i hi
      rw [(hselects.missed hresult).right i (List.mem_range.mp hi)]
      decide
  | some i =>
      rcases hselects.found i hresult with ⟨_, hi, hverdict, hbefore⟩
      rw [List.find?_range_eq_some]
      refine ⟨decide_eq_true hverdict, List.mem_range.mpr hi, ?_⟩
      intro j hj
      rw [hbefore j hj]
      rfl

/-- Selecting and listing agree and ask for no more than they need. The listing is abandoned
exactly if matching is abandoned over some implementation, and the selection if it is before one
matches; in all other cases they come to the implementations that match and to the first of
them. -/
theorem selects_head_of_matching (source : Enumerator) (filters : List Filter) {n : Nat}
    (h : source.EndsAt n) :
    (source.matching? filters = none <-> exists i, i < n ∧ source.Untold filters i) ∧
    (source.select? filters = none <->
      exists i, i < n ∧ source.Untold filters i ∧
        forall j, j < i -> source.verdict? filters j = some false) ∧
    (forall listed, source.matching? filters = some listed -> source.Lists filters n listed) ∧
    (forall selected, source.select? filters = some selected ->
      source.Selects filters n selected) ∧
    forall listed selected, source.matching? filters = some listed ->
      source.select? filters = some selected -> selected.result = listed.result.head? := by
  have huntold : forall i, i < n ->
      (source.verdict? filters i = none <-> source.Untold filters i) :=
    fun i hi => verdict?_eq_none (h.some_before i hi)
  refine ⟨?_, ?_, fun _ => lists_of_matching? h, fun _ => selects_of_select? h,
    fun _ _ hlisted => result_of_select? h hlisted⟩
  · rw [matching?_eq_none h]
    exact exists_congr fun i => and_congr_right fun hi => huntold i hi
  · rw [select?_eq_none h]
    exact exists_congr fun i => and_congr_right fun hi => and_congr_left fun _ => huntold i hi

/-- Of three implementations the second and the third are of the vendor that is wanted. -/
theorem selects_head_of_matching_vendor :
    let vendor (identifier : String) : Descriptor := {
      name := "gpu"
      record := (Record.new Catalog.implementationDescription).run [.set "VendorID" identifier]
      live := [] }
    let source := ofList [vendor "4318", vendor "32902", vendor "+32902"]
    let filters : List Filter := [{ path := "VendorID", expected := .text "32902" }]
    source.EndsAt 3 ∧
      (exists listed, source.matching? filters = some listed ∧ source.Lists filters 3 listed ∧
        listed.result = [1, 2] ∧ listed.requests = [0, 1, 2, 3]) ∧
      exists selected, source.select? filters = some selected ∧
        source.Selects filters 3 selected ∧ selected.result = some 1 ∧
        selected.requests = [0, 1] := by
  intro vendor source filters
  have hends : source.EndsAt 3 := endsAt_ofList _
  rcases selects_head_of_matching source filters hends with ⟨_, _, hlists, hselects, _⟩
  have hlisted : source.matching? filters =
      some { result := [1, 2], requests := [0, 1, 2, 3] } := by
    decide +kernel
  have hselected : source.select? filters =
      some { result := some 1, requests := [0, 1] } := by
    decide +kernel
  exact ⟨hends, ⟨_, hlisted, hlists _ hlisted, rfl, rfl⟩,
    ⟨_, hselected, hselects _ hselected, rfl, rfl⟩⟩

/-- Neither comes to a result over a filter of which the path opens with a character outside
ASCII, whatever matches without it. -/
theorem selection_abandoned_accented :
    let source := ofList [Descriptor.new "gpu"]
    let filters : List Filter := [{ path := "é", expected := .text "1" }]
    (source.answer 0).isSome = true ∧ source.answer 1 = none ∧
      source.matching? filters = none ∧ source.select? filters = none := by
  decide +kernel

end Enumerator
end VideoConfig
