import Mathlib.Data.List.Forall2
import VideoConfig.Proofs.Attempt
import VideoConfig.Settings

/-!
# Assignments of merged settings

Merged settings assign what the user assigns and behind it what only the project assigns. A
path that both assign is assigned once: it keeps the place where the user has it, and takes
the text of the project.
-/

namespace VideoConfig

/-!
## Assigning a path anew

A path that is assigned already keeps its place.
-/

def reassign (assignments : List (String × String)) (new : String × String) :
    List (String × String) :=
  match assignments with
  | [] => [new]
  | first :: rest => if first.1 = new.1 then new :: rest else first :: reassign rest new

theorem mem_reassign {assignments : List (String × String)} {new entry : String × String}
    (h : entry ∈ reassign assignments new) : entry ∈ assignments ∨ entry = new := by
  induction assignments with
  | nil =>
      exact Or.inr (List.mem_singleton.mp h)
  | cons first rest ih =>
      unfold reassign at h
      split at h
      · rcases List.mem_cons.mp h with rfl | h
        · exact Or.inr rfl
        · exact Or.inl (List.mem_cons_of_mem _ h)
      · rcases List.mem_cons.mp h with rfl | h
        · exact Or.inl List.mem_cons_self
        · rcases ih h with h | h
          · exact Or.inl (List.mem_cons_of_mem _ h)
          · exact Or.inr h

theorem reassign_append_of_not_mem {first : List (String × String)} {new : String × String}
    (h : new.1 ∉ first.map Prod.fst) (second : List (String × String)) :
    reassign (first ++ second) new = first ++ reassign second new := by
  induction first with
  | nil =>
      rfl
  | cons entry rest ih =>
      rw [List.map_cons, List.mem_cons, not_or] at h
      rw [List.cons_append, reassign, if_neg (Ne.symm h.left), ih h.right]
      rfl

theorem reassign_append_of_mem {first : List (String × String)} {new : String × String}
    (h : new.1 ∈ first.map Prod.fst) (second : List (String × String)) :
    reassign (first ++ second) new = reassign first new ++ second := by
  induction first with
  | nil =>
      cases h
  | cons entry rest ih =>
      rw [List.cons_append, reassign, reassign]
      split
      · rfl
      · next hne =>
          rw [List.map_cons, List.mem_cons] at h
          rw [ih (h.resolve_left (Ne.symm hne))]
          rfl

theorem reassign_of_not_mem {assignments : List (String × String)} {new : String × String}
    (h : new.1 ∉ assignments.map Prod.fst) :
    reassign assignments new = assignments ++ [new] := by
  have happend := reassign_append_of_not_mem h []
  rwa [List.append_nil] at happend

theorem paths_reassign {assignments : List (String × String)} {new : String × String}
    {path : String} (h : path ∈ (reassign assignments new).map Prod.fst) :
    path ∈ assignments.map Prod.fst ∨ path = new.1 := by
  rcases List.mem_map.mp h with ⟨entry, hentry, rfl⟩
  rcases mem_reassign hentry with hentry | rfl
  · exact Or.inl (List.mem_map_of_mem hentry)
  · exact Or.inr rfl

theorem paths_foldl_reassign {assignments news : List (String × String)} {path : String}
    (h : path ∈ (news.foldl reassign assignments).map Prod.fst) :
    path ∈ assignments.map Prod.fst ∨ path ∈ news.map Prod.fst := by
  induction news generalizing assignments with
  | nil =>
      exact Or.inl h
  | cons new rest ih =>
      rcases ih h with h | h
      · rcases paths_reassign h with h | rfl
        · exact Or.inl h
        · exact Or.inr List.mem_cons_self
      · exact Or.inr (List.mem_cons_of_mem _ h)

theorem exists_first_assignment {assignments : List (String × String)} {path : String}
    (h : path ∈ assignments.map Prod.fst) :
    exists before text behind, assignments = before ++ (path, text) :: behind ∧
      path ∉ before.map Prod.fst := by
  induction assignments with
  | nil =>
      cases h
  | cons first rest ih =>
      by_cases hfirst : first.1 = path
      · subst hfirst
        exact ⟨[], first.2, rest, rfl, List.not_mem_nil⟩
      · rw [List.map_cons, List.mem_cons] at h
        rcases ih (h.resolve_left (Ne.symm hfirst)) with ⟨before, text, behind, rfl, hbefore⟩
        refine ⟨first :: before, text, behind, rfl, ?_⟩
        rw [List.map_cons, List.mem_cons, not_or]
        exact ⟨Ne.symm hfirst, hbefore⟩

/-- An assignment whose path is not assigned anew keeps its place, and behind it stand only
assignments that stood there or are new. -/
theorem exists_foldl_reassign {before news : List (String × String)} {path : String}
    (text : String) (between : List (String × String)) (hbefore : path ∉ before.map Prod.fst)
    (hnews : path ∉ news.map Prod.fst) :
    exists ahead behind,
      news.foldl reassign (before ++ (path, text) :: between) =
        ahead ++ (path, text) :: behind ∧
      path ∉ ahead.map Prod.fst ∧ forall entry, entry ∈ behind -> entry ∈ between ++ news := by
  induction news generalizing before between with
  | nil =>
      refine ⟨before, between, rfl, hbefore, ?_⟩
      intro entry hentry
      rwa [List.append_nil]
  | cons new rest ih =>
      rw [List.map_cons, List.mem_cons, not_or] at hnews
      rw [List.foldl_cons]
      by_cases hmem : new.1 ∈ before.map Prod.fst
      · rw [reassign_append_of_mem hmem]
        have hbefore' : path ∉ (reassign before new).map Prod.fst := by
          intro h
          rcases paths_reassign h with h | h
          · exact hbefore h
          · exact hnews.left h
        rcases ih _ hbefore' hnews.right with ⟨ahead, behind, heq, hahead, hbehind⟩
        refine ⟨ahead, behind, heq, hahead, ?_⟩
        intro entry hentry
        rcases List.mem_append.mp (hbehind entry hentry) with h | h
        · exact List.mem_append_left _ h
        · exact List.mem_append_right _ (List.mem_cons_of_mem _ h)
      · rw [reassign_append_of_not_mem hmem, reassign, if_neg hnews.left]
        rcases ih _ hbefore hnews.right with ⟨ahead, behind, heq, hahead, hbehind⟩
        refine ⟨ahead, behind, heq, hahead, ?_⟩
        intro entry hentry
        rcases List.mem_append.mp (hbehind entry hentry) with h | h
        · rcases mem_reassign h with h | rfl
          · exact List.mem_append_left _ h
          · exact List.mem_append_right _ List.mem_cons_self
        · exact List.mem_append_right _ (List.mem_cons_of_mem _ h)

/-!
## Assignments of settings
-/

namespace Settings

def Assigns (entry : String × Toml.Value) (assignment : String × String) : Prop :=
  assignment.1 = entry.1 ∧ entry.2.text? = some assignment.2

theorem assignments_eq_ok {settings : Settings} {assignments : List (String × String)} :
    settings.assignments = .ok assignments <->
      List.Forall₂ Assigns settings.params assignments := by
  unfold Settings.assignments
  rw [mapM_eq_ok_iff]
  refine iff_of_eq (congrArg (fun r => List.Forall₂ r settings.params assignments) ?_)
  funext ⟨path, value⟩ ⟨path', text⟩
  refine propext ?_
  unfold Assigns
  dsimp only
  split
  · next found htext =>
      rw [htext, Except.ok.injEq, Prod.mk.injEq, Option.some.injEq, eq_comm (a := path)]
  · next htext =>
      rw [htext]
      simp

theorem paths_of_assignments {settings : Settings} {assignments : List (String × String)}
    (h : settings.assignments = .ok assignments) :
    assignments.map Prod.fst = settings.params.map Prod.fst := by
  rw [assignments_eq_ok] at h
  generalize settings.params = params at h ⊢
  induction h with
  | nil =>
      rfl
  | cons hentry _ ih =>
      rw [List.map_cons, List.map_cons, hentry.left, ih]

theorem forall₂_insert {table : Toml.Table} {assignments : List (String × String)}
    (h : List.Forall₂ Assigns table assignments) {entry : String × Toml.Value}
    {assignment : String × String} (hentry : Assigns entry assignment) :
    List.Forall₂ Assigns (table.insert entry.1 entry.2) (reassign assignments assignment) := by
  induction h with
  | nil =>
      exact .cons hentry .nil
  | @cons first other rest others hfirst hrest ih =>
      unfold Toml.Table.insert reassign
      rw [hfirst.left, hentry.left]
      split
      · exact .cons hentry hrest
      · exact .cons hfirst ih

theorem assignments_merge {user project : Settings} {given added : List (String × String)}
    (huser : user.assignments = .ok given) (hproject : project.assignments = .ok added) :
    (user.merge project).assignments = .ok (added.foldl reassign given) := by
  rw [assignments_eq_ok] at huser hproject ⊢
  unfold merge
  dsimp only
  generalize user.params = table at huser
  generalize project.params = news at hproject
  induction hproject generalizing table given with
  | nil =>
      exact huser
  | cons hentry _ ih =>
      exact ih _ (forall₂_insert huser hentry)

end Settings
end VideoConfig
