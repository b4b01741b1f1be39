import Mathlib.Data.List.Forall2
import VideoConfig.Failure

/-!
# Results of chained computations

A chain of computations has a result exactly if every link has one. The error of a list of
computations is that of the first without a result.
-/

namespace VideoConfig

variable {ε ε' α β : Type}

theorem bind_eq_ok {x : Except ε α} {f : α -> Except ε β} {b : β} :
    (x >>= f) = .ok b <-> exists a, x = .ok a ∧ f a = .ok b := by
  cases x with
  | error e =>
      constructor
      · intro h
        cases h
      · rintro ⟨a, ha, _⟩
        cases ha
  | ok a =>
      constructor
      · intro h
        exact ⟨a, rfl, h⟩
      · rintro ⟨a', ha, h⟩
        cases ha
        exact h

theorem bind_eq_error {x : Except ε α} {f : α -> Except ε β} {e : ε} :
    (x >>= f) = .error e <-> x = .error e ∨ exists a, x = .ok a ∧ f a = .error e := by
  cases x with
  | error e' =>
      constructor
      · intro h
        cases h
        exact Or.inl rfl
      · rintro (h | ⟨a, ha, _⟩)
        · cases h
          rfl
        · cases ha
  | ok a =>
      constructor
      · intro h
        exact Or.inr ⟨a, rfl, h⟩
      · rintro (h | ⟨a', ha, h⟩)
        · cases h
        · cases ha
          exact h

theorem pure_eq_ok {a b : α} : (pure a : Except ε α) = .ok b <-> a = b := by
  constructor
  · intro h
    cases h
    rfl
  · intro h
    rw [h]
    rfl

theorem map_eq_ok {x : Except ε α} {f : α -> β} {b : β} :
    x.map f = .ok b <-> exists a, x = .ok a ∧ f a = b := by
  cases x with
  | error e =>
      constructor
      · intro h
        cases h
      · rintro ⟨a, ha, _⟩
        cases ha
  | ok a =>
      constructor
      · intro h
        cases h
        exact ⟨a, rfl, rfl⟩
      · rintro ⟨a', ha, h⟩
        cases ha
        rw [← h]
        rfl

theorem mapError_eq_ok {x : Except ε α} {f : ε -> ε'} {a : α} :
    x.mapError f = .ok a <-> x = .ok a := by
  cases x with
  | error e =>
      constructor <;> intro h <;> cases h
  | ok b =>
      constructor <;> intro h <;> cases h <;> rfl

theorem mapError_eq_error {x : Except ε α} {f : ε -> ε'} {e : ε'} :
    x.mapError f = .error e <-> exists e', x = .error e' ∧ f e' = e := by
  cases x with
  | error e' =>
      constructor
      · intro h
        cases h
        exact ⟨e', rfl, rfl⟩
      · rintro ⟨e'', he, h⟩
        cases he
        rw [← h]
        rfl
  | ok a =>
      constructor
      · intro h
        cases h
      · rintro ⟨e', he, _⟩
        cases he

theorem mapError_refused_ne_abandoned (x : Except ε α) :
    x.mapError Failure.refused ≠ .error .abandoned := by
  intro h
  rcases mapError_eq_error.mp h with ⟨cause, _, heq⟩
  cases heq

theorem toOption_eq_some {x : Except ε α} {a : α} :
    x.toOption = some a <-> x = .ok a := by
  cases x <;> simp [Except.toOption]

theorem mapM_eq_ok_iff {f : α -> Except ε β} {items : List α} {results : List β} :
    items.mapM f = .ok results <-> List.Forall₂ (fun a b => f a = .ok b) items results := by
  induction items generalizing results with
  | nil =>
      rw [List.mapM_nil, pure_eq_ok, List.forall₂_nil_left_iff]
      exact eq_comm
  | cons a rest ih =>
      rw [List.mapM_cons, bind_eq_ok, List.forall₂_cons_left_iff]
      constructor
      · rintro ⟨first, hfirst, h⟩
        rcases bind_eq_ok.mp h with ⟨others, hothers, hpure⟩
        exact ⟨first, others, hfirst, ih.mp hothers, (pure_eq_ok.mp hpure).symm⟩
      · rintro ⟨first, others, hfirst, hothers, rfl⟩
        exact ⟨first, hfirst, bind_eq_ok.mpr ⟨others, ih.mpr hothers, rfl⟩⟩

theorem mapM_eq_error_iff {f : α -> Except ε β} {items : List α} {e : ε} :
    items.mapM f = .error e <->
      exists before item behind results, items = before ++ item :: behind ∧
        before.mapM f = .ok results ∧ f item = .error e := by
  induction items with
  | nil =>
      rw [List.mapM_nil]
      constructor
      · intro h
        cases h
      · rintro ⟨before, item, behind, _, hitems, _⟩
        exact absurd hitems.symm (List.append_ne_nil_of_right_ne_nil _ (List.cons_ne_nil _ _))
  | cons first rest ih =>
      rw [List.mapM_cons, bind_eq_error]
      constructor
      · rintro (hfirst | ⟨result, hfirst, hrest⟩)
        · exact ⟨[], first, rest, [], rfl, rfl, hfirst⟩
        · rcases bind_eq_error.mp hrest with hrest | ⟨_, _, hpure⟩
          · rcases ih.mp hrest with ⟨before, item, behind, results, rfl, hbefore, hitem⟩
            refine ⟨first :: before, item, behind, result :: results, rfl, ?_, hitem⟩
            rw [List.mapM_cons, hfirst, hbefore]
            rfl
          · cases hpure
      · rintro ⟨before, item, behind, results, hitems, hbefore, hitem⟩
        cases before with
        | nil =>
            cases hitems
            exact Or.inl hitem
        | cons first' before =>
            rw [List.cons_append, List.cons.injEq] at hitems
            rcases hitems with ⟨rfl, rfl⟩
            rw [List.mapM_cons, bind_eq_ok] at hbefore
            rcases hbefore with ⟨result, hfirst, hbefore⟩
            rcases bind_eq_ok.mp hbefore with ⟨others, hothers, _⟩
            exact Or.inr ⟨result, hfirst,
              bind_eq_error.mpr (Or.inl (ih.mpr ⟨before, item, behind, others, rfl, hothers,
                hitem⟩))⟩

theorem forall_of_mapM_eq_ok {f : α -> Except ε β} {p : β -> Prop} {items : List α}
    {results : List β} (hf : forall a b, f a = .ok b -> p b)
    (h : items.mapM f = .ok results) : forall b, b ∈ results -> p b := by
  rw [mapM_eq_ok_iff] at h
  induction h with
  | nil =>
      exact List.forall_mem_nil p
  | cons hfirst _ ih =>
      exact List.forall_mem_cons.mpr ⟨hf _ _ hfirst, ih⟩

end VideoConfig
