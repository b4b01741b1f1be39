import VideoConfig.Assignments
import VideoConfig.Proofs.Access.Applying

/-!
# Runs of assignments

A run of assignments that succeeds goes through a record after every one of them. It keeps
the buffers that are attached and every byte that none of the texts is written over, and it
leads the same way whether or not missing buffers would be attached, as none was missing in a
run that attaches nothing.
-/

namespace VideoConfig
namespace Record

variable {schema : Schema} {declarations : List Declaration}
  {aliases : List (String × String)} {record : Record}

/-!
## One assignment after the other

An assignment that succeeds applies its text whether or not a missing buffer would be
attached, so a run that succeeds is one in which missing buffers are attached.
-/

theorem assignAll_cons {path text : String} {rest : List (String × String)} {final : Record} :
    record.assignAll true ((path, text) :: rest) = .ok final <->
      exists changed, record.apply path text = { record := changed, result := .ok () } ∧
        changed.assignAll true rest = .ok final := by
  have hassign : record.assign true path text = record.apply path text := rfl
  rw [Record.assignAll, hassign]
  rcases record.apply path text with ⟨changed, failure | _⟩
  · simp
  · simp

theorem assignAll_append {attaches : Bool} {first second : List (String × String)}
    {final : Record} :
    record.assignAll attaches (first ++ second) = .ok final <->
      exists between, record.assignAll attaches first = .ok between ∧
        between.assignAll attaches second = .ok final := by
  induction first generalizing record with
  | nil =>
      simp [assignAll]
  | cons entry rest ih =>
      rcases entry with ⟨path, text⟩
      rw [List.cons_append, assignAll, assignAll]
      rcases record.assign attaches path text with ⟨changed, failure | _⟩
      · simp
      · exact ih

theorem assignAll_single {path text : String} {final : Record} :
    record.assignAll true [(path, text)] = .ok final <->
      record.apply path text = { record := final, result := .ok () } := by
  rw [assignAll_cons]
  simp [assignAll]

theorem apply_of_assign {attaches : Bool} {path text : String} {changed : Record}
    (h : record.assign attaches path text = { record := changed, result := .ok () }) :
    record.apply path text = { record := changed, result := .ok () } := by
  cases attaches with
  | true =>
      exact h
  | false =>
      have hset : record.set path text = { record := changed, result := .ok () } := h
      refine (apply_of_not_missing ?_).trans hset
      intro path' tag size hmissing
      rw [hset] at hmissing
      cases hmissing

theorem assignAll_attaching {attaches : Bool} {assignments : List (String × String)}
    {final : Record} (hrun : record.assignAll attaches assignments = .ok final) :
    record.assignAll true assignments = .ok final := by
  induction assignments generalizing record with
  | nil =>
      exact hrun
  | cons entry rest ih =>
      rcases entry with ⟨path, text⟩
      rw [Record.assignAll] at hrun
      cases hassign : record.assign attaches path text with
      | mk changed result =>
          rw [hassign] at hrun
          cases result with
          | error failure =>
              cases hrun
          | ok _ =>
              exact assignAll_cons.mpr ⟨changed, apply_of_assign hassign, ih hrun⟩

/-!
## What a run keeps
-/

/-- What a run of assignments keeps: the form of the record, the buffers that are attached, and
every byte that none of the texts is written over. -/
theorem WellFormed.assignAll (hbuilt : schema.BuiltFrom declarations aliases)
    (hcodes : schema.CodesFit) (h : record.WellFormed schema)
    {assignments : List (String × String)} {final : Record}
    (hrun : record.assignAll true assignments = .ok final) :
    final.WellFormed schema ∧
      (forall target, record.Holds target -> final.Holds target) ∧
      forall target k byte,
        (forall entry, entry ∈ assignments -> ¬ schema.Writes entry.1 entry.2 target k) ->
          record.byteOf? target k = some byte -> final.byteOf? target k = some byte := by
  induction assignments generalizing record with
  | nil =>
      cases hrun
      exact ⟨h, fun _ hholds => hholds, fun _ _ _ _ hbyte => hbyte⟩
  | cons entry rest ih =>
      rcases entry with ⟨path, text⟩
      rcases assignAll_cons.mp hrun with ⟨changed, happly, hrest⟩
      rcases (h.apply_eq_ok hbuilt hcodes).mp happly with ⟨location, hresolve, _⟩
      rcases h.apply_holds hbuilt hcodes happly hresolve with ⟨hchanged, _, htags⟩
      rcases ih hchanged hrest with ⟨hfinal, hholds, hbytes⟩
      refine ⟨hfinal, ?_, ?_⟩
      · intro target htarget
        exact hholds target ((holds_tags htags).mpr (htarget.prepared location.target))
      · intro target k byte hkept hbyte
        refine hbytes target k byte (fun other hother => hkept other (.tail _ hother)) ?_
        exact h.apply_keeps_some hbuilt hcodes happly (hkept _ (.head _)) hbyte

variable {bytes : Target -> Nat -> Prop} {first second final final' : Record}

theorem AgreeOn.assignAll (hbuilt : schema.BuiltFrom declarations aliases)
    (hcodes : schema.CodesFit) (h : AgreeOn schema bytes first second)
    {assignments : List (String × String)}
    (hrun : first.assignAll true assignments = .ok final) :
    exists final', second.assignAll true assignments = .ok final' ∧
      AgreeOn schema bytes final final' := by
  induction assignments generalizing first second with
  | nil =>
      cases hrun
      exact ⟨second, rfl, h⟩
  | cons entry rest ih =>
      rcases entry with ⟨path, text⟩
      rcases assignAll_cons.mp hrun with ⟨changed, happly, hrest⟩
      rcases h.apply hbuilt hcodes happly with ⟨changed', happly', hagree⟩
      rcases ih hagree hrest with ⟨final', hrest', hfinal⟩
      exact ⟨final', assignAll_cons.mpr ⟨changed', happly', hrest'⟩, hfinal⟩

end Record
end VideoConfig
