import VideoConfig.Proofs.Matching.Meaning
import VideoConfig.Proofs.Record.Instances

/-!
# Checks of buffers

A check holds on a buffer if the values read there are the expected ones, or bound the
requested range. A check on the base record or on a buffer with an index is made on one
buffer alone.
-/

namespace VideoConfig
namespace Matching

def Check.Holds : Check -> Bytes -> Prop
  | equals location expected, buffer => expected <+: location.read buffer
  | contains members requested, buffer =>
      exists least greatest step : BitVec 32,
        members.least.read buffer = [.u32 least] ∧
        members.greatest.read buffer = [.u32 greatest] ∧
        members.step.read buffer = [.u32 step] ∧
        least.toNat ≤ requested.least ∧ requested.greatest ≤ greatest.toNat ∧
          step.toNat ≤ requested.step

/-- Whether a check is made on the buffers of a tag together with others: its path selects
none of them by an index. -/
def Check.OnTag (check : Check) (tag : Tag) : Prop :=
  exists name size, check.anchor.target = .extension tag name size none

theorem Check.OnTag.unique {check : Check} {tag tag' : Tag} (h : check.OnTag tag)
    (h' : check.OnTag tag') : tag = tag' := by
  rcases h with ⟨name, size, htarget⟩
  rcases h' with ⟨name', size', htarget'⟩
  cases htarget.symm.trans htarget'
  rfl

namespace Check

theorem storedWord?_eq_some {buffer : Bytes} {location : Location} {n : Nat} :
    storedWord? buffer location = some n <->
      exists word, location.read buffer = [.u32 word] ∧ word.toNat = n := by
  unfold storedWord?
  constructor
  · intro h
    split at h
    · next value hread =>
        rcases asWord?_eq_some.mp h with ⟨word, rfl, hword⟩
        exact ⟨word, hread, hword⟩
    · cases h
  · rintro ⟨word, hread, rfl⟩
    rw [hread]
    rfl

theorem storedRange?_eq_some {buffer : Bytes} {members : RangeMembers} {stored : NumberRange} :
    storedRange? buffer members = some stored <->
      exists least greatest step : BitVec 32, stored = rangeOf least greatest step ∧
        members.least.read buffer = [.u32 least] ∧
        members.greatest.read buffer = [.u32 greatest] ∧
        members.step.read buffer = [.u32 step] := by
  unfold storedRange?
  simp only [Option.bind_eq_bind, Option.bind_eq_some_iff, storedWord?_eq_some]
  constructor
  · rintro ⟨_, ⟨least, hleast, rfl⟩, _, ⟨greatest, hgreatest, rfl⟩, _, ⟨step, hstep, rfl⟩,
      hpure⟩
    cases hpure
    exact ⟨least, greatest, step, rfl, hleast, hgreatest, hstep⟩
  · rintro ⟨least, greatest, step, rfl, hleast, hgreatest, hstep⟩
    exact ⟨_, ⟨least, hleast, rfl⟩, _, ⟨greatest, hgreatest, rfl⟩, _, ⟨step, hstep, rfl⟩, rfl⟩

theorem within_iff {inner outer : NumberRange} :
    inner.within outer = true <->
      outer.least ≤ inner.least ∧ inner.greatest ≤ outer.greatest ∧
        outer.step ≤ inner.step := by
  simp [NumberRange.within, and_assoc]

theorem meets_iff {check : Check} {buffer : Bytes} :
    check.meets buffer = true <-> check.Holds buffer := by
  cases check with
  | equals location expected =>
      exact List.isPrefixOf_iff_prefix
  | contains members requested =>
      rw [meets, Holds]
      constructor
      · intro h
        split at h
        · next stored hstored =>
            rcases storedRange?_eq_some.mp hstored with
              ⟨least, greatest, step, rfl, hleast, hgreatest, hstep⟩
            exact ⟨least, greatest, step, hleast, hgreatest, hstep, within_iff.mp h⟩
        · cases h
      · rintro ⟨least, greatest, step, hleast, hgreatest, hstep, hwithin⟩
        rw [storedRange?_eq_some.mpr ⟨least, greatest, step, rfl, hleast, hgreatest, hstep⟩]
        exact within_iff.mpr hwithin

theorem holdsAt_iff {check : Check} {record : Record} {slot : Slot} :
    check.holdsAt record slot = true <->
      exists buffer, record.buffer? slot = some buffer ∧ check.Holds buffer := by
  unfold holdsAt
  constructor
  · intro h
    split at h
    · next buffer hbuffer =>
        exact ⟨buffer, hbuffer, meets_iff.mp h⟩
    · cases h
  · rintro ⟨buffer, hbuffer, hholds⟩
    rw [hbuffer]
    exact meets_iff.mpr hholds

theorem sharedTag?_eq_some {check : Check} {tag : Tag} :
    check.sharedTag? = some tag <-> check.OnTag tag := by
  unfold sharedTag? OnTag
  constructor
  · intro h
    split at h
    · next tag' name size htarget =>
        cases h
        exact ⟨name, size, htarget⟩
    · cases h
  · rintro ⟨name, size, htarget⟩
    rw [htarget]

end Check

/-- Whether a check that is made on one buffer alone holds there. A buffer that is selected
by an index has to be present. -/
structure HoldsAlone (record : Record) (check : Check) : Prop where
  base : check.anchor.target = .base -> check.Holds record.base
  selected : forall tag name size k,
    check.anchor.target = .extension tag name size (some k) ->
      exists attachment, (record.attachmentsOf tag)[k]? = some attachment ∧
        check.Holds attachment.bytes

theorem any_candidates_iff {record : Record} {check : Check} (h : check.sharedTag? = none) :
    ((record.candidates check.anchor).any fun slot => check.holdsAt record slot) = true <->
      HoldsAlone record check := by
  have hany : ((record.candidates check.anchor).any fun slot => check.holdsAt record slot) =
      true <->
        exists slot, slot ∈ record.candidates check.anchor ∧
          exists buffer, record.buffer? slot = some buffer ∧ check.Holds buffer := by
    simp only [List.any_eq_true, Check.holdsAt_iff]
  rw [hany]
  unfold Record.candidates
  cases htarget : check.anchor.target with
  | base =>
      constructor
      · rintro ⟨slot, hslot, buffer, hbuffer, hholds⟩
        rw [List.mem_singleton.mp hslot] at hbuffer
        rw [← Option.some.inj hbuffer] at hholds
        exact ⟨fun _ => hholds, fun _ _ _ _ heq => by rw [htarget] at heq; cases heq⟩
      · intro h
        exact ⟨.base, List.mem_singleton.mpr rfl, record.base, rfl, h.base htarget⟩
  | extension tag name size selector =>
      cases selector with
      | none =>
          rw [Check.sharedTag?_eq_some.mpr ⟨name, size, htarget⟩] at h
          cases h
      | some k =>
          have hinstance := record.bind_findInstance? tag k
          constructor
          · rintro ⟨slot, hslot, buffer, hbuffer, hholds⟩
            rw [Option.mem_toList.mp hslot, Option.bind_some, hbuffer] at hinstance
            rcases Option.map_eq_some_iff.mp hinstance.symm with ⟨attachment, hget, rfl⟩
            constructor
            · intro heq
              rw [htarget] at heq
              cases heq
            · intro tag' name' size' k' heq
              rw [htarget] at heq
              cases heq
              exact ⟨attachment, hget, hholds⟩
          · intro h
            rcases h.selected tag name size k htarget with ⟨attachment, hget, hholds⟩
            rw [hget, Option.map_some, Option.bind_eq_some_iff] at hinstance
            rcases hinstance with ⟨slot, hslot, hbuffer⟩
            exact ⟨slot, Option.mem_toList.mpr hslot, attachment.bytes, hbuffer, hholds⟩

end Matching
end VideoConfig
