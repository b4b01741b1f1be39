import VideoConfig.Proofs.Access.Storing
import VideoConfig.Proofs.Location.Selectors
import VideoConfig.Proofs.Record.Instances

/-!
# Storing behind a selector

A text that is stored behind the name of an extension with a selector goes to the buffer
that is selected. What becomes of the buffer is the same for every selector.
-/

namespace VideoConfig
namespace Location

/-!
## What becomes of a buffer

A text is stored in the buffer that is selected, also if that is the one that was attached
last. Nothing is stored behind a selector that is too large.
-/

theorem writeElements?_retargeted (target : Target) (location : Location) (buffer : Bytes)
    (i : Nat) (values : List Value) :
    (retargeted target location).writeElements? buffer i values =
      location.writeElements? buffer i values := by
  induction values generalizing buffer i with
  | nil =>
      rfl
  | cons value rest ih =>
      unfold writeElements?
      simp only [ih]
      rfl

theorem write?_retargeted (target : Target) (location : Location) (buffer : Bytes)
    (payload : Payload) :
    (retargeted target location).write? buffer payload = location.write? buffer payload := by
  cases payload with
  | text bytes =>
      rfl
  | elements values =>
      exact writeElements?_retargeted target location buffer 0 _

/-- Whether a text that is stored behind the name of an extension changes a buffer of the
extension from one content to another. -/
def StoresBehind (schema : Schema) (name tail value : String) (before after : Bytes) : Prop :=
  exists location payload, resolve schema (name ++ tail) = .ok location ∧
    location.isHeader = false ∧ location.payload value = .ok payload ∧
    location.write? before payload = some after

theorem StoresBehind.unique {schema : Schema} {name tail value : String}
    {before after after' : Bytes} (h : StoresBehind schema name tail value before after)
    (h' : StoresBehind schema name tail value before after') : after = after' := by
  rcases h with ⟨location, payload, hresolve, _, hpayload, hwritten⟩
  rcases h' with ⟨location', payload', hresolve', _, hpayload', hwritten'⟩
  cases hresolve.symm.trans hresolve'
  cases hpayload.symm.trans hpayload'
  exact Option.some.inj (hwritten.symm.trans hwritten')

end Location

namespace Record

open Location

variable {record changed : Record} {name tail value : String} {type : RecordType} {tag : Tag}
  {k : Nat}

theorem stored_selected (hnames : NamesExtension record.schema name type tag)
    (htail : forall c, tail.toList.head? = some c -> c = '.') (hk : k < instanceLimit)
    {slot : Slot} (hslot : record.findInstance? tag k = some slot) :
    record.stored (name ++ String.ofList (Path.bracketsText [some k]) ++ tail) value =
        .ok changed <->
      exists before after, record.buffer? slot = some before ∧
        StoresBehind record.schema name tail value before after ∧
        changed = record.setBuffer slot after := by
  have hselected := outcome_selected hnames htail hk
  rw [stored_eq_ok]
  constructor
  · rintro ⟨steps, rfl⟩
    rw [steps.resolved] at hselected
    rcases map_eq_ok.mp hselected.symm with ⟨location, hplain, hlocation⟩
    have hresolve := outcome_eq_ok.mp hplain
    have hslot' : steps.slot = slot := by
      have htarget : steps.location.target = .extension tag type.name type.size (some k) := by
        rw [← hlocation]
        rfl
      have hfound := (negotiate_extension_iff htarget).mp steps.negotiated
      rw [Option.getD_some, hslot] at hfound
      exact (Option.some.inj hfound).symm
    have hheader : location.isHeader = false := by
      have hbody := steps.body
      rw [← hlocation] at hbody
      unfold isHeader at hbody ⊢
      rw [target_of_unselected hnames htail hresolve]
      exact hbody
    refine ⟨steps.before, steps.after, ?_, ⟨location, steps.payload, hresolve, hheader, ?_, ?_⟩,
      ?_⟩
    · rw [← hslot']
      exact steps.found
    · have hcoerced := steps.coerced
      rw [← hlocation] at hcoerced
      exact hcoerced
    · rw [← write?_retargeted, hlocation]
      exact steps.written
    · rw [← hslot']
      rfl
  · rintro ⟨before, after, hfound, ⟨location, payload, hresolve, hbody, hcoerced, hwritten⟩, rfl⟩
    rw [hresolve] at hselected
    refine ⟨{
      location := retargeted (.extension tag type.name type.size (some k)) location
      slot, payload, before, after
      resolved := outcome_eq_ok.mp hselected
      body := ?_
      negotiated := ?_
      coerced := hcoerced
      found := hfound
      written := ?_ }, rfl⟩
    · unfold isHeader at hbody ⊢
      rw [target_of_unselected hnames htail hresolve] at hbody
      exact hbody
    · exact (negotiate_extension_iff rfl).mpr hslot
    · rw [write?_retargeted]
      exact hwritten

theorem stored_newest (hnames : NamesExtension record.schema name type tag)
    (htail : forall c, tail.toList.head? = some c -> c = '.')
    (hk : record.instanceCount tag < instanceLimit) {before : Bytes} :
    (record.withBuffers tag [before]).stored
        (name ++ String.ofList (Path.bracketsText [some (record.instanceCount tag)]) ++ tail)
        value = .ok changed <->
      exists after, StoresBehind record.schema name tail value before after ∧
        changed = record.withBuffers tag [after] := by
  have hnames' : NamesExtension (record.withBuffers tag [before]).schema name type tag := hnames
  rw [stored_selected hnames' htail hk (findInstance?_newest record tag before)]
  constructor
  · rintro ⟨before', after, hfound, hstores, rfl⟩
    rw [buffer?_newest] at hfound
    cases hfound
    exact ⟨after, hstores, setBuffer_newest record tag before after⟩
  · rintro ⟨after, hstores, rfl⟩
    exact ⟨before, after, buffer?_newest record tag before, hstores,
      (setBuffer_newest record tag before after).symm⟩

theorem stored_of_instanceLimit_le (hnames : NamesExtension record.schema name type tag)
    (htail : forall c, tail.toList.head? = some c -> c = '.') (hk : instanceLimit ≤ k) :
    record.stored (name ++ String.ofList (Path.bracketsText [some k]) ++ tail) value ≠
      .ok changed := by
  intro hstored
  rcases stored_eq_ok.mp hstored with ⟨steps, _⟩
  have hsingle : forall k', [some k] = [some k'] -> instanceLimit ≤ k' := by
    rintro k' ⟨⟩
    exact hk
  rcases notFound_of_brackets hnames htail (List.cons_ne_nil _ _) hsingle with
    ⟨obstacle, span, hrefused⟩ | ⟨habandoned, _⟩
  · cases steps.resolved.symm.trans hrefused
  · cases steps.resolved.symm.trans habandoned

end Record
end VideoConfig
