import VideoConfig.Proofs.Access.Payload

/-!
# One payload written to two buffers

A byte that a payload is written to has the same content afterwards in every buffer, whatever
was there before. So writing a payload to two buffers keeps every byte on which they agree.
-/

namespace VideoConfig
namespace Bytes

theorem overwrite_agree {first second data : Bytes} {offset k : Nat}
    (hfits : offset + data.length ≤ first.length)
    (hfits' : offset + data.length ≤ second.length)
    (h : first[k]? = second[k]? ∨ offset ≤ k ∧ k < offset + data.length) :
    (first.overwrite offset data)[k]? = (second.overwrite offset data)[k]? := by
  have hinside : forall {buffer : Bytes}, offset + data.length ≤ buffer.length ->
      offset ≤ k -> k < offset + data.length ->
        (buffer.overwrite offset data)[k]? = data[k - offset]? := by
    intro buffer hbuffer hle hlt
    have hslice := (slice?_eq_some.mp (slice?_overwrite_same hbuffer)).right
    have hbyte := congrArg (fun part => part[k - offset]?) hslice
    rw [List.getElem?_take_of_lt (by omega), List.getElem?_drop] at hbyte
    rwa [Nat.add_sub_cancel' hle] at hbyte
  by_cases hk : offset ≤ k ∧ k < offset + data.length
  · rw [hinside hfits hk.left hk.right, hinside hfits' hk.left hk.right]
  · have hsame : first[k]? = second[k]? := h.resolve_right hk
    rw [getElem?_overwrite_of_outside (by omega), getElem?_overwrite_of_outside (by omega), hsame]

end Bytes

namespace Location

variable {location : Location} {type : RecordType}

theorem writeElement?_eq_overwrite {value : Value} {scalar : Scalar}
    (hsize : location.elementSize = scalar.size) (hvalue : value.IsScalar scalar) (i : Nat) :
    exists bytes : Bytes, bytes.length = location.elementSize ∧
      forall buffer : Bytes,
        location.elementOffset i + location.elementSize ≤ buffer.length ->
          location.writeElement? buffer i value =
            some (buffer.overwrite (location.elementOffset i) bytes) := by
  rcases Value.encode?_of_isScalar hvalue with ⟨bytes, hencode, hbytes, _⟩
  have hlength : bytes.length = location.elementSize := hbytes.trans hsize.symm
  refine ⟨bytes, hlength, ?_⟩
  intro buffer hinside
  unfold writeElement?
  rw [hencode]
  dsimp only
  rw [if_pos hinside, if_pos hlength]

theorem WellPlaced.writeElements?_agree (h : location.WellPlaced type)
    (htext : location.text = false) {scalar : Scalar}
    (hsize : location.elementSize = scalar.size) {first second new new' : Bytes}
    (hlength : first.length = type.size) (hlength' : second.length = type.size) {i : Nat}
    {values : List Value} (hfits : i + values.length ≤ location.count)
    (hvalues : forall value, value ∈ values -> value.IsScalar scalar)
    (hwrite : location.writeElements? first i values = some new)
    (hwrite' : location.writeElements? second i values = some new') {k : Nat}
    (hk : first[k]? = second[k]? ∨ exists j, i ≤ j ∧ j < i + values.length ∧
      location.elementOffset j ≤ k ∧ k < location.elementOffset j + location.elementSize) :
    new[k]? = new'[k]? := by
  induction values generalizing first second i with
  | nil =>
      cases hwrite
      cases hwrite'
      rcases hk with hsame | ⟨j, hle, hlt, _⟩
      · exact hsame
      · exact absurd hlt (Nat.not_lt.mpr hle)
  | cons value rest ih =>
      rw [List.length_cons] at hfits hk
      rcases writeElement?_eq_overwrite hsize (hvalues value List.mem_cons_self) i with
        ⟨bytes, hbytes, hoverwrite⟩
      have hinside := h.inside_of_element htext hlength (i := i) (by omega)
      have hinside' := h.inside_of_element htext hlength' (i := i) (by omega)
      rcases Option.bind_eq_some_iff.mp hwrite with ⟨middle, hmiddle, hrest⟩
      rcases Option.bind_eq_some_iff.mp hwrite' with ⟨middle', hmiddle', hrest'⟩
      rw [hoverwrite first hinside, Option.some.injEq] at hmiddle
      rw [hoverwrite second hinside', Option.some.injEq] at hmiddle'
      subst hmiddle
      subst hmiddle'
      rw [← hbytes] at hinside hinside'
      refine ih ((Bytes.length_overwrite _ _ _).trans hlength)
        ((Bytes.length_overwrite _ _ _).trans hlength') (by omega)
        (fun other hother => hvalues other (List.mem_cons_of_mem value hother)) hrest hrest' ?_
      -- The byte belongs to this element, to a later one, or agrees from before.
      rcases hk with hsame | ⟨j, hle, hlt, hlow, hhigh⟩
      · exact Or.inl (Bytes.overwrite_agree hinside hinside' (Or.inl hsame))
      · rcases Nat.eq_or_lt_of_le hle with rfl | hlater
        · rw [← hbytes] at hhigh
          exact Or.inl (Bytes.overwrite_agree hinside hinside' (Or.inr ⟨hlow, hhigh⟩))
        · exact Or.inr ⟨j, hlater, by omega, hlow, hhigh⟩

theorem WellPlaced.write?_agree (h : location.WellPlaced type)
    (hcodes : Coercion.CodesFit location.field.kind location.field.category) {text : String}
    {payload : Payload} (hpayload : location.payload text = .ok payload)
    {first second new new' : Bytes} (hlength : first.length = type.size)
    (hlength' : second.length = type.size) (hwrite : location.write? first payload = some new)
    (hwrite' : location.write? second payload = some new') {k : Nat}
    (hk : first[k]? = second[k]? ∨ location.Touches payload k) : new[k]? = new'[k]? := by
  have hsuits := suits_of_payload hpayload
  cases payload with
  | text bytes =>
      cases hwrite
      cases hwrite'
      rcases hsuits with ⟨htext, hbytes⟩
      have hinside := (h.text htext).right
      exact Bytes.overwrite_agree (by omega) (by omega) hk
  | elements values =>
      rcases h.scalar with ⟨scalar, hkind, hsize⟩
      have hvalues := isScalar_of_payload hkind hcodes hpayload
      have htake : (values.take location.count).length = min location.count values.length :=
        List.length_take
      refine h.writeElements?_agree hsuits hsize hlength hlength' (by omega)
        (fun value hvalue => hvalues value (List.mem_of_mem_take hvalue)) hwrite hwrite' ?_
      rcases hk with hsame | ⟨i, hi, hlow, hhigh⟩
      · exact Or.inl hsame
      · exact Or.inr ⟨i, Nat.zero_le i, by omega, hlow, hhigh⟩

end Location
end VideoConfig
