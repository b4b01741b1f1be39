import VideoConfig.Proofs.Access.Storage

/-!
# Payloads written and read back

The text for a property gives a payload that suits its location: values of the kind of the
elements, or a text as long as its array. Writing it changes the elements that it has a
value for, and reading the location gives these values and behind them what was there
before.
-/

namespace VideoConfig
namespace Location

variable {location : Location} {type : RecordType}

/-!
## Payloads of a location

The payload of a text is its UTF-8 form with zeros behind it. A single element takes the one
value that is read from the whole text, and several take those between its commas, so all of
them are scalars of the kind of the elements.
-/

def Suits (location : Location) : Payload -> Prop
  | .elements _ => location.text = false
  | .text bytes => location.text = true ∧ bytes.length = location.capacity

theorem payload_text (htext : location.text = true) {text : String} {payload : Payload} :
    location.payload text = .ok payload <->
      (Text.encodeUtf8 text).length < location.capacity ∧
        payload = .text (Text.encodeUtf8 text ++
          Bytes.zeros (location.capacity - (Text.encodeUtf8 text).length)) := by
  unfold Location.payload
  rw [htext]
  simp only [if_true, map_eq_ok, coerceText_eq_ok]
  constructor
  · rintro ⟨bytes, ⟨hfits, rfl⟩, rfl⟩
    exact ⟨hfits, rfl⟩
  · rintro ⟨hfits, rfl⟩
    exact ⟨_, ⟨hfits, rfl⟩, rfl⟩

theorem payload_value (htext : location.text = false) (hcount : location.count = 1)
    {text : String} {payload : Payload} :
    location.payload text = .ok payload <->
      exists value, coerceValue text location.field.kind location.field.category = .ok value ∧
        payload = .elements [value] := by
  unfold Location.payload
  rw [htext, hcount]
  simp only [Bool.false_eq_true, if_false, if_true, map_eq_ok, eq_comm (a := payload)]

theorem payload_list (htext : location.text = false) (hcount : location.count ≠ 1)
    {text : String} {payload : Payload} :
    location.payload text = .ok payload <->
      exists values,
        coerceList text location.field.kind location.field.category = .ok values ∧
          payload = .elements values := by
  unfold Location.payload
  rw [htext]
  simp only [Bool.false_eq_true, if_false, if_neg hcount, map_eq_ok, eq_comm (a := payload)]

theorem suits_of_payload {text : String} {payload : Payload}
    (h : location.payload text = .ok payload) : location.Suits payload := by
  cases htext : location.text with
  | true =>
      rcases (payload_text htext).mp h with ⟨hfits, rfl⟩
      refine ⟨htext, ?_⟩
      rw [List.length_append, Bytes.length_zeros]
      omega
  | false =>
      by_cases hcount : location.count = 1
      · rcases (payload_value htext hcount).mp h with ⟨value, _, rfl⟩
        exact htext
      · rcases (payload_list htext hcount).mp h with ⟨values, _, rfl⟩
        exact htext

theorem exists_chars_of_payload {text : String} {values : List Value}
    (h : location.payload text = .ok (.elements values)) :
    forall value, value ∈ values -> exists chars,
      Coercion.valueOfChars chars location.field.kind location.field.category = .ok value := by
  have htext : location.text = false := suits_of_payload h
  by_cases hcount : location.count = 1
  · rcases (payload_value htext hcount).mp h with ⟨value, hvalue, heq⟩
    cases heq
    exact List.forall_mem_singleton.mpr ⟨text.toList, hvalue⟩
  · rcases (payload_list htext hcount).mp h with ⟨found, hvalues, heq⟩
    cases heq
    exact forall_of_mapM_eq_ok (fun chars _ hvalue => ⟨chars, hvalue⟩) hvalues

theorem isScalar_of_payload {text : String} {values : List Value} {scalar : Scalar}
    (hkind : location.kind = .scalar scalar)
    (hcodes : Coercion.CodesFit location.field.kind location.field.category)
    (h : location.payload text = .ok (.elements values)) :
    forall value, value ∈ values -> value.IsScalar scalar := by
  have hkind' : location.field.kind = .scalar scalar := hkind
  intro value hvalue
  rcases exists_chars_of_payload h value hvalue with ⟨chars, hchars⟩
  rw [hkind'] at hcodes hchars
  exact Coercion.isScalar_of_valueOfChars hcodes hchars

theorem text_of_payload {text : String} {bytes : Bytes}
    (h : location.payload text = .ok (.text bytes)) :
    (Text.encodeUtf8 text).length < location.capacity ∧
      bytes = Text.encodeUtf8 text ++
        Bytes.zeros (location.capacity - (Text.encodeUtf8 text).length) := by
  have hsuits : location.Suits (.text bytes) := suits_of_payload h
  rcases (payload_text hsuits.left).mp h with ⟨hfits, heq⟩
  cases heq
  exact ⟨hfits, rfl⟩

/-!
## Bytes that a payload is written to
-/

/-- Whether a byte belongs to an element that a payload is written to. -/
def Touches (location : Location) (payload : Payload) (k : Nat) : Prop :=
  match payload with
  | .elements values =>
      exists i, i < min location.count values.length ∧
        location.elementOffset i ≤ k ∧ k < location.elementOffset i + location.elementSize
  | .text bytes => location.offset ≤ k ∧ k < location.offset + bytes.length

theorem touches_of_single {text text' : String} {payload payload' : Payload}
    (h : location.payload text = .ok payload) (h' : location.payload text' = .ok payload')
    (hsingle : location.count = 1) {k : Nat} (hk : location.Touches payload k) :
    location.Touches payload' k := by
  have hvalues : forall {text : String} {values : List Value},
      location.payload text = .ok (.elements values) -> values.length = 1 := by
    intro text values h
    rcases (payload_value (suits_of_payload h) hsingle).mp h with ⟨value, _, heq⟩
    cases heq
    rfl
  have hsuits := suits_of_payload h
  have hsuits' := suits_of_payload h'
  cases payload with
  | elements values =>
      cases payload' with
      | elements values' =>
          unfold Touches at hk ⊢
          dsimp only at hk ⊢
          rw [hvalues h'] at ⊢
          rwa [hvalues h] at hk
      | text bytes' =>
          rw [Suits, hsuits'.left] at hsuits
          cases hsuits
  | text bytes =>
      cases payload' with
      | elements values' =>
          rw [Suits, hsuits.left] at hsuits'
          cases hsuits'
      | text bytes' =>
          unfold Touches at hk ⊢
          dsimp only at hk ⊢
          rwa [hsuits'.right, ← hsuits.right]

/-- Whether a part of a payload would be passed over, because the buffer is too short. -/
def Skips (location : Location) (buffer : Bytes) (payload : Payload) : Prop :=
  match payload with
  | .elements values =>
      exists i, i < min location.count values.length ∧
        buffer.length < location.elementOffset i + location.elementSize
  | .text bytes => buffer.length < location.offset + bytes.length

theorem write?_frame {buffer new : Bytes} {payload : Payload}
    (h : location.write? buffer payload = some new) :
    new.length = buffer.length ∧
      forall k, ¬ location.Touches payload k -> new[k]? = buffer[k]? := by
  cases payload with
  | text bytes =>
      cases h
      constructor
      · exact Bytes.length_overwrite _ _ _
      · intro k hk
        unfold Touches at hk
        exact Bytes.getElem?_overwrite_of_outside (by omega)
  | elements values =>
      rcases writeElements?_frame h with ⟨hlength, hframe⟩
      refine ⟨hlength, ?_⟩
      intro k hk
      refine hframe k ?_
      intro j _ hj _
      rw [List.length_take, Nat.zero_add] at hj
      by_contra hbeside
      refine hk ⟨j, hj, ?_⟩
      unfold Beside at hbeside
      omega

theorem WellPlaced.covers_of_touches (h : location.WellPlaced type) {payload : Payload}
    (hsuits : location.Suits payload) {k : Nat} (hk : location.Touches payload k) :
    location.region.Covers k := by
  cases payload with
  | text bytes =>
      rcases hsuits with ⟨htext, hlength⟩
      have hcount := (h.text htext).left
      rcases hk with ⟨hlow, hhigh⟩
      refine ⟨0, ?_, ?_, ?_⟩
      · simp [region, hcount]
      · simpa [Region.start, region] using hlow
      · simpa [Region.stop, Region.start, region, ← hlength] using hhigh
  | elements values =>
      rcases hk with ⟨i, hi, hlow, hhigh⟩
      refine ⟨i, ?_, hlow, ?_⟩
      · exact Nat.lt_of_lt_of_le hi (Nat.min_le_left _ _)
      · rw [← capacity_of_elements hsuits] at hhigh
        exact hhigh

theorem WellPlaced.lt_of_touches (h : location.WellPlaced type) {payload : Payload}
    (hsuits : location.Suits payload) {k : Nat} (hk : location.Touches payload k) :
    k < type.size := by
  cases payload with
  | text bytes =>
      rcases hsuits with ⟨htext, hbytes⟩
      have hinside := (h.text htext).right
      rcases hk with ⟨_, hhigh⟩
      omega
  | elements values =>
      rcases hk with ⟨i, hi, _, hhigh⟩
      have hinside := h.inside i (Nat.lt_of_lt_of_le hi (Nat.min_le_left _ _))
        (fun htext => by rw [hsuits] at htext; cases htext)
      omega

theorem WellPlaced.not_skips (h : location.WellPlaced type) {buffer : Bytes}
    (hlength : buffer.length = type.size) {payload : Payload}
    (hsuits : location.Suits payload) : ¬ location.Skips buffer payload := by
  cases payload with
  | text bytes =>
      rcases hsuits with ⟨htext, hbytes⟩
      have hinside := (h.text htext).right
      unfold Skips
      dsimp only
      omega
  | elements values =>
      rintro ⟨i, hi, hskip⟩
      have hinside := h.inside_of_element hsuits hlength (i := i) (by omega)
      omega

/-!
## Payloads read back

Values of their kind are written over what is read at a location wherever the buffer ends,
and writing back what was read changes nothing.
-/

def updated (location : Location) (before : List Value) : Payload -> List Value
  | .elements values =>
      values.take location.count ++ before.drop (min location.count values.length)
  | .text bytes => [Value.ofTextBytes bytes]

theorem updated_elements {before : List Value} (hlength : before.length = location.count)
    (values : List Value) :
    location.updated before (.elements values) =
      values.take location.count ++ before.drop values.length := by
  rw [updated]
  congr 1
  rcases Nat.le_total values.length location.count with hle | hge
  · rw [Nat.min_eq_right hle]
  · rw [Nat.min_eq_left hge, List.drop_of_length_le (by omega), List.drop_of_length_le (by omega)]

theorem WellPlaced.write?_text (h : location.WellPlaced type) {buffer : Bytes}
    (hlength : buffer.length = type.size) {bytes : Bytes}
    (hsuits : location.Suits (.text bytes)) :
    exists new, location.write? buffer (.text bytes) = some new ∧
      new.slice? location.offset location.capacity = some bytes ∧
      location.read new = [Value.ofTextBytes bytes] := by
  rcases hsuits with ⟨htext, hbytes⟩
  have hinside := (h.text htext).right
  have hslice : (buffer.overwrite location.offset bytes).slice? location.offset
      bytes.length = some bytes := Bytes.slice?_overwrite_same (by omega)
  rw [hbytes] at hslice
  refine ⟨_, rfl, hslice, ?_⟩
  rw [read, htext, if_pos rfl, hslice]
  rfl

theorem WellPlaced.write?_over (h : location.WellPlaced type) (htext : location.text = false)
    (buffer : Bytes) {values : List Value}
    (hvalues : forall value, value ∈ values -> location.kind = .scalar value.scalar) :
    exists new, location.write? buffer (.elements values) = some new ∧
      location.read new = Value.writtenOverAll values (location.read buffer) := by
  have htake : (values.take location.count).length = min location.count values.length :=
    List.length_take
  have hfits : 0 + (values.take location.count).length ≤ location.count := by omega
  rcases h.writeElements?_over buffer hfits
    (fun value hvalue => hvalues value (List.mem_of_mem_take hvalue)) with
    ⟨new, hwrite, hreads⟩
  refine ⟨new, hwrite, ?_⟩
  have hsame : location.fitting new = location.fitting buffer :=
    fitting_congr (writeElements?_frame hwrite).left
  rcases h.read_fitting htext buffer with ⟨hcount, hbefore⟩
  rcases h.read_fitting htext new with ⟨hcount', hafter⟩
  have hfitting := location.fitting_le_count buffer
  refine List.ext_getElem? ?_
  intro i
  rcases Nat.lt_or_ge i (location.fitting buffer) with hi | hi
  · rw [hafter i (by omega)]
    rcases Nat.lt_or_ge i values.length with hwritten | hkept
    · have hi' : i < (values.take location.count).length := by omega
      have hread := hreads i hi'
      rw [Nat.zero_add, List.getElem_take, ← hbefore i hi] at hread
      rw [Value.getElem?_writtenOverAll_of_lt hwritten, hread]
    · -- An element behind the last value keeps what it holds.
      rw [Value.getElem?_writtenOverAll_of_le hkept, hbefore i hi]
      exact h.readElement?_frame (by omega) hfits (by omega) hwrite
  · rw [List.getElem?_eq_none (by omega), List.getElem?_eq_none]
    rw [Value.length_writtenOverAll]
    omega

theorem WellPlaced.write?_elements (h : location.WellPlaced type) {buffer : Bytes}
    (hlength : buffer.length = type.size) {values : List Value} {scalar : Scalar}
    (hkind : location.kind = .scalar scalar) (htext : location.text = false)
    (hvalues : forall value, value ∈ values -> value.IsScalar scalar) :
    exists new, location.write? buffer (.elements values) = some new ∧
      location.read new = location.updated (location.read buffer) (.elements values) := by
  have hkinds : forall value, value ∈ values -> location.kind = .scalar value.scalar :=
    fun value hvalue => by rw [hkind, (hvalues value hvalue).left]
  rcases h.write?_over htext buffer hkinds with ⟨new, hwrite, hread⟩
  refine ⟨new, hwrite, ?_⟩
  have hcount := (h.read_elements htext hlength).left
  rw [hread, Value.writtenOverAll_of_isScalar hvalues, hcount, updated_elements hcount]

theorem WellPlaced.write?_back (h : location.WellPlaced type) (htext : location.text = false)
    (buffer : Bytes) :
    location.write? buffer (.elements (location.read buffer)) = some buffer := by
  rcases h.read_fitting htext buffer with ⟨hlength, hreads⟩
  have hall : (location.read buffer).take location.count = location.read buffer := by
    rw [List.take_of_length_le]
    rw [hlength]
    exact location.fitting_le_count buffer
  rw [write?, hall]
  refine h.writeElements?_back ?_
  intro j hj
  rw [Nat.zero_add, ← hreads j (hlength ▸ hj), List.getElem?_eq_getElem hj]

end Location
end VideoConfig
