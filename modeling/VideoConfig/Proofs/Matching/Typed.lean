import VideoConfig.Proofs.Coercion.Codes
import VideoConfig.Proofs.Matching.Stored

/-!
# Filters on integers

A filter may ask for an integer of one kind where an integer of another kind is stored. It is
then compared by the text by which it is shown, which a field reads as a number of its own kind.
So the kinds do not matter and the numbers do. There is one exception: a field for codes of four
characters takes a text of four characters for a code, also if it is the text of an integer.
-/

namespace VideoConfig
namespace Matching

variable {schema : Schema} {declarations : List Declaration}
  {aliases : List (String × String)} {location : Location} {path : String} {slot : Slot}

/-- Whether a number that a filter asks for as an integer of a kind is taken for a code: it is
compared by its text, which has four characters, at a field for codes. -/
def TakenForCode (location : Location) (kind : IntKind) (n : Int) : Prop :=
  location.field.category = .fourCC ∧ location.kind ≠ .scalar (.int kind) ∧ FourCharacters n

theorem represents_int_iff (htext : location.text = false) (hcount : location.count = 1)
    {kind : IntKind} {word : BitVec kind.width.bits} {values : List Value} :
    Represents location (.typed (.int kind word)) values <->
      exists value, values = [value] ∧
        (location.kind = .scalar (.int kind) ∧ value = .int kind word ∨
          location.kind ≠ .scalar (.int kind) ∧
            coerceValue (Value.int kind word).display location.field.kind
              location.field.category = .ok value) := by
  have hfits : Fits location (.int kind word) <-> location.kind = .scalar (.int kind) := by
    simp [Fits, htext, Value.scalar]
  constructor
  · intro h
    cases h with
    | fitting hfitting =>
        exact ⟨_, rfl, Or.inl ⟨hfits.mp hfitting, rfl⟩⟩
    | converted hnot hwritten =>
        rcases (written_value_iff htext hcount).mp hwritten with ⟨value, hvalue, hvalues⟩
        exact ⟨value, hvalues, Or.inr ⟨fun hkind => hnot (hfits.mpr hkind), hvalue⟩⟩
  · rintro ⟨value, rfl, ⟨hkind, rfl⟩ | ⟨hkind, hvalue⟩⟩
    · exact .fitting (hfits.mpr hkind)
    · exact .converted (fun hfitting => hkind (hfits.mp hfitting))
        ((written_value_iff htext hcount).mpr ⟨value, hvalue, rfl⟩)

theorem matches?_int (hbuilt : schema.BuiltFrom declarations aliases) {descriptor : Descriptor}
    (h : descriptor.record.WellFormed schema) (hresolve : resolve schema path = .ok location)
    (hsingle : location.target.Single) (hcount : location.count = 1) {kind : IntKind}
    (hkind : location.kind = .scalar (.int kind))
    (hslot : descriptor.record.negotiate path location = .ok slot) (other : IntKind)
    (word : BitVec other.width.bits) :
    exists (stored : BitVec kind.width.bits) (accepted : Bool),
      descriptor.record.get path = .ok [.int kind stored] ∧
        matches? descriptor [{ path, expected := .typed (.int other word) }] = some accepted ∧
        (accepted = true <->
          Represents location (.typed (.int other word)) [.int kind stored]) := by
  have htext : location.text = false :=
    Location.text_eq_false_of_resolve hbuilt hresolve (by rw [hkind]; simp)
  rw [← h.schema_eq] at hresolve
  rcases h.located hbuilt hresolve hslot with ⟨type, buffer, _, hplaced, hbuffer, hlength⟩
  have hread := (hplaced.read_elements htext hlength).left
  rw [hcount] at hread
  rcases List.length_eq_one_iff.mp hread with ⟨found, hfound⟩
  have hmem : found ∈ location.read buffer := by
    rw [hfound]
    exact List.mem_cons_self
  have hscalar := hplaced.isScalar_of_read htext hkind found hmem
  rcases Value.isScalar_int_iff.mp hscalar with ⟨stored, rfl⟩
  rcases matches?_single hresolve (.typed (.int other word)) with ⟨accepted, hmatches, hiff⟩
  refine ⟨stored, accepted,
    Record.get_eq_ok.mpr ⟨location, slot, buffer, hresolve, hslot, hbuffer, hfound⟩, hmatches, ?_⟩
  rw [hiff, candidates_eq_singleton hsingle hslot]
  simp only [List.mem_singleton, exists_eq_left, hbuffer, Option.some.injEq, exists_eq_left',
    hfound]
  constructor
  · rintro ⟨values, hrepresents, hprefix⟩
    rcases (represents_int_iff htext hcount).mp hrepresents with ⟨value, rfl, _⟩
    rcases List.cons_prefix_cons.mp hprefix with ⟨rfl, _⟩
    exact hrepresents
  · intro hrepresents
    exact ⟨_, hrepresents, List.prefix_refl _⟩

/-- A filter that asks for an integer of any kind at a single integer of any kind is met exactly
if the two are the same number, unless the number is taken for a code. Then it is met exactly
if the code is stored. -/
theorem matches?_typed (hbuild : Schema.build declarations aliases = .ok schema)
    (descriptor : Descriptor) (hreachable : Record.Reachable schema descriptor.record)
    (hresolve : resolve schema path = .ok location) (hsingle : location.target.Single)
    (hcount : location.count = 1) {kind : IntKind} (hkind : location.kind = .scalar (.int kind))
    (hslot : descriptor.record.negotiate path location = .ok slot) (other : IntKind)
    (word : BitVec other.width.bits) :
    exists (stored : BitVec kind.width.bits) (accepted : Bool),
      descriptor.record.get path = .ok [.int kind stored] ∧
        matches? descriptor [{ path, expected := .typed (.int other word) }] = some accepted ∧
        (¬ TakenForCode location other (other.toInt word) ->
          (accepted = true <-> kind.toInt stored = other.toInt word)) ∧
        (TakenForCode location other (other.toInt word) ->
          exists code, fourCCOfChars? (Value.int other word).display.toList = some code ∧
            (accepted = true <-> Value.int kind stored = .u32 code)) := by
  have hbuilt := Schema.builtFrom_of_build hbuild
  have htext : location.text = false :=
    Location.text_eq_false_of_resolve hbuilt hresolve (by rw [hkind]; simp)
  rcases matches?_int hbuilt (hreachable.wellFormed hbuilt) hresolve hsingle hcount hkind hslot
    other word with ⟨stored, accepted, hget, hmatches, hiff⟩
  refine ⟨stored, accepted, hget, hmatches, ?_⟩
  rw [hiff, represents_int_iff htext hcount]
  simp only [List.cons.injEq, and_true, exists_eq_left']
  have hkind' : location.field.kind = .scalar (.int kind) := hkind
  by_cases hsame : location.kind = .scalar (.int other)
  · -- Integers of one kind are compared as they are.
    have hother : kind = other := by
      rw [hkind] at hsame
      cases hsame
      rfl
    subst hother
    constructor
    · intro _
      simp only [hsame, true_and, ne_eq, not_true_eq_false, false_and, or_false, Value.int.injEq,
        heq_eq_eq, IntKind.toInt_inj]
    · rintro ⟨_, hother, _⟩
      exact absurd hsame hother
  · simp only [hsame, false_and, ne_eq, not_false_eq_true, true_and, false_or, hkind']
    constructor
    · intro hcode
      have hnot : ¬ (location.field.category = .fourCC ∧ FourCharacters (other.toInt word)) :=
        fun h => hcode ⟨h.left, hsame, h.right⟩
      rw [Value.display, coerceValue_signedDecimal_of_not_isCode hnot, Value.ofInt,
        ← IntKind.holds_and_eq_ofInt_iff]
      simp
    · rintro ⟨hcategory, _, hfour⟩
      have hisCode := (isCode_signedDecimal_iff (other.toInt word) .fourCC).mpr ⟨rfl, hfour⟩
      rcases hisCode with ⟨_, code, hcode⟩
      refine ⟨code, ?_, ?_⟩
      · rw [Value.display, ← code?_signedDecimal]
        exact hcode
      · rw [hcategory, Value.display, coerceValue, Coercion.valueOfChars_of_code hcode,
          Except.ok.injEq, eq_comm]

/-- The number of a code is met as an integer of another kind, where it has not four
characters. -/
theorem matches?_typed_codec :
    let path := "mfxDecoderDescription[0].decoder.CodecID"
    let record := (Record.new Catalog.implementationDescription).run
      [.attachZeroed Catalog.decoderTag, .set path "AVC "]
    let descriptor : Descriptor := { name := "soft", record, live := [] }
    matches? descriptor [{ path, expected := .typed (.int ⟨true, .w64⟩ 541283905) }] =
      some true := by
  intro path record descriptor
  have hfacts : (resolve Catalog.implementationDescription path).toOption.map (fun location =>
      (location.kind, location.target, location.count,
        (record.negotiate path location).toOption)) =
      some (.u32, .extension Catalog.decoderTag "mfxDecoderDescription" 52 (some 0), 1,
        some (.attached 0)) := by
    decide +kernel
  rcases Option.map_eq_some_iff.mp hfacts with ⟨location, hresolve, hfacts⟩
  simp only [Prod.mk.injEq] at hfacts
  rcases hfacts with ⟨hkind, htarget, hcount, hslot⟩
  have hreachable : Record.Reachable Catalog.implementationDescription record := ⟨_, rfl⟩
  have hget : record.get path = .ok [.u32 541283905] := toOption_eq_some.mp (by decide +kernel)
  rcases matches?_typed Catalog.build_implementationDescription descriptor hreachable
    (toOption_eq_some.mp hresolve) (by rw [htarget]; exact Option.some_ne_none 0) hcount hkind
    (toOption_eq_some.mp hslot) ⟨true, .w64⟩ 541283905 with
    ⟨stored, accepted, hstored, hmatches, hnumbers, _⟩
  have hnot : ¬ TakenForCode location ⟨true, .w64⟩ (IntKind.toInt ⟨true, .w64⟩ 541283905) := by
    rintro ⟨_, _, hfour⟩
    exact absurd hfour (by decide)
  have hsame : Value.int ⟨false, .w32⟩ stored = .u32 541283905 := by
    rw [hget] at hstored
    simpa using hstored.symm
  cases hsame
  rw [hmatches, (hnumbers hnot).mpr (by decide)]

/-- A number that is stored in a field for codes is not met as an integer of another kind, if it
has four characters. Among the live values it is. -/
theorem code_of_number_not_met :
    let path := "mfxDecoderDescription[0].decoder.CodecID"
    let record := (Record.new Catalog.implementationDescription).run
      [.attachZeroed Catalog.decoderTag, .set path "01234"]
    let descriptor : Descriptor := { name := "gpu", record, live := [] }
    Record.Reachable Catalog.implementationDescription record ∧
      record.get path = .ok [.u32 1234] ∧
      IntKind.toInt ⟨false, .w16⟩ 1234 = IntKind.toInt ⟨false, .w32⟩ 1234 ∧
      liveMatches (.u32 1234) (.typed (.int ⟨false, .w16⟩ 1234)) = true ∧
      matches? descriptor [{ path, expected := .typed (.int ⟨false, .w16⟩ 1234) }] =
        some false :=
  ⟨⟨_, rfl⟩, toOption_eq_some.mp (by decide +kernel), by decide, by decide, by decide +kernel⟩

end Matching
end VideoConfig
