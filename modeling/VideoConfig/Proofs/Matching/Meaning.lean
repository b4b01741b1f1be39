import VideoConfig.Matching
import VideoConfig.Proofs.Coercion
import VideoConfig.Proofs.Location.Spelling

/-!
# What filters ask for

The meaning of a filter, told without the order in which it is read. A path that resolves
asks for values at its location. A path that does not resolve and has the three members of a
range below it asks for a range. Every other path asks for a live value. The computed check
of a filter is the one that it makes in this sense.
-/

namespace VideoConfig
namespace Matching

/-!
## Expected values
-/

inductive Written (location : Location) (text : String) : List Value -> Prop where
  | text {bytes : Bytes} :
      location.payload text = .ok (.text bytes) ->
      Written location text [Value.ofTextBytes bytes]
  | elements {values : List Value} :
      location.payload text = .ok (.elements values) ->
      Written location text values

/-- Whether a value has the form in which a location holds its elements: a text where a text
is addressed, and a value of the same kind elsewhere. -/
def Fits (location : Location) (value : Value) : Prop :=
  (location.text = true ∧ exists contents, value = .text contents) ∨
    (location.text = false ∧ location.kind = .scalar value.scalar)

/-- The values at a location by which what is expected is represented there. A value of
another form counts as its text. -/
inductive Represents (location : Location) : Expectation -> List Value -> Prop where
  | fitting {value : Value} :
      Fits location value ->
      Represents location (.typed value) [value]
  | converted {value : Value} {values : List Value} :
      ¬ Fits location value ->
      Written location value.display values ->
      Represents location (.typed value) values
  | written {text : String} {values : List Value} :
      Written location text values ->
      Represents location (.text text) values

theorem comparesAsIs_iff {location : Location} {value : Value} :
    comparesAsIs location value = true <-> Fits location value := by
  unfold Fits
  cases value with
  | text contents =>
      cases htext : location.text <;> simp [comparesAsIs, htext, Value.scalar]
  | int kind word =>
      simp [comparesAsIs]
  | float format word =>
      simp [comparesAsIs]
  | char byte =>
      simp [comparesAsIs]

theorem valuesOfText?_eq_some {location : Location} {text : String} {values : List Value} :
    valuesOfText? location text = some values <-> Written location text values := by
  unfold valuesOfText?
  constructor
  · intro h
    split at h
    · next bytes hpayload =>
        cases h
        exact Written.text hpayload
    · next found hpayload =>
        cases h
        exact Written.elements hpayload
    · cases h
  · intro h
    cases h with
    | text hpayload =>
        rw [hpayload]
    | elements hpayload =>
        rw [hpayload]

theorem represents_text_iff {location : Location} {text : String} {values : List Value} :
    Represents location (.text text) values <-> Written location text values := by
  constructor
  · intro h
    cases h with
    | written hwritten =>
        exact hwritten
  · exact Represents.written

theorem expectedValues?_eq_some {location : Location} {expected : Expectation}
    {values : List Value} :
    expectedValues? location expected = some values <->
      Represents location expected values := by
  cases expected with
  | text text =>
      rw [expectedValues?, valuesOfText?_eq_some, represents_text_iff]
  | typed value =>
      rw [expectedValues?]
      split
      · next hsame =>
          have hfits := comparesAsIs_iff.mp hsame
          constructor
          · intro h
            cases h
            exact Represents.fitting hfits
          · intro h
            cases h with
            | fitting _ =>
                rfl
            | converted hnot _ =>
                exact absurd hfits hnot
      · next hother =>
          have hnot : ¬ Fits location value := fun hfits => hother (comparesAsIs_iff.mpr hfits)
          rw [valuesOfText?_eq_some]
          constructor
          · exact Represents.converted hnot
          · intro h
            cases h with
            | fitting hfits =>
                exact absurd hfits hnot
            | converted _ hwritten =>
                exact hwritten

/-!
## Ranges

A range is asked for by a text with exactly three unsigned 32-bit integers. Its members are
single such integers below one path, all in one buffer.
-/

def rangeOf (least greatest step : BitVec 32) : NumberRange :=
  { least := least.toNat, greatest := greatest.toNat, step := step.toNat }

inductive AsksFor : Expectation -> NumberRange -> Prop where
  | text {text : String} {least greatest step : BitVec 32} :
      coerceList text .u32 .value = .ok [.u32 least, .u32 greatest, .u32 step] ->
      AsksFor (.text text) (rangeOf least greatest step)
  | typed {text : String} {least greatest step : BitVec 32} :
      coerceList text .u32 .value = .ok [.u32 least, .u32 greatest, .u32 step] ->
      AsksFor (.typed (.text text)) (rangeOf least greatest step)

structure WordAt (schema : Schema) (path : String) (location : Location) : Prop where
  resolves : resolve schema path = .ok location
  kind : location.kind = .u32
  count : location.count = 1

structure RangeAt (schema : Schema) (path : String) (members : RangeMembers) : Prop where
  least : WordAt schema (path ++ "." ++ "Min") members.least
  greatest : WordAt schema (path ++ "." ++ "Max") members.greatest
  step : WordAt schema (path ++ "." ++ "Step") members.step
  greatest_target : members.greatest.target = members.least.target
  step_target : members.step.target = members.least.target

theorem asWord?_eq_some {value : Value} {n : Nat} :
    asWord? value = some n <-> exists word, value = .u32 word ∧ word.toNat = n := by
  unfold asWord?
  constructor
  · intro h
    split at h
    · next word =>
        exact ⟨word, rfl, Option.some.inj h⟩
    · cases h
  · rintro ⟨word, rfl, rfl⟩
    rfl

theorem mapM_asWord?_eq_some {values : List Value} {numbers : List Nat} :
    values.mapM asWord? = some numbers <->
      exists words : List (BitVec 32), values = words.map Value.u32 ∧
        numbers = words.map BitVec.toNat := by
  induction values generalizing numbers with
  | nil =>
      rw [List.mapM_nil]
      constructor
      · intro h
        cases h
        exact ⟨[], rfl, rfl⟩
      · rintro ⟨words, hvalues, rfl⟩
        rw [List.map_eq_nil_iff.mp hvalues.symm]
        rfl
  | cons value rest ih =>
      rw [List.mapM_cons]
      simp only [Option.bind_eq_bind, Option.bind_eq_some_iff]
      constructor
      · rintro ⟨n, hn, others, hothers, hpure⟩
        cases hpure
        rcases asWord?_eq_some.mp hn with ⟨word, rfl, rfl⟩
        rcases ih.mp hothers with ⟨words, rfl, rfl⟩
        exact ⟨word :: words, rfl, rfl⟩
      · rintro ⟨words, hvalues, rfl⟩
        cases words with
        | nil =>
            cases hvalues
        | cons word words =>
            rw [List.map_cons, List.cons.injEq] at hvalues
            exact ⟨word.toNat, asWord?_eq_some.mpr ⟨word, hvalues.left, rfl⟩,
              words.map BitVec.toNat, ih.mpr ⟨words, hvalues.right, rfl⟩, rfl⟩

theorem rangeOfText?_eq_some {text : String} {requested : NumberRange} :
    rangeOfText? text = some requested <->
      exists least greatest step, requested = rangeOf least greatest step ∧
        coerceList text .u32 .value = .ok [.u32 least, .u32 greatest, .u32 step] := by
  unfold rangeOfText?
  constructor
  · intro h
    split at h
    · next values hvalues =>
        split at h
        · next a b c hwords =>
            cases h
            rcases mapM_asWord?_eq_some.mp hwords with ⟨words, rfl, hnumbers⟩
            rcases words with _ | ⟨least, _ | ⟨greatest, _ | ⟨step, _ | _⟩⟩⟩ <;> cases hnumbers
            exact ⟨least, greatest, step, rfl, hvalues⟩
        · cases h
    · cases h
  · rintro ⟨least, greatest, step, rfl, hvalues⟩
    rw [hvalues]
    rfl

theorem requestedRange?_eq_some {expected : Expectation} {requested : NumberRange} :
    requestedRange? expected = some requested <-> AsksFor expected requested := by
  unfold requestedRange?
  constructor
  · intro h
    split at h
    · rcases rangeOfText?_eq_some.mp h with ⟨least, greatest, step, rfl, hvalues⟩
      exact AsksFor.text hvalues
    · rcases rangeOfText?_eq_some.mp h with ⟨least, greatest, step, rfl, hvalues⟩
      exact AsksFor.typed hvalues
    · cases h
  · intro h
    cases h with
    | text hvalues =>
        exact rangeOfText?_eq_some.mpr ⟨_, _, _, rfl, hvalues⟩
    | typed hvalues =>
        exact rangeOfText?_eq_some.mpr ⟨_, _, _, rfl, hvalues⟩

theorem member?_eq_ok {schema : Schema} {path name : String} {location : Location} :
    member? schema path name = .ok location <->
      WordAt schema (path ++ "." ++ name) location := by
  unfold member?
  constructor
  · intro h
    split at h
    · cases h
    · cases h
    · next found hfound =>
        split at h
        · next hword =>
            cases h
            exact ⟨hfound, hword.left, hword.right⟩
        · cases h
  · intro h
    rw [h.resolves]
    exact if_pos ⟨h.kind, h.count⟩

theorem rangeMembers?_eq_ok {schema : Schema} {path : String} {members : RangeMembers} :
    rangeMembers? schema path = .ok members <-> RangeAt schema path members := by
  unfold rangeMembers?
  constructor
  · intro h
    rcases bind_eq_ok.mp h with ⟨least, hleast, h⟩
    rcases bind_eq_ok.mp h with ⟨greatest, hgreatest, h⟩
    rcases bind_eq_ok.mp h with ⟨step, hstep, h⟩
    split at h
    · next hsame =>
        cases h
        exact ⟨member?_eq_ok.mp hleast, member?_eq_ok.mp hgreatest, member?_eq_ok.mp hstep,
          hsame.left, hsame.right⟩
    · cases h
  · intro h
    refine bind_eq_ok.mpr ⟨members.least, member?_eq_ok.mpr h.least, ?_⟩
    refine bind_eq_ok.mpr ⟨members.greatest, member?_eq_ok.mpr h.greatest, ?_⟩
    refine bind_eq_ok.mpr ⟨members.step, member?_eq_ok.mpr h.step, ?_⟩
    exact if_pos ⟨h.greatest_target, h.step_target⟩

/-!
## Live values
-/

/-- A live value agrees with what is expected: it is the same value or the same integer, it
is the text itself, or the text read as a value of its kind. -/
inductive Agrees (value : Value) : Expectation -> Prop where
  | same : Agrees value (.typed value)
  | integer {other : Value} {n : Int} :
      value.toInt? = some n ->
      other.toInt? = some n ->
      Agrees value (.typed other)
  | text {contents : String} :
      value = .text contents ->
      Agrees value (.text contents)
  | coerced {text : String} :
      coerceValue text (.scalar value.scalar) .value = .ok value ->
      Agrees value (.text text)

theorem liveMatches_of_ne_text {value : Value} (h : forall contents, value ≠ .text contents)
    (text : String) :
    liveMatches value (.text text) =
      decide (coerceValue text (.scalar value.scalar) .value = .ok value) := by
  unfold liveMatches
  dsimp only
  split
  · next contents =>
      exact absurd rfl (h contents)
  · cases coerceValue text (.scalar value.scalar) .value <;> simp

theorem liveMatches_iff {value : Value} {expected : Expectation} :
    liveMatches value expected = true <-> Agrees value expected := by
  cases expected with
  | typed other =>
      rw [liveMatches, Bool.or_eq_true, decide_eq_true_eq]
      constructor
      · rintro (rfl | hsame)
        · exact Agrees.same
        · split at hsame
          · next a b ha hb =>
              rw [of_decide_eq_true hsame] at ha
              exact Agrees.integer ha hb
          · cases hsame
      · intro h
        cases h with
        | same =>
            exact Or.inl rfl
        | integer hvalue hother =>
            right
            rw [hvalue, hother]
            exact decide_eq_true rfl
  | text text =>
      by_cases htext : exists contents, value = .text contents
      · rcases htext with ⟨contents, rfl⟩
        rw [liveMatches, beq_iff_eq]
        constructor
        · rintro rfl
          exact Agrees.text rfl
        · intro h
          cases h with
          | text heq =>
              cases heq
              rfl
          | coerced heq =>
              have hscalar := isScalar_of_coerceValue (fun hcode => by cases hcode) heq
              exact absurd rfl (hscalar.right contents)
      · rw [not_exists] at htext
        rw [liveMatches_of_ne_text htext, decide_eq_true_eq]
        constructor
        · exact Agrees.coerced
        · intro h
          cases h with
          | text heq =>
              exact absurd heq (htext _)
          | coerced heq =>
              exact heq

end Matching
end VideoConfig
