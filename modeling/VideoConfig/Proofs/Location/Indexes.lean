import Mathlib.Data.List.Forall2
import Mathlib.Data.Set.Function
import VideoConfig.Location

/-!
# Positions in arrays

The elements of an array of several dimensions are stored row by row. Indexes that lie in
the dimensions of an array number its elements: every element has one position, and
different indexes have different positions.
-/

namespace VideoConfig
namespace Location

def InShape (indexes shape : List Nat) : Prop :=
  List.Forall₂ (· < ·) indexes shape

def positionIn : (indexes shape : List Nat) -> Nat
  | i :: indexes, _ :: shape => i * elementCount shape + positionIn indexes shape
  | _, _ => 0

theorem elementCount_cons (length : Nat) (shape : List Nat) :
    elementCount (length :: shape) = length * elementCount shape := rfl

theorem positionIn_lt {indexes shape : List Nat} (h : InShape indexes shape) :
    positionIn indexes shape < elementCount shape := by
  induction h with
  | nil =>
      exact Nat.one_pos
  | @cons i length indexes shape hi _ ih =>
      have hrow : (i + 1) * elementCount shape ≤ length * elementCount shape :=
        Nat.mul_le_mul_right _ hi
      rw [Nat.succ_mul] at hrow
      rw [elementCount_cons, positionIn]
      omega

theorem positionIn_injective {first second shape : List Nat}
    (hfirst : InShape first shape) (hsecond : InShape second shape)
    (h : positionIn first shape = positionIn second shape) : first = second := by
  induction hfirst generalizing second with
  | nil =>
      cases hsecond
      rfl
  | @cons i length indexes shape hi hrest ih =>
      cases hsecond with
      | @cons j _ others _ hj hrest' =>
          have hlt := positionIn_lt hrest
          have hlt' := positionIn_lt hrest'
          simp only [positionIn] at h
          -- The index of a row and the position in it are quotient and remainder.
          have hquotient : forall row rest, rest < elementCount shape ->
              (row * elementCount shape + rest) / elementCount shape = row := by
            intro row rest hlt
            rw [Nat.mul_comm, Nat.mul_add_div (Nat.zero_lt_of_lt hlt),
              Nat.div_eq_of_lt hlt, Nat.add_zero]
          have hij : i = j := by
            rw [← hquotient i _ hlt, h, hquotient j _ hlt']
          subst hij
          rw [ih hrest' (Nat.add_left_cancel h)]

theorem exists_positionIn {shape : List Nat} {n : Nat} (h : n < elementCount shape) :
    exists indexes, InShape indexes shape ∧ positionIn indexes shape = n := by
  induction shape generalizing n with
  | nil =>
      exact ⟨[], List.Forall₂.nil, (Nat.lt_one_iff.mp h).symm⟩
  | cons length shape ih =>
      rw [elementCount_cons] at h
      have hpos : 0 < elementCount shape := Nat.pos_of_lt_mul_left h
      rcases ih (Nat.mod_lt n hpos) with ⟨indexes, hindexes, hrest⟩
      refine ⟨n / elementCount shape :: indexes, List.Forall₂.cons ?_ hindexes, ?_⟩
      · exact Nat.div_lt_of_lt_mul (Nat.mul_comm length _ ▸ h)
      · rw [positionIn, hrest]
        exact Nat.div_add_mod' n _

theorem positionIn_bijOn (shape : List Nat) :
    Set.BijOn (fun indexes => positionIn indexes shape) { indexes | InShape indexes shape }
      { n | n < elementCount shape } := by
  refine ⟨?_, ?_, ?_⟩
  · intro indexes hindexes
    exact positionIn_lt hindexes
  · intro first hfirst second hsecond heq
    exact positionIn_injective hfirst hsecond heq
  · intro n hn
    exact exists_positionIn hn

theorem rowMajor_eq_ok {segment : Segment} {before position : Nat}
    {indexes shape : List Nat} (hlength : indexes.length = shape.length) :
    rowMajor segment before indexes shape = .ok position <->
      InShape indexes shape ∧
        position = before * elementCount shape + positionIn indexes shape := by
  induction indexes generalizing before shape with
  | nil =>
      cases shape with
      | nil =>
          simp [rowMajor, InShape, elementCount, positionIn, eq_comm]
      | cons length shape =>
          cases hlength
  | cons i indexes ih =>
      cases shape with
      | nil =>
          cases hlength
      | cons length shape =>
          have hrest : indexes.length = shape.length := Nat.succ.inj hlength
          unfold rowMajor
          split
          · next hi =>
              rw [ih hrest, elementCount_cons, positionIn, Nat.add_mul, Nat.mul_assoc,
                Nat.add_assoc]
              simp [InShape, hi]
          · next hi =>
              simp [refuse, InShape, hi]

theorem linearIndex_eq_ok {field : Field} {indexes : List Nat} {segment : Segment}
    {position : Nat} :
    linearIndex field indexes segment = .ok position <->
      InShape indexes field.shape ∧ position = positionIn indexes field.shape := by
  unfold linearIndex
  split
  · next hlength =>
      rw [rowMajor_eq_ok hlength, Nat.zero_mul, Nat.zero_add]
  · next hlength =>
      constructor
      · intro h
        cases h
      · rintro ⟨hshape, _⟩
        exact absurd hshape.length_eq hlength

end Location
end VideoConfig
