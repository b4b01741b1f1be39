import VideoConfig.Powers

/-!
# Stored bytes

Buffers are lists of bytes. Numbers are stored with their least significant byte
first. `slice?` and `overwrite` are the only ways to a part of a buffer: reading
past the end gives nothing, and writing past the end changes nothing. A stored text
ends before its first zero byte.
-/

namespace VideoConfig

abbrev Bytes := List UInt8

namespace Bytes

def zeros (size : Nat) : Bytes :=
  List.replicate size 0

def ofNat : (width : Nat) -> Nat -> Bytes
  | 0, _ => []
  | width + 1, n => UInt8.ofNat (n % 256) :: ofNat width (n / 256)

def toNat : Bytes -> Nat
  | [] => 0
  | b :: rest => b.toNat + 256 * toNat rest

def slice? (buffer : Bytes) (offset size : Nat) : Option Bytes :=
  if offset + size ≤ buffer.length then
    some ((buffer.drop offset).take size)
  else
    none

def overwrite (buffer : Bytes) (offset : Nat) (data : Bytes) : Bytes :=
  if offset + data.length ≤ buffer.length then
    buffer.take offset ++ (data ++ buffer.drop (offset + data.length))
  else
    buffer

def untilZero (bytes : Bytes) : Bytes :=
  bytes.takeWhile (· != 0)

@[simp] theorem length_zeros (size : Nat) : (zeros size).length = size := by
  simp [zeros]

@[simp] theorem length_ofNat (width n : Nat) : (ofNat width n).length = width := by
  induction width generalizing n with
  | zero =>
      rfl
  | succ width ih =>
      simp [ofNat, ih]

@[simp] theorem length_overwrite (buffer : Bytes) (offset : Nat) (data : Bytes) :
    (buffer.overwrite offset data).length = buffer.length := by
  unfold overwrite
  split
  · simp
    omega
  · rfl

theorem toNat_ofNat (width n : Nat) : toNat (ofNat width n) = n % 256 ^ width := by
  induction width generalizing n with
  | zero =>
      simp [ofNat, toNat, Nat.mod_one]
  | succ width ih =>
      simp only [ofNat, toNat, ih, UInt8.toNat_ofNat', Nat.reducePow]
      rw [Nat.mod_mod, Nat.pow_succ, Nat.mul_comm (256 ^ width) 256, Nat.mod_mul]

theorem toNat_lt (bytes : Bytes) : bytes.toNat < 256 ^ bytes.length := by
  induction bytes with
  | nil =>
      simp [toNat]
  | cons b rest ih =>
      have hb : b.toNat < 256 := b.toNat_lt
      simp only [toNat, List.length_cons, Nat.pow_succ]
      omega

end Bytes
end VideoConfig
