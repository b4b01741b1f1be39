import VideoConfig.Floating.Format

/-!
# Kinds of fields

A leaf field holds scalars of one of eleven kinds: integers of four widths with and
without sign, two floating-point formats, and single bytes of text. Other fields
embed a record. The category of a field tells how a text for it is read: as a value
of its kind alone, or also as a code of four characters.
-/

namespace VideoConfig

inductive Width where
  | w8
  | w16
  | w32
  | w64
deriving DecidableEq, Repr

namespace Width

def bytes : Width -> Nat
  | w8 => 1
  | w16 => 2
  | w32 => 4
  | w64 => 8

def bits (width : Width) : Nat :=
  8 * width.bytes

end Width

structure IntKind where
  signed : Bool
  width : Width
deriving DecidableEq, Repr

namespace IntKind

def least (kind : IntKind) : Int :=
  if kind.signed then -(2 ^ (kind.width.bits - 1) : Nat) else 0

def greatest (kind : IntKind) : Int :=
  if kind.signed then (2 ^ (kind.width.bits - 1) : Nat) - 1 else (2 ^ kind.width.bits : Nat) - 1

def holds (kind : IntKind) (n : Int) : Bool :=
  kind.least ≤ n && n ≤ kind.greatest

def toInt (kind : IntKind) (word : BitVec kind.width.bits) : Int :=
  if kind.signed then word.toInt else word.toNat

def ofInt (kind : IntKind) (n : Int) : BitVec kind.width.bits :=
  BitVec.ofInt kind.width.bits n

end IntKind

inductive Scalar where
  | int (kind : IntKind)
  | float (format : Floating.Format)
  | char
deriving DecidableEq, Repr

namespace Scalar

def all : List Scalar :=
  [int ⟨false, .w8⟩, int ⟨false, .w16⟩, int ⟨false, .w32⟩, int ⟨false, .w64⟩,
    int ⟨true, .w8⟩, int ⟨true, .w16⟩, int ⟨true, .w32⟩, int ⟨true, .w64⟩,
    float .binary32, float .binary64, char]

def size : Scalar -> Nat
  | int kind => kind.width.bytes
  | float format => format.size
  | char => 1

def name : Scalar -> String
  | int ⟨false, .w8⟩ => "u8"
  | int ⟨false, .w16⟩ => "u16"
  | int ⟨false, .w32⟩ => "u32"
  | int ⟨false, .w64⟩ => "u64"
  | int ⟨true, .w8⟩ => "i8"
  | int ⟨true, .w16⟩ => "i16"
  | int ⟨true, .w32⟩ => "i32"
  | int ⟨true, .w64⟩ => "i64"
  | float .binary32 => "f32"
  | float .binary64 => "f64"
  | char => "char"

/-- The scalar kind of a name. Letter case does not count, and the name may be
written behind `mfx`. -/
def ofName? (text : String) : Option Scalar :=
  let lower := text.map Char.toLower
  all.find? fun scalar => lower == scalar.name || lower == "mfx" ++ scalar.name

def unknownName (text : String) : String :=
  s!"unknown scalar type '{text}'. Valid types: " ++ String.intercalate ", " (all.map name)

end Scalar

inductive Kind where
  | scalar (scalar : Scalar)
  | record (name : String)
deriving DecidableEq, Repr

namespace Kind

@[match_pattern] abbrev u8 : Kind := scalar (.int ⟨false, .w8⟩)

@[match_pattern] abbrev u16 : Kind := scalar (.int ⟨false, .w16⟩)

@[match_pattern] abbrev u32 : Kind := scalar (.int ⟨false, .w32⟩)

@[match_pattern] abbrev u64 : Kind := scalar (.int ⟨false, .w64⟩)

@[match_pattern] abbrev i8 : Kind := scalar (.int ⟨true, .w8⟩)

@[match_pattern] abbrev i16 : Kind := scalar (.int ⟨true, .w16⟩)

@[match_pattern] abbrev i32 : Kind := scalar (.int ⟨true, .w32⟩)

@[match_pattern] abbrev i64 : Kind := scalar (.int ⟨true, .w64⟩)

@[match_pattern] abbrev f32 : Kind := scalar (.float .binary32)

@[match_pattern] abbrev f64 : Kind := scalar (.float .binary64)

@[match_pattern] abbrev char : Kind := scalar .char

def name : Kind -> String
  | scalar s => s.name
  | record name => name

def isInteger : Kind -> Bool
  | scalar (.int _) => true
  | _ => false

def isSigned : Kind -> Bool
  | scalar (.int kind) => kind.signed
  | _ => false

def isFloat : Kind -> Bool
  | scalar (.float _) => true
  | _ => false

def isRecord : Kind -> Bool
  | record _ => true
  | scalar _ => false

def bounds? : Kind -> Option (Int × Int)
  | scalar (.int kind) => some (kind.least, kind.greatest)
  | _ => none

end Kind

inductive Category where
  | value
  | fourCC
deriving DecidableEq, Repr

end VideoConfig
