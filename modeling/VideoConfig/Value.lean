import VideoConfig.Bytes
import VideoConfig.Floating.Shortest
import VideoConfig.Scalar
import VideoConfig.Text.Utf8

/-!
# Values

A value is an integer of some kind, a floating-point number, a byte of text, or a
whole text. Numbers are kept as the words in which they are stored, so two values
are equal exactly if they have the same kind and the same bits: minus zero differs
from zero, and a NaN equals itself. A scalar is stored in as many bytes as its kind
takes, and a text up to its first zero byte. Records are no values.
-/

namespace VideoConfig

inductive Value where
  | int (kind : IntKind) (word : BitVec kind.width.bits)
  | float (format : Floating.Format) (word : BitVec format.width)
  | char (byte : UInt8)
  | text (contents : String)
deriving DecidableEq

namespace Value

def u32 (word : BitVec 32) : Value :=
  int ⟨false, .w32⟩ word

def ofInt (kind : IntKind) (n : Int) : Value :=
  int kind (kind.ofInt n)

def scalar : Value -> Scalar
  | int kind _ => .int kind
  | float format _ => .float format
  | char _ => .char
  | text _ => .char

def toInt? : Value -> Option Int
  | int kind word => some (kind.toInt word)
  | _ => none

def encode? : Value -> Option Bytes
  | int kind word => some (Bytes.ofNat kind.width.bytes word.toNat)
  | float format word => some (Bytes.ofNat format.size word.toNat)
  | char byte => some [byte]
  | text _ => none

def decodeScalar? (scalar : Scalar) (bytes : Bytes) : Option Value :=
  if bytes.length = scalar.size then
    match scalar, bytes with
    | .int kind, _ => some (int kind (BitVec.ofNat _ bytes.toNat))
    | .float format, _ => some (float format (BitVec.ofNat _ bytes.toNat))
    | .char, byte :: _ => some (char byte)
    | .char, [] => none
  else
    none

def decode? : Kind -> Bytes -> Option Value
  | .scalar scalar, bytes => decodeScalar? scalar bytes
  | .record _, _ => none

def ofTextBytes (bytes : Bytes) : Value :=
  text (Text.decodeUtf8 bytes.untilZero)

/-- The text of a value. A byte of text is shown as the character with its number. -/
def display : Value -> String
  | int kind word => Text.signedDecimal (kind.toInt word)
  | float format word => Floating.display format word
  | char byte => String.singleton (Char.ofNat byte.toNat)
  | text contents => contents

end Value
end VideoConfig
