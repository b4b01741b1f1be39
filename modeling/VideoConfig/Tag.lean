import VideoConfig.Bytes
import VideoConfig.Text.Digits
import VideoConfig.Text.Pieces

/-!
# Four-character codes

A code of four characters is stored in 32 bits, its first character in the lowest
byte. Extension buffers are told apart by such a code, their tag. A tag is shown by
its four characters, or by its number in base sixteen if one of them is not
printable ASCII.
-/

namespace VideoConfig

def fourCC (first second third fourth : UInt8) : BitVec 32 :=
  BitVec.ofNat 32 (Bytes.toNat [first, second, third, fourth])

def fourCCOfChars? : List Char -> Option (BitVec 32)
  | [a, b, c, d] =>
      if [a, b, c, d].all Text.isAscii then
        some (fourCC (.ofNat a.toNat) (.ofNat b.toNat) (.ofNat c.toNat) (.ofNat d.toNat))
      else
        none
  | _ => none

structure Tag where
  code : BitVec 32
deriving DecidableEq, Repr

namespace Tag

def bytes (tag : Tag) : Bytes :=
  Bytes.ofNat 4 tag.code.toNat

theorem toNat_bytes (tag : Tag) : tag.bytes.toNat = tag.code.toNat := by
  have hlt : tag.code.toNat < 256 ^ 4 := tag.code.isLt
  rw [bytes, Bytes.toNat_ofNat, Nat.mod_eq_of_lt hlt]

def isPrintable (b : UInt8) : Bool :=
  0x20 ≤ b && b ≤ 0x7E

def characters? (tag : Tag) : Option Bytes :=
  if tag.bytes.all isPrintable then some tag.bytes else none

def text (tag : Tag) : String :=
  match tag.characters? with
  | some bytes => String.ofList (bytes.map fun b => Char.ofNat b.toNat)
  | none => "0x" ++ Text.hexadecimal 8 tag.code.toNat

def ofNat? (n : Nat) : Option Tag :=
  if n < 2 ^ (32 : Nat) then some ⟨BitVec.ofNat 32 n⟩ else none

def ofHexChars? (text : List Char) : Option Tag :=
  let digits := if text.head? = some '+' then text.tail else text
  if digits = [] then none else (Text.ofHexDigits? digits).bind ofNat?

/-- Reads a tag: a number in base sixteen behind `0x`, a number in base ten, or
four ASCII characters. -/
def ofChars? : List Char -> Option Tag
  | '0' :: 'x' :: digits => ofHexChars? digits
  | '0' :: 'X' :: digits => ofHexChars? digits
  | text =>
      if text ≠ [] ∧ text.all Char.isDigit then
        ofNat? (Text.ofDecimalDigits text)
      else
        (fourCCOfChars? text).map Tag.mk

def ofText? (text : String) : Option Tag :=
  ofChars? text.toList

def invalidText (text : String) : String :=
  s!"invalid buffer tag '{text}': expected four characters or a 32-bit integer"

end Tag
end VideoConfig
