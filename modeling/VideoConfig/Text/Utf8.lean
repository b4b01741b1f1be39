/-!
# UTF-8

Texts are stored as their UTF-8 form. Reading never fails: every longest run of
bytes that starts a character and cannot be continued to one is read as the
replacement character U+FFFD. A continuation carries six bits of a character that
was begun before.
-/

namespace VideoConfig
namespace Text

def encodeUtf8 (text : String) : List UInt8 :=
  text.toList.flatMap String.utf8EncodeChar

def replacement : Char := '\uFFFD'

def isContinuation (b : UInt8) : Bool :=
  0x80 ≤ b && b ≤ 0xBF

/-- The bytes that may follow the first byte of a character of three bytes:
shorter forms and surrogates are left out. -/
def secondOfThree (b0 b1 : UInt8) : Bool :=
  if b0 = 0xE0 then 0xA0 ≤ b1 && b1 ≤ 0xBF
  else if b0 = 0xED then 0x80 ≤ b1 && b1 ≤ 0x9F
  else isContinuation b1

/-- The bytes that may follow the first byte of a character of four bytes:
shorter forms and code points above U+10FFFF are left out. -/
def secondOfFour (b0 b1 : UInt8) : Bool :=
  if b0 = 0xF0 then 0x90 ≤ b1 && b1 ≤ 0xBF
  else if b0 = 0xF4 then 0x80 ≤ b1 && b1 ≤ 0x8F
  else isContinuation b1

def ofTwo (b0 b1 : UInt8) : Char :=
  Char.ofNat ((b0.toNat % 0x20) * 0x40 + b1.toNat % 0x40)

def ofThree (b0 b1 b2 : UInt8) : Char :=
  Char.ofNat (((b0.toNat % 0x10) * 0x40 + b1.toNat % 0x40) * 0x40 + b2.toNat % 0x40)

def ofFour (b0 b1 b2 b3 : UInt8) : Char :=
  Char.ofNat
    ((((b0.toNat % 0x08) * 0x40 + b1.toNat % 0x40) * 0x40 + b2.toNat % 0x40) * 0x40
      + b3.toNat % 0x40)

def decodeUtf8Chars : List UInt8 -> List Char
  | [] => []
  | b0 :: rest =>
      if b0 < 0x80 then
        Char.ofNat b0.toNat :: decodeUtf8Chars rest
      else if 0xC2 ≤ b0 && b0 ≤ 0xDF then
        match rest with
        | b1 :: rest1 =>
            if isContinuation b1 then
              ofTwo b0 b1 :: decodeUtf8Chars rest1
            else
              replacement :: decodeUtf8Chars (b1 :: rest1)
        | [] => [replacement]
      else if 0xE0 ≤ b0 && b0 ≤ 0xEF then
        match rest with
        | b1 :: rest1 =>
            if secondOfThree b0 b1 then
              match rest1 with
              | b2 :: rest2 =>
                  if isContinuation b2 then
                    ofThree b0 b1 b2 :: decodeUtf8Chars rest2
                  else
                    replacement :: decodeUtf8Chars (b2 :: rest2)
              | [] => [replacement]
            else
              replacement :: decodeUtf8Chars (b1 :: rest1)
        | [] => [replacement]
      else if 0xF0 ≤ b0 && b0 ≤ 0xF4 then
        match rest with
        | b1 :: rest1 =>
            if secondOfFour b0 b1 then
              match rest1 with
              | b2 :: rest2 =>
                  if isContinuation b2 then
                    match rest2 with
                    | b3 :: rest3 =>
                        if isContinuation b3 then
                          ofFour b0 b1 b2 b3 :: decodeUtf8Chars rest3
                        else
                          replacement :: decodeUtf8Chars (b3 :: rest3)
                    | [] => [replacement]
                  else
                    replacement :: decodeUtf8Chars (b2 :: rest2)
              | [] => [replacement]
            else
              replacement :: decodeUtf8Chars (b1 :: rest1)
        | [] => [replacement]
      else
        replacement :: decodeUtf8Chars rest

def decodeUtf8 (bytes : List UInt8) : String :=
  String.ofList (decodeUtf8Chars bytes)

end Text
end VideoConfig
