/-!
# Cutting a text at separators

Texts are cut as lists of characters. Positions that are shown to a user count the
bytes of the UTF-8 form, which `byteLength` measures. A character takes one byte
exactly if it is ASCII.
-/

namespace VideoConfig
namespace Text

def byteLength : List Char -> Nat
  | [] => 0
  | c :: rest => c.utf8Size + byteLength rest

def isAscii (c : Char) : Bool :=
  c.toNat < 0x80

/-- The parts of a text between its separators. There is always one part more
than there are separators. -/
def pieces (separator : Char) : List Char -> List (List Char)
  | [] => [[]]
  | c :: rest =>
      if c = separator then
        [] :: pieces separator rest
      else
        match pieces separator rest with
        | [] => [[c]]
        | first :: others => (c :: first) :: others

def cutAt? (inClass : Char -> Bool) : List Char -> Option (List Char × List Char)
  | [] => none
  | c :: rest =>
      if inClass c then
        some ([], rest)
      else
        (cutAt? inClass rest).map fun cut => (c :: cut.1, cut.2)

@[simp] theorem byteLength_nil : byteLength [] = 0 := rfl

@[simp] theorem byteLength_cons (c : Char) (rest : List Char) :
    byteLength (c :: rest) = c.utf8Size + byteLength rest := rfl

@[simp] theorem byteLength_append (first second : List Char) :
    byteLength (first ++ second) = byteLength first + byteLength second := by
  induction first with
  | nil =>
      simp
  | cons c rest ih =>
      simp [ih, Nat.add_assoc]

theorem pieces_ne_nil (separator : Char) (text : List Char) :
    pieces separator text ≠ [] := by
  induction text with
  | nil =>
      simp [pieces]
  | cons c rest ih =>
      unfold pieces
      split
      · simp
      · split <;> simp

end Text
end VideoConfig
