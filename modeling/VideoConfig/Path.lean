import VideoConfig.Text.Digits
import VideoConfig.Text.Pieces

/-!
# Property paths

A path names a field by the names on the way to it, with points between them.
A name may be followed by indexes in brackets: one for each dimension of an array,
or the empty brackets `[]` for all elements.
-/

namespace VideoConfig

structure Span where
  offset : Nat
  length : Nat
deriving DecidableEq, Repr

inductive Index where
  | all
  | element (indexes : List Nat)
deriving DecidableEq, Repr

structure Segment where
  name : String
  index : Option Index
  span : Span
deriving DecidableEq, Repr

abbrev Path := List Segment

namespace Index

def text : Index -> List Char
  | all => ['[', ']']
  | element indexes => indexes.flatMap fun i => '[' :: (Text.decimalDigits i ++ [']'])

end Index

namespace Segment

def text (segment : Segment) : List Char :=
  segment.name.toList ++ (segment.index.map Index.text).getD []

end Segment

namespace Path

def chars (path : Path) : List Char :=
  ['.'].intercalate (path.map Segment.text)

def text (path : Path) : String :=
  String.ofList path.chars

end Path
end VideoConfig
