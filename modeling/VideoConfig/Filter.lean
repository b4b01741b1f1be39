import VideoConfig.Text.Blank
import VideoConfig.Text.Pieces
import VideoConfig.Value

/-!
# Filters

A filter is a path with the value that is expected there. On the command line it is
written `PATH=VALUE`. A typed value is compared bit for bit, and a text is read as a
value of the field first.
-/

namespace VideoConfig

inductive Expectation where
  | typed (value : Value)
  | text (contents : String)
deriving DecidableEq

structure Filter where
  path : String
  expected : Expectation
deriving DecidableEq

/-- The path and the value of a text `PATH=VALUE`, cut at its first `=`. Blanks around
the path do not count, and it may not be empty. -/
def readAssignment? (text : String) : Option (String × String) := do
  let (path, value) ← Text.cutAt? (· == '=') text.toList
  let path := Text.trim path
  if path = [] then
    none
  else
    return (String.ofList path, String.ofList value)

namespace Expectation

def display : Expectation -> String
  | typed value => value.display
  | text contents => contents

end Expectation

namespace Filter

def read? (text : String) : Option Filter :=
  (readAssignment? text).map fun (path, value) => { path, expected := .text value }

def invalidText (text : String) : String :=
  s!"invalid filter `{text}`, expected PATH=VALUE"

def display (filter : Filter) : String :=
  filter.path ++ "=" ++ filter.expected.display

end Filter
end VideoConfig
