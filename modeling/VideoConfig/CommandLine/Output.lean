import VideoConfig.Assignments
import VideoConfig.CommandLine.Request
import VideoConfig.Json

/-!
# Output

The results of the commands as texts: in lines for a reader, or in JSON for a program.
-/

namespace VideoConfig
namespace CommandLine

def lines (texts : List String) : String :=
  String.join (texts.map fun text => text ++ "\n")

def pad (width : Nat) (text : String) : String :=
  text ++ String.ofList (List.replicate (width - text.length) ' ')

def printReadings (format : OutputFormat) (readings : List Reading) : String :=
  match format with
  | .text =>
      lines (readings.map fun reading =>
        let values := String.intercalate ", " (reading.values.map Value.display)
        s!"{reading.path} = {values}")
  | .json =>
      lines [(Json.array (readings.map fun reading =>
        .object [("path", .string reading.path),
          ("values", .array (reading.values.map Value.json))])).text]

def typeLabel (leaf : Leaf) : String :=
  let shape := String.join (leaf.shape.map fun dimension => s!"[{Text.decimal dimension}]")
  let category := if leaf.category = .fourCC then " fourcc" else ""
  leaf.kind.name ++ shape ++ category

def leafObject (leaf : Leaf) : Json :=
  let shape :=
    if leaf.shape.isEmpty then [] else [("shape", Json.array (leaf.shape.map Json.natural))]
  .object ([("path", .string leaf.path), ("type", .string leaf.kind.name),
    ("fourcc", .boolean (decide (leaf.category = .fourCC))),
    ("offset", .natural leaf.offset)] ++ shape)

def printLeaves (format : OutputFormat) (leaves : List Leaf) : String :=
  match format with
  | .text =>
      let width := leaves.foldl (fun width leaf => max width leaf.path.length) 0
      lines (leaves.map fun leaf =>
        s!"{pad width leaf.path}  {pad 12 (typeLabel leaf)}  +{Text.decimal leaf.offset}")
  | .json => lines [(Json.array (leaves.map leafObject)).text]

def printImplementations (format : OutputFormat) (implementations : List (Nat × String)) :
    String :=
  match format with
  | .text => lines (implementations.map fun (index, name) => s!"{Text.decimal index}: {name}")
  | .json =>
      lines [(Json.array (implementations.map fun (index, name) =>
        .object [("index", .natural index), ("name", .string name)])).text]

end CommandLine
end VideoConfig
