import VideoConfig.Access.Error

/-!
# Diagnostics

Messages for the command line: what went wrong, where, why, and what can be done. A
diagnostic is written as lines of text, on a terminal with colours. A report shows a
path with marks below the range in which its defect stands.
-/

namespace VideoConfig

inductive Severity where
  | error
  | warning
deriving DecidableEq, Repr

namespace Severity

def text : Severity -> String
  | error => "error"
  | warning => "warning"

def colored : Severity -> String
  | error => "\x1b[1;31merror\x1b[0m"
  | warning => "\x1b[1;33mwarning\x1b[0m"

end Severity

structure Diagnostic where
  severity : Severity
  message : String
  context : List String
  suggestions : List String
  location : Option String
deriving DecidableEq, Repr

namespace Diagnostic

def numbered : (number : Nat) -> List String -> String
  | _, [] => ""
  | number, suggestion :: rest =>
      s!"  {Text.decimal number}. {suggestion}\n" ++ numbered (number + 1) rest

def format (diagnostic : Diagnostic) (color : Bool) : String :=
  let severity :=
    if color then diagnostic.severity.colored else diagnostic.severity.text
  let help := if color then "\x1b[1;32mhelp\x1b[0m" else "help"
  let location :=
    match diagnostic.location with
    | some path => s!"  --> {path}\n"
    | none => ""
  let context := String.join (diagnostic.context.map fun line => s!"  → {line}\n")
  let suggestions :=
    if diagnostic.suggestions.isEmpty then
      ""
    else
      s!"\n{help}: consider:\n" ++ numbered 1 diagnostic.suggestions
  s!"{severity}: {diagnostic.message}\n" ++ location ++ context ++ suggestions

end Diagnostic

structure PathReport where
  path : String
  obstacle : Obstacle
  span : Span
deriving DecidableEq, Repr

namespace PathReport

def headline : String :=
  "unknown property path"

def charactersWithin : (bytes : Nat) -> List Char -> Nat
  | _, [] => 0
  | 0, _ => 0
  | bytes + 1, c :: rest => 1 + charactersWithin (bytes + 1 - c.utf8Size) rest

def format (report : PathReport) : String :=
  let path := report.path.toList
  let before := charactersWithin report.span.offset path
  let marked := charactersWithin report.span.length (path.drop before)
  let marks := String.ofList (List.replicate before ' ' ++ List.replicate marked '^')
  s!"{headline}\n  {report.path}\n  {marks} {report.obstacle.message}\n"

end PathReport

namespace AccessError

def report? : AccessError -> Option PathReport
  | notFound path obstacle (some span) => some { path, obstacle, span }
  | _ => none

def diagnostic : AccessError -> Diagnostic
  | notFound path obstacle _ =>
      { severity := .error, location := none
        message := s!"unknown property `{path}`"
        context := [obstacle.message]
        suggestions := ["Run `vplcfg schema` to list addressable properties"] }
  | unsupported path value cause =>
      { severity := .error, location := none
        message := s!"cannot store `{value}` in `{path}`"
        context := [cause.message]
        suggestions := ["Check the field type with `vplcfg schema`"] }
  | moreBuffersNeeded path tag size =>
      { severity := .warning, location := none
        message := s!"`{path}` lives in extension buffer {tag.text}"
        context := [s!"the buffer is {Text.decimal size} bytes and is not attached"]
        suggestions := ["Attach the buffer and retry, or drop `--no-attach`"] }
  | attach error =>
      { severity := .error, location := none, context := [], suggestions := []
        message := error.message }

end AccessError
end VideoConfig
