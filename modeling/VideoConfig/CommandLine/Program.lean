import VideoConfig.CommandLine.Arguments
import VideoConfig.CommandLine.Run

/-!
# The program

A run of the program on its arguments: what it prints, what it tells the user beside
that, and the status that it returns.
-/

namespace VideoConfig
namespace CommandLine

inductive Outcome where
  | printed (text : String)
  | failed (error : CommandError) (color : Bool)
  | misused
  | abandoned
deriving DecidableEq, Repr

def helpText : String :=
  lines [
    "Property-path configuration and capability matching for video acceleration parameter records",
    "",
    "Usage: vplcfg [OPTIONS] <COMMAND>",
    "",
    "Commands:",
    "  set     Set properties on an empty video parameter record and print them back",
    "  schema  List addressable property paths",
    "  match   List implementations from a manifest that satisfy the filters",
    "  help    Print this message",
    "",
    "Options:",
    "  -v, --verbose   Enable verbose output",
    "      --no-color  Disable colored output",
    "  -h, --help      Print help",
    "  -V, --version   Print version"]

def versionText : String :=
  lines ["vplcfg 0.1.0"]

namespace Outcome

def status : Outcome -> Nat
  | printed _ => 0
  | failed _ _ => 1
  | misused => 2
  | abandoned => 101

def output : Outcome -> String
  | printed text => text
  | _ => ""

def complaint (outcome : Outcome) (terminal : Bool) : String :=
  match outcome with
  | failed error color =>
      let notice :=
        match error.notice? with
        | some notice => notice.format (color && terminal)
        | none => ""
      notice ++ lines [s!"error: {error.message}"]
  | misused => lines ["error: invalid arguments", "", "For more information, try '--help'."]
  | _ => ""

def ofStop : Stop -> Outcome
  | .help => printed helpText
  | .version => printed versionText
  | .usage => misused

end Outcome

def run {m : Type -> Type} [Monad m] (read : String -> m (Except FileError String))
    (environment : Environment) (arguments : List String) : m Outcome := do
  match readArguments environment arguments with
  | .error stop => return .ofStop stop
  | .ok invocation =>
      match ← runRequest read environment invocation.request with
      | .ok text => return .printed text
      | .error (.refused error) => return .failed error invocation.color
      | .error .abandoned => return .abandoned

end CommandLine
end VideoConfig
