import VideoConfig.CommandLine.Environment
import VideoConfig.CommandLine.Options
import VideoConfig.CommandLine.Request
import VideoConfig.Text.Pieces

/-!
# Arguments

The arguments are read from left to right. An option stands behind one or two
hyphens; its value is attached to it or is the next argument, which may then not
look like an option. Letters may be joined behind one hyphen. Behind an argument
`--` there are no more options. The first fault, and the first request for help,
ends the reading. What is given at a level is kept in order, an option without value
with the empty text; `Progress` has the option whose value is the next argument
beside it.
-/

namespace VideoConfig
namespace CommandLine

inductive Stop where
  | help
  | version
  | usage
deriving DecidableEq, Repr

inductive Argument where
  | separator
  | long (text : List Char)
  | letters (text : List Char)
  | word (text : String)
deriving DecidableEq, Repr

namespace Argument

/-- The form of an argument. A single hyphen is a word. -/
def ofText (text : String) : Argument :=
  match text.toList with
  | ['-', '-'] => separator
  | '-' :: '-' :: rest => long rest
  | ['-'] => word text
  | '-' :: rest => letters rest
  | _ => word text

end Argument

structure Given where
  options : List (OptionName × String)
  operands : List String
deriving DecidableEq, Repr

namespace Given

def empty : Given :=
  { options := [], operands := [] }

def has (given : Given) (option : OptionName) : Bool :=
  given.options.any fun entry => decide (entry.1 = option)

def values (given : Given) (option : OptionName) : List String :=
  (given.options.filter fun entry => decide (entry.1 = option)).map Prod.snd

def value? (given : Given) (option : OptionName) : Option String :=
  (given.values option).head?

def format (given : Given) : OutputFormat :=
  if given.value? .format = some "json" then .json else .text

def addOption (given : Given) (option : OptionName) (value : String) : Except Stop Given :=
  if given.has option && !option.repeats then
    .error .usage
  else if !option.accepts value then
    .error .usage
  else
    match option with
    | .help => .error .help
    | .version => .error .version
    | _ => .ok { given with options := given.options ++ [(option, value)] }

def addOperand (level : Level) (given : Given) (operand : String) : Except Stop Given :=
  let extended := { given with operands := given.operands ++ [operand] }
  match level.operands with
  | none => .ok extended
  | some limit => if given.operands.length < limit then .ok extended else .error .usage

end Given

structure Progress where
  given : Given
  waiting : Option OptionName
deriving DecidableEq, Repr

def readLong (level : Level) (given : Given) (text : List Char) : Except Stop Progress := do
  let (name, value) :=
    match Text.cutAt? (· == '=') text with
    | some (name, value) => (name, some (String.ofList value))
    | none => (text, none)
  match level.named? (String.ofList name) with
  | none => throw .usage
  | some option =>
      match option.takesValue, value with
      | true, some value => return { given := ← given.addOption option value, waiting := none }
      | true, none => return { given, waiting := some option }
      | false, some _ => throw .usage
      | false, none => return { given := ← given.addOption option "", waiting := none }

/-- Reads what stands behind a single hyphen. The value of an option may be attached to
its letter, also behind `=`. -/
def readLetters (level : Level) (given : Given) : List Char -> Except Stop Progress
  | [] => .ok { given, waiting := none }
  | c :: rest => do
      match level.lettered? c with
      | none => throw .usage
      | some option =>
          if option.takesValue then
            match rest with
            | [] => return { given, waiting := some option }
            | '=' :: value =>
                return { given := ← given.addOption option (String.ofList value), waiting := none }
            | value =>
                return { given := ← given.addOption option (String.ofList value), waiting := none }
          else
            readLetters level (← given.addOption option "") rest

def readGiven (level : Level) (progress : Progress) : List String -> Except Stop Given
  | [] => if progress.waiting.isNone then .ok progress.given else .error .usage
  | argument :: rest => do
      match progress.waiting, Argument.ofText argument with
      | some option, .word value =>
          let given ← progress.given.addOption option value
          readGiven level { given, waiting := none } rest
      | some _, _ => throw .usage
      | none, .separator => rest.foldlM (Given.addOperand level) progress.given
      | none, .long text => readGiven level (← readLong level progress.given text) rest
      | none, .letters text => readGiven level (← readLetters level progress.given text) rest
      | none, .word operand =>
          let given ← progress.given.addOperand level operand
          readGiven level { given, waiting := none } rest

structure Invocation where
  request : Request
  color : Bool
deriving DecidableEq, Repr

def requestOf (environment : Environment) (command : Command) (given : Given) :
    Except Stop Request := do
  match command with
  | .set =>
      return .set {
        assignments := given.operands, config := given.value? .config
        attaches := !given.has .noAttach, format := given.format }
  | .schema =>
      return .schema {
        capabilities := given.has .capabilities, start := given.operands.head?
        format := given.format }
  | .implementations =>
      let manifest := (given.value? .manifest).or environment.manifest
      if manifest = some "" then
        throw .usage
      else
        return .implementations {
          manifest, filters := given.values .filter, config := given.value? .config
          first := given.has .first, format := given.format }

def helpOn (words : List String) : Stop :=
  match words with
  | [] => .help
  | [word] => if word = "help" ∨ (Command.named? word).isSome then .help else .usage
  | _ => .usage

def readTop (environment : Environment) (given : Given) : List String -> Except Stop Invocation
  | [] => .error .usage
  | argument :: rest => do
      match Argument.ofText argument with
      | .separator => throw .usage
      | .long text => readTop environment (← readLong Level.top given text).given rest
      | .letters text => readTop environment (← readLetters Level.top given text).given rest
      | .word word =>
          match Command.named? word with
          | some command =>
              let inner ← readGiven (Level.ofCommand command)
                { given := Given.empty, waiting := none } rest
              let request ← requestOf environment command inner
              return { request, color := !given.has .noColor && !inner.has .noColor }
          | none => throw (if word = "help" then helpOn rest else .usage)

def readArguments (environment : Environment) (arguments : List String) :
    Except Stop Invocation :=
  readTop environment Given.empty arguments

end CommandLine
end VideoConfig
