/-!
# Options

The options of the command line, and where each of them may stand: in front of the
command, or behind the name of a command. A place bounds how many words that are no
options may be given, or has no such bound.
-/

namespace VideoConfig
namespace CommandLine

inductive OptionName where
  | help
  | version
  | verbose
  | noColor
  | noAttach
  | capabilities
  | first
  | config
  | format
  | manifest
  | filter
deriving DecidableEq, Repr

namespace OptionName

def long : OptionName -> String
  | help => "help"
  | version => "version"
  | verbose => "verbose"
  | noColor => "no-color"
  | noAttach => "no-attach"
  | capabilities => "caps"
  | first => "first"
  | config => "config"
  | format => "format"
  | manifest => "manifest"
  | filter => "filter"

def letter? : OptionName -> Option Char
  | help => some 'h'
  | version => some 'V'
  | verbose => some 'v'
  | filter => some 'f'
  | _ => none

def takesValue : OptionName -> Bool
  | config => true
  | format => true
  | manifest => true
  | filter => true
  | _ => false

def repeats : OptionName -> Bool
  | filter => true
  | _ => false

def accepts (option : OptionName) (value : String) : Bool :=
  match option with
  | format => value == "text" || value == "json"
  | config => !value.isEmpty
  | manifest => !value.isEmpty
  | _ => true

end OptionName

inductive Command where
  | set
  | schema
  | implementations
deriving DecidableEq, Repr

namespace Command

def all : List Command :=
  [set, schema, implementations]

def name : Command -> String
  | set => "set"
  | schema => "schema"
  | implementations => "match"

def named? (name : String) : Option Command :=
  all.find? fun command => command.name == name

end Command

structure Level where
  options : List OptionName
  operands : Option Nat
deriving DecidableEq, Repr

namespace Level

def everywhere : List OptionName :=
  [.help, .verbose, .noColor]

def top : Level :=
  { options := .version :: everywhere, operands := some 0 }

def ofCommand : Command -> Level
  | .set => { options := [.config, .noAttach, .format] ++ everywhere, operands := none }
  | .schema => { options := [.capabilities, .format] ++ everywhere, operands := some 1 }
  | .implementations =>
      { options := [.manifest, .filter, .config, .first, .format] ++ everywhere
        operands := some 0 }

def named? (level : Level) (name : String) : Option OptionName :=
  level.options.find? fun option => option.long == name

def lettered? (level : Level) (c : Char) : Option OptionName :=
  level.options.find? fun option => option.letter? == some c

end Level
end CommandLine
end VideoConfig
