/-!
# Environment

What the program takes from its surroundings beside the arguments.
-/

namespace VideoConfig
namespace CommandLine

structure Environment where
  settings : Option String
  manifest : Option String
deriving DecidableEq, Repr

namespace Environment

def settingsBelow (directory : String) : String :=
  directory ++ "/vplcfg/config.toml"

/-- The directory for settings: the one that is named, if its path is absolute, or else
`.config` below the home directory. Without a home directory there is none. -/
def settingsDirectory? (home configHome : Option String) : Option String :=
  match home with
  | none => none
  | some home =>
      match configHome.filter fun path => path.startsWith "/" with
      | some path => some path
      | none => some (home ++ "/.config")

def ofVariables (home configHome manifest : Option String) : Environment :=
  { settings := (settingsDirectory? home configHome).map settingsBelow, manifest }

end Environment
end CommandLine
end VideoConfig
