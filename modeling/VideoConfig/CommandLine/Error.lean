import VideoConfig.CommandLine.Files
import VideoConfig.Diagnostic
import VideoConfig.Manifest
import VideoConfig.Settings

/-!
# Errors of commands

Why a command has no result. The message stands in the last line of what is written
to the user; a property that cannot be set has a notice of its own in front of it. A
notice is a report if the place in the path is known.
-/

namespace VideoConfig
namespace CommandLine

inductive CommandError where
  | unreadableSettings (path : String) (error : FileError)
  | malformedSettings (path : String)
  | settings (error : SettingsError)
  | invalidAssignment (text : String)
  | noAssignments
  | notSet (path : String) (cause : AccessError)
  | notReadBack (path : String) (cause : AccessError)
  | noPaths (start : String)
  | noManifest
  | invalidFilter (text : String)
  | unreadableManifest (path : String) (error : FileError)
  | manifest (path : String) (error : ManifestError)
  | noImplementation (filters : Nat)
deriving DecidableEq, Repr

inductive Notice where
  | report (report : PathReport)
  | diagnostic (diagnostic : Diagnostic)
deriving DecidableEq, Repr

namespace Notice

def ofAccessError (error : AccessError) : Notice :=
  match error.report? with
  | some found => report found
  | none => diagnostic error.diagnostic

def format (notice : Notice) (color : Bool) : String :=
  match notice with
  | report found => found.format
  | diagnostic found => found.format color

end Notice

namespace CommandError

def line (messages : List String) : String :=
  String.intercalate ": " messages

def message : CommandError -> String
  | unreadableSettings path error =>
      line [s!"failed to read config file: {path}", error.message]
  | malformedSettings path =>
      line [s!"failed to parse config file: {path}", "TOML parse error"]
  | settings error => error.message
  | invalidAssignment text => s!"invalid argument `{text}`, expected PATH=VALUE"
  | noAssignments =>
      "no properties given\n" ++
        "help: Pass PATH=VALUE arguments or add a [params] table to vplcfg.toml"
  | notSet path _ => s!"failed to set `{path}`"
  | notReadBack path cause => line (s!"failed to read back `{path}`" :: cause.chain)
  | noPaths start =>
      s!"no property path starts with `{start}`\n" ++
        "help: Run `vplcfg schema` to list addressable properties"
  | noManifest =>
      "no implementation manifest given\n" ++
        "help: Pass `--manifest <FILE>` or set `defaults.manifest` in vplcfg.toml"
  | invalidFilter text => Filter.invalidText text
  | unreadableManifest path error =>
      line [s!"failed to read manifest {path}", error.message, error.message]
  | manifest path error =>
      match error with
      | .malformed => error.message
      | _ => line (s!"invalid manifest {path}" :: error.chain)
  | noImplementation filters =>
      s!"no implementation satisfies {Text.decimal filters} filter(s)\n" ++
        "help: Run `vplcfg match` without filters to list implementations"

def notice? : CommandError -> Option Notice
  | notSet _ cause => some (.ofAccessError cause)
  | _ => none

end CommandError
end CommandLine
end VideoConfig
