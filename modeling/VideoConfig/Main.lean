import VideoConfig.CommandLine.Program

/-!
# The command line

The outer layer of the program: it reads files and variables of the system, and prints.
-/

namespace VideoConfig
namespace CommandLine

/-- The number of an error of the system. Some of its calls negate it. -/
def errorNumber (code : UInt32) : UInt32 :=
  min code (0 - code)

def ofSystemError (error : IO.Error) : FileError :=
  match error with
  | .noFileOrDirectory _ _ _ => .missing
  | .inappropriateType _ code _ =>
      if errorNumber code = 20 then .notDirectory else .isDirectory
  | .invalidArgument _ code _ =>
      if errorNumber code = 36 then .nameTooLong else .other error.toString
  | .permissionDenied _ _ _ => .other "Permission denied (os error 13)"
  | _ => .other error.toString

def readFile (path : String) : IO (Except FileError String) := do
  if path.contains '\x00' then
    return .error .zeroInName
  else
    match ← (IO.FS.readBinFile path).toBaseIO with
    | .error error => return .error (ofSystemError error)
    | .ok bytes =>
        match String.fromUTF8? bytes with
        | some contents => return .ok contents
        | none => return .error .notText

end CommandLine
end VideoConfig

def main (arguments : List String) : IO UInt32 := do
  let home ← IO.getEnv "HOME"
  let configHome ← IO.getEnv "XDG_CONFIG_HOME"
  let manifest ← IO.getEnv "VPLCFG_MANIFEST"
  let environment := VideoConfig.CommandLine.Environment.ofVariables home configHome manifest
  let outcome ←
    VideoConfig.CommandLine.run VideoConfig.CommandLine.readFile environment arguments
  let errors ← IO.getStderr
  IO.print outcome.output
  errors.putStr (outcome.complaint (← errors.isTty))
  return outcome.status.toUInt32
