import VideoConfig.CommandLine.Environment
import VideoConfig.CommandLine.Error
import VideoConfig.CommandLine.Output
import VideoConfig.Selection

/-!
# Running commands

A command reads its files and gives the text that it prints, or an error. How files are
read is left open: the reader may be that of the system, or a directory in memory.
-/

namespace VideoConfig
namespace CommandLine

abbrev CommandResult := Attempt CommandError String

/-! ## Setting properties -/

def assignmentsOf (settings : Settings) (request : SetRequest) :
    Except CommandError (List (String × String)) := do
  let configured ← settings.assignments.mapError .settings
  let given ← request.assignments.mapM fun text =>
    match readAssignment? text with
    | some assignment => .ok assignment
    | none => .error (.invalidAssignment text)
  if configured.isEmpty && given.isEmpty then
    throw .noAssignments
  else
    return configured ++ given

def runSet (settings : Settings) (request : SetRequest) : CommandResult := do
  let assignments ← (assignmentsOf settings request).mapError .refused
  let attaches := request.attaches && settings.attaches
  let start := Record.new Catalog.videoParameters
  let record ← (start.assignAll attaches assignments).mapError fun stop =>
    stop.failure.map (CommandError.notSet stop.path)
  let readings ← (record.readAll (assignedPaths assignments)).mapError fun stop =>
    stop.failure.map (CommandError.notReadBack stop.path)
  return printReadings request.format readings

/-! ## Listing paths -/

def runSchema (request : SchemaRequest) : CommandResult :=
  let schema :=
    if request.capabilities then Catalog.implementationDescription else Catalog.videoParameters
  let start := request.start.getD ""
  let leaves := schema.leaves.filter fun leaf => leaf.path.startsWith start
  if leaves.isEmpty then
    .error (.refused (.noPaths start))
  else
    .ok (printLeaves request.format leaves)

/-!
## Listing implementations

The file with the manifest is the one of the request or of the settings, and the
filters are those of both.
-/

def matchPlan (settings : Settings) (request : MatchRequest) :
    Except CommandError (String × List Filter) := do
  match request.manifest.or settings.manifest with
  | none => throw .noManifest
  | some path =>
      let configured ← settings.filterList.mapError .settings
      let given ← request.filters.mapM fun text =>
        match Filter.read? text with
        | some filter => .ok filter
        | none => .error (.invalidFilter text)
      return (path, configured ++ given)

/-- The indexes of the implementations that are listed; none if the run is abandoned. -/
def listed? (source : Enumerator) (filters : List Filter) (first : Bool) : Option (List Nat) :=
  if first then
    (source.select? filters).map fun found => found.result.toList
  else
    (source.matching? filters).map fun found => found.result

def runMatch (request : MatchRequest) (path : String) (filters : List Filter)
    (manifest : String) : CommandResult := do
  let refused (error : ManifestError) : CommandError := .manifest path error
  let implementations ← (Manifest.read manifest).mapError fun error => .refused (refused error)
  let descriptors ← (Manifest.descriptors implementations).mapError fun failure =>
    failure.map refused
  match listed? (Enumerator.ofList descriptors) filters request.first with
  | none => throw .abandoned
  | some [] => throw (.refused (.noImplementation filters.length))
  | some indexes =>
      let names := indexes.filterMap fun index =>
        descriptors[index]?.map fun descriptor => (index, descriptor.name)
      return printImplementations request.format names

/-!
## Requests

Settings are read from the file that the request names, or else from those of the
user and of the project.
-/

def projectSettings : String :=
  "vplcfg.toml"

def settingsOf (path : String) (contents : Except FileError String) :
    Except CommandError Settings :=
  match contents with
  | .error error => .error (.unreadableSettings path error)
  | .ok text =>
      match Settings.read? text with
      | some settings => .ok settings
      | none => .error (.malformedSettings path)

def loadSettings {m : Type -> Type} [Monad m] (read : String -> m (Except FileError String))
    (environment : Environment) (config : Option String) : m (Except CommandError Settings) := do
  match config with
  | some path => return settingsOf path (← read path)
  | none =>
      let user ←
        match environment.settings with
        | some path => Except.toOption <$> read path
        | none => pure none
      let project ← Except.toOption <$> read projectSettings
      return .ok (Settings.load user project)

def runRequest {m : Type -> Type} [Monad m] (read : String -> m (Except FileError String))
    (environment : Environment) : Request -> m CommandResult
  | .schema request => return runSchema request
  | .set request => do
      match ← loadSettings read environment request.config with
      | .error error => return .error (.refused error)
      | .ok settings => return runSet settings request
  | .implementations request => do
      match ← loadSettings read environment request.config with
      | .error error => return .error (.refused error)
      | .ok settings =>
          match matchPlan settings request with
          | .error error => return .error (.refused error)
          | .ok (path, filters) =>
              match ← read path with
              | .error error => return .error (.refused (.unreadableManifest path error))
              | .ok manifest => return runMatch request path filters manifest

end CommandLine
end VideoConfig
