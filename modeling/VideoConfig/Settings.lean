import VideoConfig.Filter
import VideoConfig.Toml.DateTable
import VideoConfig.Toml.Document

/-!
# Settings

Settings hold properties and filters that are used by default, and defaults for the
command line. They are read from one file for the user and one for the project;
those for the project come behind those for the user, and win where both say
something. Parameters are paths with values in the order in which they are set. Keys
that are not expected are passed over, and missing buffers are attached if nothing
else is said.
-/

namespace VideoConfig

structure FilterEntry where
  path : String
  value : Toml.Value

structure Settings where
  params : Toml.Table
  filters : List FilterEntry
  manifest : Option String
  attachExtensions : Option Bool

inductive SettingsError where
  | unsupportedParam (path type : String)
  | unsupportedFilter (path type : String)
deriving DecidableEq, Repr

namespace SettingsError

def message : SettingsError -> String
  | unsupportedParam path type => s!"param `{path}` has an unsupported {type} value"
  | unsupportedFilter path type => s!"filter `{path}` has an unsupported {type} value"

end SettingsError

namespace Settings

def empty : Settings :=
  { params := [], filters := [], manifest := none, attachExtensions := none }

def filterOfValue? (value : Toml.Value) : Option FilterEntry := do
  let table ← value.asFields? ["path", "value"]
  return {
    path := ← (← table.get? "path").asString?
    value := ← (← table.get? "value").withDates? }

def optional? {result : Type} (table : Toml.Table) (key : String)
    (read : Toml.Value -> Option result) : Option (Option result) :=
  match table.get? key with
  | some value => (read value).map some
  | none => some none

def ofTable? (table : Toml.Table) : Option Settings := do
  let params ← optional? table "params" Toml.Value.asFreeTable?
  let filters ← optional? table "filter" Toml.Value.asArray?
  let defaults ← optional? table "defaults" fun value =>
    value.asFields? ["manifest", "attach_extensions"]
  let defaults := defaults.getD []
  return {
    params := params.getD []
    filters := ← (filters.getD []).mapM filterOfValue?
    manifest := ← optional? defaults "manifest" Toml.Value.asString?
    attachExtensions := ← optional? defaults "attach_extensions" Toml.Value.asBoolean? }

def read? (text : String) : Option Settings := do
  ofTable? (← Toml.read? text)

/-- Settings with others that win over them. A parameter that both set keeps its place
and takes the other value. -/
def merge (settings other : Settings) : Settings :=
  { params := other.params.foldl (fun table entry => table.insert entry.1 entry.2) settings.params
    filters := settings.filters ++ other.filters
    manifest := other.manifest.or settings.manifest
    attachExtensions := other.attachExtensions.or settings.attachExtensions }

/-- The settings of the files of the user and of the project. A file that is missing or
that cannot be read says nothing. -/
def load (user project : Option String) : Settings :=
  let ofFile (text : Option String) : Settings := (text.bind read?).getD empty
  (empty.merge (ofFile user)).merge (ofFile project)

def attaches (settings : Settings) : Bool :=
  settings.attachExtensions.getD true

def assignments (settings : Settings) : Except SettingsError (List (String × String)) :=
  settings.params.mapM fun (path, value) =>
    match value.text? with
    | some text => .ok (path, text)
    | none => .error (.unsupportedParam path value.typeName)

def filterList (settings : Settings) : Except SettingsError (List Filter) :=
  settings.filters.mapM fun entry =>
    match entry.value.text? with
    | some text => .ok { path := entry.path, expected := .text text }
    | none => .error (.unsupportedFilter entry.path entry.value.typeName)

end Settings
end VideoConfig
