import VideoConfig.Access
import VideoConfig.Descriptor
import VideoConfig.Toml.DateTable
import VideoConfig.Toml.Document

/-!
# Manifests

A manifest describes implementations in TOML, so that they can be matched without
asking them. Every implementation has properties of its base record, entries for its
decoders, encoders and filters, and live values. Each entry fills an extension buffer
of its own. The keys of every table are processed in order.
-/

namespace VideoConfig

structure Implementation where
  name : String
  properties : Toml.Table
  decoders : List Toml.Table
  encoders : List Toml.Table
  processors : List Toml.Table
  live : Toml.Table

inductive ManifestError where
  | malformed
  | property (implementation : String) (cause : AccessError)
  | unsupportedValue (implementation key type : String)
deriving DecidableEq, Repr

namespace ManifestError

def message : ManifestError -> String
  | malformed => "failed to parse manifest: TOML parse error"
  | property implementation cause => s!"implementation `{implementation}`: {cause.message}"
  | unsupportedValue implementation key type =>
      s!"implementation `{implementation}`: `{key}` has an unsupported value ({type})"

def chain : ManifestError -> List String
  | property implementation cause => (property implementation cause).message :: cause.chain
  | error => [error.message]

end ManifestError

/-!
## Reading an implementation

Keys that are not expected are passed over, and for a key that is missing there is a
default.
-/

namespace Implementation

def keys : List String :=
  ["name", "properties", "decoder", "encoder", "vpp", "live"]

def field? {result : Type} (table : Toml.Table) (key : String) (default : result)
    (read : Toml.Value -> Option result) : Option result :=
  match table.get? key with
  | some value => read value
  | none => some default

def tables? (value : Toml.Value) : Option (List Toml.Table) := do
  (← value.asArray?).mapM Toml.Value.asFreeTable?

def ofValue? (value : Toml.Value) : Option Implementation := do
  let table ← value.asFields? keys
  return {
    name := ← field? table "name" "" Toml.Value.asString?
    properties := ← field? table "properties" [] Toml.Value.asFreeTable?
    decoders := ← field? table "decoder" [] tables?
    encoders := ← field? table "encoder" [] tables?
    processors := ← field? table "vpp" [] tables?
    live := ← field? table "live" [] Toml.Value.asFreeTable? }

/-!
## Describing an implementation

The values of a table are stored one by one under their paths. An entry gets a
zeroed buffer of its own first, and its paths select that buffer.
-/

def textOf (implementation : String) (key : String) (value : Toml.Value) :
    Attempt ManifestError String :=
  match value.text? with
  | some text => .ok text
  | none => .error (.refused (.unsupportedValue implementation key value.typeName))

/-- The record with values stored under their paths. `place` stands before every path. -/
def storeAll (implementation place : String) (record : Record) :
    Toml.Table -> Attempt ManifestError Record
  | [] => .ok record
  | (path, value) :: rest => do
      let text ← textOf implementation path value
      let change := record.set (place ++ path) text
      change.result.mapError fun failure => failure.map (ManifestError.property implementation)
      storeAll implementation place change.record rest

def storeEntry (implementation extension : String) (tag : Tag) (record : Record)
    (entry : Toml.Table) : Attempt ManifestError Record := do
  let record ← (record.attachZeroed tag).mapError fun error =>
    .refused (.property implementation (.attach error))
  let index := record.instanceCount tag - 1
  storeAll implementation s!"{extension}[{Text.decimal index}]." record
    (inKeyOrder Prod.fst entry)

def storeEntries (implementation extension : String) (tag : Tag) (record : Record) :
    List Toml.Table -> Attempt ManifestError Record
  | [] => .ok record
  | entry :: rest => do
      let record ← storeEntry implementation extension tag record entry
      storeEntries implementation extension tag record rest

mutual

/-- The live values of a value, or the name of a type that is none. The items of an
array are values of their own. -/
def liveValues : Toml.Value -> Except String (List Value)
  | .string text => .ok [.text text]
  | .integer n =>
      if 0 ≤ n ∧ n < (2 ^ (32 : Nat) : Nat) then
        .ok [Value.ofInt ⟨false, .w32⟩ n]
      else
        .ok [Value.ofInt ⟨true, .w64⟩ n]
  | .float word => .ok [.float .binary64 word]
  | .boolean b => .ok [Value.ofInt ⟨false, .w32⟩ (if b then 1 else 0)]
  | .array items => liveValuesOfAll items
  | .datetime _ => .error "datetime"
  | .table _ => .error "table"

def liveValuesOfAll : List Toml.Value -> Except String (List Value)
  | [] => .ok []
  | item :: rest => do
      let first ← liveValues item
      let others ← liveValuesOfAll rest
      return first ++ others

end

def addLive (implementation : String) (descriptor : Descriptor) :
    Toml.Table -> Attempt ManifestError Descriptor
  | [] => .ok descriptor
  | (key, value) :: rest => do
      let values ← (liveValues value).mapError fun type =>
        .refused (.unsupportedValue implementation key type)
      addLive implementation (values.foldl (fun d value => d.addLive key value) descriptor) rest

def descriptor (implementation : Implementation) : Attempt ManifestError Descriptor := do
  let name := implementation.name
  let empty := Descriptor.new name
  let record ← storeAll name "" empty.record (inKeyOrder Prod.fst implementation.properties)
  let record ←
    storeEntries name "mfxDecoderDescription" Catalog.decoderTag record implementation.decoders
  let record ←
    storeEntries name "mfxEncoderDescription" Catalog.encoderTag record implementation.encoders
  let record ←
    storeEntries name "mfxVPPDescription" Catalog.processingTag record implementation.processors
  addLive name { empty with record } (inKeyOrder Prod.fst implementation.live)

end Implementation

namespace Manifest

def read (text : String) : Except ManifestError (List Implementation) :=
  let implementations? := do
    let table ← Toml.read? text
    match table.get? "implementation" with
    | none => return []
    | some value => (← value.asArray?).mapM Implementation.ofValue?
  match implementations? with
  | some implementations => .ok implementations
  | none => .error .malformed

def descriptors (implementations : List Implementation) :
    Attempt ManifestError (List Descriptor) :=
  implementations.mapM Implementation.descriptor

end Manifest
end VideoConfig
