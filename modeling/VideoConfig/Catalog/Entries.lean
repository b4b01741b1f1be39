import VideoConfig.Schema

/-!
# Entries of the catalog

Short forms in which the declarations of the catalog are written.
-/

namespace VideoConfig
namespace Catalog

def scalar (kind : Kind) (name : String) : Entry :=
  .field name kind [] .value

def array (kind : Kind) (name : String) (shape : List Nat) : Entry :=
  .field name kind shape .value

def code (name : String) : Entry :=
  .field name .u32 [] .fourCC

def record (name type : String) : Entry :=
  .field name (.record type) [] .value

def records (name type : String) (shape : List Nat) : Entry :=
  .field name (.record type) shape .value

def pad (kind : Kind) : Entry :=
  .pad kind []

def pads (kind : Kind) (shape : List Nat) : Entry :=
  .pad kind shape

def overlay (branches : List (List Entry)) : Entry :=
  .overlay branches

def tag (text : String) : Tag :=
  ⟨(fourCCOfChars? text.toList).getD 0⟩

def base (name : String) (entries : List Entry) : Declaration :=
  { name, role := .base, entries }

def nested (name : String) (entries : List Entry) : Declaration :=
  { name, role := .nested, entries }

def extension (code name : String) (entries : List Entry) : Declaration :=
  { name, role := .extension (tag code), entries }

end Catalog
end VideoConfig
