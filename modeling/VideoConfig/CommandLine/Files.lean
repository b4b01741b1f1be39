import VideoConfig.Text.Pieces

/-!
# Files

Why a file cannot be read, and a directory in memory in which files are looked up by
their paths. Nothing is known of what lies around the directory but that it is
there. A path that starts with a slash starts outside, and of two slashes in a row
an empty name stands between them. Names have at most `nameLimit` bytes, and whole
paths fewer than `pathLimit`.
-/

namespace VideoConfig
namespace CommandLine

inductive FileError where
  | missing
  | notDirectory
  | isDirectory
  | nameTooLong
  | zeroInName
  | notText
  | other (reason : String)
deriving DecidableEq, Repr

namespace FileError

def message : FileError -> String
  | missing => "No such file or directory (os error 2)"
  | notDirectory => "Not a directory (os error 20)"
  | isDirectory => "Is a directory (os error 21)"
  | nameTooLong => "File name too long (os error 36)"
  | zeroInName => "file name contained an unexpected NUL byte"
  | notText => "stream did not contain valid UTF-8"
  | other reason => reason

end FileError

def pathNames (path : String) : List String :=
  (Text.pieces '/' path.toList).map String.ofList

def nameLimit : Nat := 255

def pathLimit : Nat := 4096

/-- A directory: the files below it, with the names that lead to each, and their
contents. -/
structure Directory where
  files : List (List String × String)
deriving DecidableEq, Repr

inductive Node where
  | file (contents : String)
  | directory (names : List String)
  | outside
deriving DecidableEq, Repr

namespace Directory

def ofFiles (files : List (String × String)) : Directory :=
  { files := files.map fun (path, contents) =>
      ((pathNames path).filter fun name => name ≠ "" ∧ name ≠ ".", contents) }

def lookup? (directory : Directory) (names : List String) : Option Node :=
  match directory.files.find? fun file => decide (file.1 = names) with
  | some file => some (.file file.2)
  | none =>
      if directory.files.any fun file => names.isPrefixOf file.1 then
        some (.directory names)
      else
        none

def enter (directory : Directory) (place : Node) (name : String) : Except FileError Node :=
  match place with
  | .file _ => .error .notDirectory
  | .directory names =>
      if name = "" ∨ name = "." then .ok place
      else if name = ".." then
        if names.isEmpty then .ok .outside else .ok (.directory names.dropLast)
      else if nameLimit < name.utf8ByteSize then .error .nameTooLong
      else
        match directory.lookup? (names ++ [name]) with
        | some inner => .ok inner
        | none => .error .missing
  | .outside =>
      if name = "" ∨ name = "." ∨ name = ".." then .ok place
      else if nameLimit < name.utf8ByteSize then .error .nameTooLong
      else .error .missing

def read (directory : Directory) (path : String) : Except FileError String := do
  if path.contains '\x00' then
    throw .zeroInName
  else if path = "" then
    throw .missing
  else if pathLimit ≤ path.utf8ByteSize then
    throw .nameTooLong
  else
    let start := if path.startsWith "/" then Node.outside else .directory []
    match ← (pathNames path).foldlM directory.enter start with
    | .file contents => return contents
    | _ => throw .isDirectory

end Directory
end CommandLine
end VideoConfig
