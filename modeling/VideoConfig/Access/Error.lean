import VideoConfig.Coercion
import VideoConfig.Path.Reader

/-!
# Errors of property access

Why a property cannot be found, stored or reached. Every error is a cause, and its
wording is made by `message` alone. An obstacle tells why a path leads to no field
or to one that cannot be written: it goes on behind a leaf, it stops at a record, it
addresses a second array as a whole, or it names the header of an extension. Only
the lack of a buffer can be helped, by attaching one of `size` bytes and trying
again.
-/

namespace VideoConfig

inductive Obstacle where
  | malformed (defect : Path.Defect)
  | malformedAlias (name : String) (error : Path.ReadError)
  | unknownField (name record : String)
  | unknownRecord (name : String)
  | noMembers (name : String)
  | recordNotField (name : String)
  | endsAtRecord
  | notArray (name : String)
  | dimensionMismatch (name : String) (dimensions indexes : Nat)
  | outOfBounds (index : Nat) (name : String) (length : Nat)
  | secondProjection
  | projectedText
  | instanceTooLarge
  | selectorShape
  | noFieldNamed
  | headerField (name : String)
  | detached
deriving DecidableEq, Repr

def instanceLimit : Nat := 64

namespace Obstacle

def message : Obstacle -> String
  | malformed defect => defect.message
  | malformedAlias name error => s!"alias `{name}` is malformed: {error.message}"
  | unknownField name record => s!"no field `{name}` in {record}"
  | unknownRecord name => s!"record {name} is not in the catalog"
  | noMembers name => s!"`{name}` is a field with no members"
  | recordNotField name => s!"`{name}` is a record, not a field"
  | endsAtRecord => "path ends at a record, not a field"
  | notArray name => s!"`{name}` is not an array"
  | dimensionMismatch name dimensions indexes =>
      s!"`{name}` has {Text.decimal dimensions} dimension(s), " ++
        s!"got {Text.decimal indexes} index(es)"
  | outOfBounds index name length =>
      s!"index {Text.decimal index} out of bounds for `{name}` " ++
        s!"(length {Text.decimal length})"
  | secondProjection => "only one `[]` is allowed per path"
  | projectedText => "text fields cannot be projected"
  | instanceTooLarge => s!"instance index must be below {Text.decimal instanceLimit}"
  | selectorShape => "extension takes a single instance index"
  | noFieldNamed => "path names no field"
  | headerField name => s!"`{name}` is set when the buffer is attached"
  | detached => "buffer is no longer attached"

end Obstacle

inductive AttachError where
  | unknownTag (tag : Tag)
  | sizeMismatch (tag : Tag) (expected actual : Nat)
deriving DecidableEq, Repr

namespace AttachError

def message : AttachError -> String
  | unknownTag tag => s!"buffer tag {tag.text} is not a known extension"
  | sizeMismatch tag expected actual =>
      s!"extension {tag.text} needs exactly {Text.decimal expected} bytes, " ++
        s!"got {Text.decimal actual}"

end AttachError

inductive AccessError where
  | notFound (path : String) (obstacle : Obstacle) (span : Option Span)
  | unsupported (path value : String) (cause : CoercionError)
  | moreBuffersNeeded (path : String) (tag : Tag) (size : Nat)
  | attach (error : AttachError)
deriving DecidableEq, Repr

namespace AccessError

def message : AccessError -> String
  | notFound path obstacle _ => s!"property `{path}` not found: {obstacle.message}"
  | unsupported path value cause => s!"cannot store `{value}` in `{path}`: {cause.message}"
  | moreBuffersNeeded path tag size =>
      s!"`{path}` needs extension buffer {tag.text} ({Text.decimal size} bytes) attached"
  | attach error => error.message

def isRecoverable : AccessError -> Bool
  | moreBuffersNeeded _ _ _ => true
  | _ => false

def chain : AccessError -> List String
  | unsupported path value cause =>
      [(unsupported path value cause).message, cause.message]
  | error => [error.message]

end AccessError
end VideoConfig
