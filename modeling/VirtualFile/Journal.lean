import VirtualFile.Naming
import VirtualFile.Value.Written
/-!
# The journal

What the library reports about its work: each change of a path, each message recorded, each shape of
input recognised, and each label of an encoding that it did not know.
-/

namespace VirtualFile

/-- The shapes of input from which a file is made. -/
inductive Shape
  | empty
  | value
  | path
  | file
  | options
  deriving DecidableEq, Repr

def Shape.label : Shape → String
  | .empty => "empty"
  | .value => "value"
  | .path => "path"
  | .file => "file"
  | .options => "options"

/-- How much an entry matters. -/
inductive Level
  | debug
  | warning
  deriving DecidableEq, Repr

def Level.label : Level → String
  | .debug => "DEBUG"
  | .warning => "WARNING"

/-- An entry of the journal. -/
inductive Entry
  | renamed (r : Renaming)
  | recorded (name reason : Text)
  | resolved (shape : Shape)
  | unknownEncoding (label path fallback : Text)
  deriving DecidableEq, Repr

namespace Entry

/-- The part of the library that writes an entry. -/
def source : Entry → String
  | .renamed _ => "vfile.domain.value_objects.path_identity"
  | .recorded _ _ | .unknownEncoding _ _ _ => "vfile.domain.entities.vfile"
  | .resolved _ => "vfile.application.use_cases.create_file"

def level : Entry → Level
  | .unknownEncoding _ _ _ => .warning
  | _ => .debug

/-- The text of an entry. -/
def text (s : Store) : Entry → Text
  | .renamed r =>
    "Appending ".toList ++ Text.quote r.path ++ " to path history (was ".toList
      ++ ((s.written r.previous).toOption.getD []) ++ [')']
  | .recorded name reason => "Recorded message ".toList ++ name ++ ':' :: ' ' :: reason
  | .resolved shape => "Resolved ".toList ++ shape.label.toList ++ " input into file options".toList
  | .unknownEncoding label path fallback =>
    "Unknown encoding ".toList ++ Text.quote label ++ " for ".toList ++ path
      ++ ", decoding as ".toList ++ fallback

end Entry

end VirtualFile
