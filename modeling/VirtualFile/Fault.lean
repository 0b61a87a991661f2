import VirtualFile.Url.FileUrl
import VirtualFile.Value.Basic
/-!
# Faults

Every reason why an operation is refused, with what its message needs. Callers that handle faults of
the library see one closed family (`ErrorKind.isFileError`); the other kinds tell of values that do
not support what is asked of them.

* `Facet`: the named parts of a path.
* `OptionFault`: a field of a wrong shape, and where it stands.
* `Fault`, `Fault.kind`, `Fault.message?`.
-/

namespace VirtualFile

/-- The parts of a path that can be set one by one. -/
inductive Facet
  | path
  | basename
  | stem
  | extname
  | dirname
  deriving DecidableEq, Repr

def Facet.label : Facet → String
  | .path => "path"
  | .basename => "basename"
  | .stem => "stem"
  | .extname => "extname"
  | .dirname => "dirname"

/-- The kinds of error that callers can tell apart. -/
inductive ErrorKind
  | general
  | badValue
  | mistyped
  | noKey
  | noIndex
  | noAttribute
  | lookup
  | undecodable
  | runtime
  | system
  | frozen
  | tooDeep
  | validation
  | file
  | invalidPath
  | missingPath
  | missingBasename
  | invalidBasename
  | invalidStem
  | invalidExtension
  | invalidOptions
  | fatal
  deriving DecidableEq, Repr

namespace ErrorKind

/-- The name under which an error of this kind is reported. -/
def label : ErrorKind → String
  | .general => "Exception"
  | .badValue => "ValueError"
  | .mistyped => "TypeError"
  | .noKey => "KeyError"
  | .noIndex => "IndexError"
  | .noAttribute => "AttributeError"
  | .lookup => "LookupError"
  | .undecodable => "UnicodeError"
  | .runtime => "RuntimeError"
  | .system => "OSError"
  | .frozen => "FrozenInstanceError"
  | .tooDeep => "RecursionError"
  | .validation => "ValidationError"
  | .file => "VFileError"
  | .invalidPath => "InvalidPathError"
  | .missingPath => "MissingPathError"
  | .missingBasename => "MissingBasenameError"
  | .invalidBasename => "InvalidBasenameError"
  | .invalidStem => "InvalidStemError"
  | .invalidExtension => "InvalidExtensionError"
  | .invalidOptions => "InvalidOptionsError"
  | .fatal => "FatalMessageError"

def all : List ErrorKind :=
  [.general, .badValue, .mistyped, .noKey, .noIndex, .noAttribute, .lookup, .undecodable, .runtime,
   .system, .frozen, .tooDeep, .validation, .file, .invalidPath, .missingPath, .missingBasename,
   .invalidBasename, .invalidStem, .invalidExtension, .invalidOptions, .fatal]

/-- The kind with a given name. -/
def ofLabel? (s : String) : Option ErrorKind := all.find? (·.label == s)

/-- Whether an error of this kind belongs to the library's own family. -/
def isFileError : ErrorKind → Bool
  | .file | .invalidPath | .missingPath | .missingBasename | .invalidBasename | .invalidStem
  | .invalidExtension | .invalidOptions | .fatal => true
  | _ => false

end ErrorKind

/-! ### Faults of records -/

/-- A step on the way to a field: the name of a field or key, a number, or another key. -/
inductive Step
  | name (t : Text)
  | index (n : Int)
  /-- A key that is neither a text nor a small number. -/
  | key (v : Value)
  deriving DecidableEq, Repr

/-- What is wrong with a field. -/
inductive Problem
  | text
  | undecodable
  | list
  | dict
  | bool
  | unreadableBool
  | key
  | record
  | pathStyle
  deriving DecidableEq, Repr

namespace Problem

def tag : Problem → String
  | .text => "string_type"
  | .undecodable => "string_unicode"
  | .list => "list_type"
  | .dict => "dict_type"
  | .bool => "bool_type"
  | .unreadableBool => "bool_parsing"
  | .key => "invalid_key"
  | .record => "model_type"
  | .pathStyle => "literal_error"

def message : Problem → String
  | .text => "Input should be a valid string"
  | .undecodable => "Input should be a valid string, unable to parse raw data as a unicode string"
  | .list => "Input should be a valid list"
  | .dict => "Input should be a valid dictionary"
  | .bool => "Input should be a valid boolean"
  | .unreadableBool => "Input should be a valid boolean, unable to interpret input"
  | .key => "Keys should be strings"
  | .record => "Input should be a valid dictionary or instance of VFileOptions"
  | .pathStyle => "Input should be 'host', 'posix' or 'windows'"

end Problem

/-- A wrong field and the way to it. -/
structure OptionFault where
  loc : List Step
  problem : Problem
  deriving DecidableEq, Repr

/-- The records whose fields are checked. -/
inductive RecordKind
  | options
  | settings
  deriving DecidableEq, Repr

def RecordKind.label : RecordKind → String
  | .options => "VFileOptions"
  | .settings => "Settings"

/-- How many fields of which record are wrong. -/
def summary (kind : RecordKind) (count : Nat) : Text :=
  Text.ofNat count ++
    (if count = 1 then " validation error for " else " validation errors for ").toList ++
    kind.label.toList

/-! ### Faults -/

/-- Why an operation is refused. -/
inductive Fault
  | emptyPath
  /-- A path that is neither a text nor a URL, with the name of what it is. -/
  | pathKind (kind : String)
  | url (fault : Url.FileUrlFault)
  | emptyPart (facet : Facet)
  /-- A part of a name that holds the separator. -/
  | partIsPath (facet : Facet) (sep : Char)
  | noDot
  | manyDots
  /-- A facet that is set beside a name when there is none. -/
  | noName (facet : Facet)
  /-- An extension that is set when there is no path. -/
  | noPath
  /-- Options of a wrong shape. -/
  | options (faults : List OptionFault)
  /-- A record of a wrong shape. -/
  | invalid (kind : RecordKind) (faults : List OptionFault)
  /-- A fatal message: its record, its text when it was raised, and the error that caused it. -/
  | fatal (record : Value) (text : Text) (cause : Value)
  | mistyped
  | noAttribute
  | badValue
  | noKey
  | noIndex
  | frozen
  | unknownEncoding
  /-- Bytes that a codec does not decode. -/
  | undecodable
  | tooDeep
  deriving DecidableEq, Repr

namespace Fault

/-- The kind of error as which a fault is reported. -/
def kind : Fault → ErrorKind
  | .emptyPath | .pathKind _ | .url _ => .invalidPath
  | .emptyPart .stem | .partIsPath .stem _ => .invalidStem
  | .partIsPath .extname _ | .noDot | .manyDots => .invalidExtension
  | .emptyPart _ | .partIsPath _ _ => .invalidBasename
  | .noName _ => .missingBasename
  | .noPath => .missingPath
  | .options _ => .invalidOptions
  | .invalid _ _ => .validation
  | .fatal _ _ _ => .fatal
  | .mistyped => .mistyped
  | .noAttribute => .noAttribute
  | .badValue => .badValue
  | .noKey => .noKey
  | .noIndex => .noIndex
  | .frozen => .frozen
  | .unknownEncoding => .lookup
  | .undecodable => .undecodable
  | .tooDeep => .tooDeep

/-- A label between grave accents. -/
def ticked (s : String) : Text := '`' :: s.toList ++ ['`']

/-- The message of a fault that has one of its own; of faults of records, its first line. -/
def message? : Fault → Option Text
  | .emptyPath => some "`path` cannot be empty".toList
  | .pathKind kind => some ("`path` must be a string or file URL, got ".toList ++ kind.toList)
  | .url f => some f.message.toList
  | .emptyPart facet => some (ticked facet.label ++ " cannot be empty".toList)
  | .partIsPath facet sep =>
    some (ticked facet.label ++ " cannot be a path: did not expect `".toList ++ [sep, '`'])
  | .noDot => some "`extname` must start with `.`".toList
  | .manyDots => some "`extname` cannot contain multiple dots".toList
  | .noName facet =>
    some ("Setting ".toList ++ ticked facet.label ++ " requires `path` to be set too".toList)
  | .noPath => some "Setting `extname` requires `path` to be set too".toList
  | .options faults => some ("Invalid file options: ".toList ++ summary .options faults.length)
  | .invalid kind faults => some (summary kind faults.length)
  | .fatal _ text _ => some text
  | _ => none

end Fault

end VirtualFile
