import VirtualFile.Settings.EnvFile
import VirtualFile.Value.Inspect
/-!
# Settings

The encoding that content has by default and the style of paths. Each is looked up among given
values, then in the environment, then in an environment file; else it has a default. Names are
compared without regard to letter case.

* `Settings.load`: the settings, or all faults of the values that were found.
* `Settings.style`: the style of paths to use.
-/

namespace VirtualFile

/-- Which style paths have; the host's own is posix. -/
inductive StyleChoice
  | host
  | posix
  | windows
  deriving DecidableEq, Repr, Inhabited

namespace StyleChoice

def label : StyleChoice → String
  | .host => "host"
  | .posix => "posix"
  | .windows => "windows"

def ofText? (t : Text) : Option StyleChoice :=
  [StyleChoice.host, .posix, .windows].find? fun c => c.label.toList == t

end StyleChoice

structure Settings where
  encoding : Text := "utf-8".toList
  pathStyle : StyleChoice := .host
  deriving DecidableEq, Repr, Inhabited

namespace Settings

def style (c : Settings) : Path.Style :=
  match c.pathStyle with
  | .windows => .windows
  | _ => .posix

def encodingName : String := "VFILE_DEFAULT_ENCODING"

def styleName : String := "VFILE_PATH_STYLE"

/-- Where settings are looked up. -/
structure Sources where
  given : Entries := []
  environment : List (Text × Text) := []
  envFile : Option Text := none

/-- Whether a key is a name in any letter case. -/
def isNamed (name : String) (key : Text) : Bool := key.lower == Text.lower name.toList

/-- The given value of a setting: the first whose key is the name in any letter case. -/
def given? (name : String) (es : Entries) : Option Value :=
  (es.find? fun e => (e.1.text?.map (isNamed name)).getD false).map (·.2)

/-- The last item whose key is the name in any letter case. -/
def lookup (name : String) (items : List (Text × α)) : Option α :=
  (items.reverse.find? fun e => isNamed name e.1).map (·.2)

/-- The value that is found for a name, by priority. -/
def find? (src : Sources) (name : String) : Option Value :=
  match given? name src.given with
  | some v => some v
  | none =>
    match lookup name src.environment with
    | some t => some (.text t)
    | none =>
      (lookup name (EnvFile.values src.environment (src.envFile.getD []))).bind (·.map .text)

/-- The encoding that a value names. -/
def readEncoding (s : Store) (v : Value) : Except Problem Text :=
  match v with
  | .text t => .ok t
  | v =>
    match v, s.cell? v with
    | .bytes bs, _ | _, some (.buffer bs) =>
      match Text.Utf8.decode? bs with
      | some t => .ok t
      | none => .error .undecodable
    | _, _ => .error .text

/-- The style that a value names. -/
def readStyle (v : Value) : Except Problem StyleChoice :=
  match v.text?.bind StyleChoice.ofText? with
  | some c => .ok c
  | none => .error .pathStyle

/-- A value that is read if there is one, with its fault under the name of the setting. -/
def field (name : String) (default : α) (read : Value → Except Problem α) (v : Option Value) :
    Except OptionFault α :=
  match v with
  | none => .ok default
  | some v => (read v).mapError fun p => ⟨[.name name.toList], p⟩

/-- Loads the settings. -/
def load (s : Store) (src : Sources) : Except (List OptionFault) Settings :=
  let encoding := field encodingName "utf-8".toList (readEncoding s) (find? src encodingName)
  let pathStyle := field styleName .host readStyle (find? src styleName)
  match encoding, pathStyle with
  | .ok e, .ok p => .ok ⟨e, p⟩
  | .error e, .error f => .error [e, f]
  | .error e, _ => .error [e]
  | _, .error f => .error [f]

end Settings

end VirtualFile
