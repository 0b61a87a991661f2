import VirtualFile.Path.Name
import VirtualFile.Path.Join
import VirtualFile.Value.Inspect
/-!
# Naming a file

Only the history of paths is kept; the current path is its last entry, and the directory, the name,
the stem and the extension are read off it. Setting a facet builds a whole new path, which is
appended if it differs from the current one.

* `Naming.directory`, `basename`, `extension`, `stem`: the facets of the current path.
* `Naming.setPath`, `setDirectory`, `setBasename`, `setExtension`, `setStem`: the new naming, with
  one `Renaming` for each path appended.
-/

namespace VirtualFile

/-- A change of the current path. -/
structure Renaming where
  path : Text
  previous : Value
  deriving DecidableEq, Repr

/-! ### URLs and other stand-ins for paths -/

namespace Store

/-- Whether a value is an object with a scheme and a path. -/
def isUrl (s : Store) (v : Value) : Bool := s.hasAttribute v "scheme" && s.hasAttribute v "path"

/-- The attribute of a value if it counts as true. -/
def nonemptyAttribute? (s : Store) (v : Value) (name : String) : Option Value :=
  (s.attribute? v name).filter s.truthy

/-- The host of a URL: its `host` or else its `hostname`. -/
def urlHost (s : Store) (v : Value) : Value :=
  match s.nonemptyAttribute? v "host" with
  | some h => h
  | none => (s.nonemptyAttribute? v "hostname").getD (.text [])

/-- The path that a file URL names. -/
def urlPath (s : Store) (st : Path.Style) (v : Value) : Except Fault Text :=
  if s.attribute? v "scheme" ≠ some (.ofString "file") then .error (.url .scheme)
  else
    let path := (s.nonemptyAttribute? v "path").getD (.text [])
    match st, s.urlHost v, path with
    | st, .text host, .text path => (Url.filePath st host path).mapError .url
    | .posix, .text host, _ =>
      .error (if host ≠ [] ∧ host ≠ Url.localhost then .url .host else .mistyped)
    | .posix, _, _ => .error (.url .host)
    | .windows, _, .text path =>
      .error (if Url.Percent.containsEscape [0x2F, 0x5C] path then .url .escapedSeparator
        else .mistyped)
    | .windows, _, _ => .error .mistyped

/-- Whether a value is an object that stands for a path. -/
def isPathLike (s : Store) (v : Value) : Bool :=
  match s.cell? v with
  | some (.pathLike _ _) => true
  | _ => false

/-- What a path is read from: the path of a URL, the target of an
object that stands for a path, or the value itself. -/
def pathSource (s : Store) (st : Path.Style) (v : Value) : Except Fault Value :=
  if s.isUrl v then (s.urlPath st v).map .text
  else
    match s.cell? v with
    | some (.pathLike target _) =>
      match target with
      | .text _ | .bytes _ => .ok target
      | _ => .error .mistyped
    | _ => .ok v

/-- The fault of a value that is used like a text of a path, by an operation of the given name.
Bytes have the operation, but not for texts. -/
def textFault (s : Store) (operation : String) (v : Value) : Fault :=
  match v, s.cell? v with
  | .bytes _, _ => .mistyped
  | _, some (.buffer _) => .mistyped
  | _, _ => if s.hasAttribute v operation then .mistyped else .noAttribute

/-- Refuses a part of a name that holds the separator. Of values that are no texts, those with
members are searched for it. -/
def checkPart (s : Store) (sep : Char) (facet : Facet) (v : Value) : Except Fault Unit :=
  if !s.truthy v then .ok ()
  else
    match v, s.cell? v with
    | .text t, _ => if t.contains sep then .error (.partIsPath facet sep) else .ok ()
    | .bytes _, _ => .error .mistyped
    | _, some (.buffer _) => .error .mistyped
    | _, some (.options _) => .ok ()
    | _, _ => do
      if ← s.isAmong (.text [sep]) (← s.items v) then throw (.partIsPath facet sep)

/-- A text, where nothing else will do. -/
def textOnly : Value → Except Fault Text
  | .text t => .ok t
  | _ => .error .mistyped

end Store

namespace Naming

/-- A facet of the current path; none without a path. -/
def facet (s : Store) (n : Naming) (read : Text → Text) : Except Fault (Option Text) :=
  match n.path with
  | .null => .ok none
  | .text p => .ok (some (read p))
  | v => .error (s.textFault "rstrip" v)

/-- The path of the directory. -/
def directory (s : Store) (n : Naming) : Except Fault (Option Text) := n.facet s n.style.parent

/-- The last component with its extension. -/
def basename (s : Store) (n : Naming) : Except Fault (Option Text) := n.facet s n.style.name

/-- The extension with its dot. -/
def extension (s : Store) (n : Naming) : Except Fault (Option Text) := n.facet s n.style.extension

/-- The last component without its extension. -/
def stem (s : Store) (n : Naming) : Except Fault (Option Text) :=
  n.facet s fun p => n.style.nameWithout p (n.style.extension p)

/-- Makes a text the current path. -/
def rename (n : Naming) (p : Text) : Naming × List Renaming :=
  if n.path = .text p then (n, [])
  else ({ n with history := n.history ++ [.text p] }, [⟨p, n.path⟩])

/-- Sets the path: a text, a file URL, or an object that stands for a path. -/
def setPath (s : Store) (n : Naming) (v : Value) : Except Fault (Naming × List Renaming) := do
  let source ← s.pathSource n.style v
  if !s.truthy source then throw .emptyPath
  match source with
  | .text p => return n.rename p
  | v => throw (.pathKind (s.kindName v))

/-- Sets the path to segments joined below each other. -/
def setJoined (s : Store) (n : Naming) (segments : List Text) :
    Except Fault (Naming × List Renaming) :=
  n.setPath s (.text (n.style.join segments))

/-- Moves the file: sets the directory and keeps the name. -/
def setDirectory (s : Store) (n : Naming) (v : Value) : Except Fault (Naming × List Renaming) := do
  let name := (← n.basename s).getD []
  if name = [] then throw (.noName .dirname)
  if !s.truthy v then n.setJoined s [name]
  else match v with
    | .text d => n.setJoined s [d, name]
    | v => throw (s.textFault "endswith" v)

/-- Sets the name and keeps the directory. -/
def setBasename (s : Store) (n : Naming) (v : Value) : Except Fault (Naming × List Renaming) := do
  if !s.truthy v then throw (.emptyPart .basename)
  s.checkPart n.style.sep .basename v
  let directory := (← n.directory s).getD []
  n.setJoined s [directory, ← Store.textOnly v]

/-- The text of a new extension: empty, or a dot and no other dot. -/
def checkExtension (s : Store) (v : Value) : Except Fault Text :=
  if !s.truthy v then .ok []
  else match v with
    | .text ('.' :: t) => if t.contains '.' then .error .manyDots else .ok ('.' :: t)
    | .text _ => .error .noDot
    | v => .error (s.textFault "startswith" v)

/-- Sets the extension and keeps the rest; an empty value removes it. -/
def setExtension (s : Store) (n : Naming) (v : Value) : Except Fault (Naming × List Renaming) := do
  s.checkPart n.style.sep .extname v
  let some directory ← n.directory s | throw .noPath
  let ext ← checkExtension s v
  n.setJoined s [directory, ((← n.stem s).getD []) ++ ext]

/-- Sets the stem and keeps the rest. -/
def setStem (s : Store) (n : Naming) (v : Value) : Except Fault (Naming × List Renaming) := do
  if !s.truthy v then throw (.emptyPart .stem)
  s.checkPart n.style.sep .stem v
  if ((← n.basename s).getD []) = [] then throw (.noName .stem)
  let directory := (← n.directory s).getD []
  n.setJoined s [directory, (← Store.textOnly v) ++ ((← n.extension s).getD [])]

/-- Sets one facet. -/
def set (s : Store) (n : Naming) : Facet → Value → Except Fault (Naming × List Renaming)
  | .path => n.setPath s
  | .dirname => n.setDirectory s
  | .basename => n.setBasename s
  | .extname => n.setExtension s
  | .stem => n.setStem s

/-- Reads one facet; null stands for none. -/
def get (s : Store) (n : Naming) : Facet → Except Fault Value
  | .path => .ok n.path
  | .dirname => (n.directory s).map Value.ofText?
  | .basename => (n.basename s).map Value.ofText?
  | .extname => (n.extension s).map Value.ofText?
  | .stem => (n.stem s).map Value.ofText?

/-- All facets. -/
def facets (s : Store) (n : Naming) : Except Fault (List (Facet × Value)) :=
  [Facet.path, .dirname, .basename, .stem, .extname].mapM fun facet =>
    return (facet, ← n.get s facet)

end Naming

end VirtualFile
