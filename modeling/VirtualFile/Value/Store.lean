import VirtualFile.Fault
import VirtualFile.Url.Reference
/-!
# Cells and stores

A store holds everything that can be shared between values. Two values that refer to one
cell see each other's changes; a copy is a new cell. Cells are never removed, so a
reference that a store gave out stays valid.

* `Message`, `Naming`, `File`, `Options`: the records of the library. Their fields hold any value,
  since callers may assign to them freely; what the library puts there is of the documented shape.
* `Cell`, `Store`: cells, and reading, adding and changing them.
* `Decoder`: a way of reading bytes as text.
-/

namespace VirtualFile

/-- Fields by name, in the order of their first assignment. -/
abbrev Fields := List (String × Value)

namespace Fields

/-- Assigns a field; a new one comes last. -/
def assign (fs : Fields) (name : String) (v : Value) : Fields :=
  match fs with
  | [] => [(name, v)]
  | (n, w) :: rest => if n = name then (n, v) :: rest else (n, w) :: Fields.assign rest name v

end Fields

/-- Items by key, in the order of their first insertion. -/
abbrev Entries := List (Value × Value)

/-- A diagnostic about a file. `fatal` is true for an error that ends the work on the file, false
for a warning and null for a notice. -/
structure Message where
  reason : Value
  name : Value := .text ['1', ':', '1']
  file : Value := .text []
  fatal : Value := .bool false
  line : Value := .null
  column : Value := .null
  position : Value := .null
  origin : Value := .null
  cause : Value := .null
  extra : Fields := []
  deriving DecidableEq, Repr, Inhabited

/-- The paths that a file has had, the current one last, and the style in which they are read. -/
structure Naming where
  style : Path.Style
  history : List Value := []
  deriving DecidableEq, Repr, Inhabited

/-- The current path, null if there has been none. -/
def Naming.path (n : Naming) : Value := n.history.getLast?.getD .null

/-- A virtual file: its naming, its content, the state that a pipeline attaches and its messages.
The naming is absent once a caller has put something else in its place. -/
structure File where
  naming : Option Naming
  cwd : Value
  value : Value
  data : Value
  messages : Value
  stored : Value
  result : Value
  map : Value
  attributes : Value
  encoding : Value
  extra : Fields := []
  deriving DecidableEq, Repr, Inhabited

/-- A record from which a file is made. `extra` is the dictionary of the keys that are no fields. -/
structure Options where
  value : Value := .null
  cwd : Value := .null
  history : Value := .null
  path : Value := .null
  basename : Value := .null
  stem : Value := .null
  extname : Value := .null
  dirname : Value := .null
  data : Value := .null
  messages : Value := .null
  stored : Value := .bool false
  result : Value := .null
  map : Value := .null
  attributes : Value
  extra : Value
  deriving DecidableEq, Repr, Inhabited

/-- What an error of the operating system tells. A part that was never set reads as null. -/
structure SystemError where
  /-- The error number. -/
  code : Option Value := none
  text : Option Value := none
  /-- The file that the error is about. -/
  file : Option Value := none
  /-- The second file, where two are concerned. -/
  other : Option Value := none
  /-- How many characters were written before the error. -/
  progress : Option Int := none
  deriving DecidableEq, Repr, Inhabited

/-- An error as a value: made by a caller from arguments, or caught when a fault occurred. `args` is
the tuple of its arguments. A fatal error carries the record of its message. -/
structure Failure where
  kind : ErrorKind
  /-- The name under which the error is reported. -/
  label : String
  args : Value
  record : Value := .null
  system : SystemError := {}
  fault : Option Fault := none
  extra : Fields := []
  deriving DecidableEq, Repr

/-- What a reference can lead to. -/
inductive Cell
  | list (items : List Value)
  | tuple (items : List Value)
  | dict (entries : Entries)
  /-- Bytes that can be changed in place. -/
  | buffer (bs : List UInt8)
  /-- Bytes seen through a read-only window. -/
  | window (bs : List UInt8)
  /-- An object that stands for a path. -/
  | pathLike (target : Value) (extra : Fields)
  /-- A foreign object with attributes and a text. -/
  | object (attrs : Fields) (shown : Text)
  | url (r : Url.Reference)
  | failure (f : Failure)
  | message (m : Message)
  | file (f : File)
  | options (o : Options)
  deriving DecidableEq, Repr

def Cell.isFailure : Cell → Bool
  | .failure _ => true
  | _ => false

/-- A way of reading bytes as text, which may be refused. -/
abbrev Decoder := List UInt8 → Except Fault Text

/-- Cells by reference, and the codecs that are known in a run. -/
structure Store where
  cells : Array Cell := #[]
  /-- The decoders that normalised labels name, beside those that are built in. -/
  codecs : Text → Option Decoder := fun _ => none
  deriving Inhabited

namespace Store

/-- The cell that a value refers to. -/
def cell? (s : Store) : Value → Option Cell
  | .ref r => s.cells[r]?
  | _ => none

/-- Adds a cell. -/
def alloc (s : Store) (c : Cell) : Store × Value :=
  ({ s with cells := s.cells.push c }, .ref s.cells.size)

/-- Changes a cell. -/
def write (s : Store) (r : Ref) (c : Cell) : Store :=
  { s with cells := s.cells.setIfInBounds r c }

theorem cell?_alloc (s : Store) (c : Cell) : (s.alloc c).1.cell? (s.alloc c).2 = some c := by
  simp [alloc, cell?]

theorem cell?_alloc_of_lt (s : Store) (c : Cell) {r : Ref} (h : r < s.cells.size) :
    (s.alloc c).1.cell? (.ref r) = s.cell? (.ref r) := by
  simp [alloc, cell?, Array.getElem?_push, Nat.ne_of_lt h]

theorem cell?_write_of_ne (s : Store) (c : Cell) {r q : Ref} (h : r ≠ q) :
    (s.write r c).cell? (.ref q) = s.cell? (.ref q) := by
  simp [write, cell?, h]

/-- The file that a value refers to. -/
def file? (s : Store) (v : Value) : Option File :=
  match s.cell? v with
  | some (.file f) => some f
  | _ => none

/-- The entries of the dictionary that a value refers to. -/
def dict? (s : Store) (v : Value) : Option Entries :=
  match s.cell? v with
  | some (.dict es) => some es
  | _ => none

/-- The options that a value refers to. -/
def options? (s : Store) (v : Value) : Option Options :=
  match s.cell? v with
  | some (.options o) => some o
  | _ => none

/-- The message that a value refers to. -/
def message? (s : Store) (v : Value) : Option Message :=
  match s.cell? v with
  | some (.message m) => some m
  | _ => none

/-- The failure that a value refers to. -/
def failure? (s : Store) (v : Value) : Option Failure :=
  match s.cell? v with
  | some (.failure f) => some f
  | _ => none

/-- The bytes of a value that holds bytes in one of three ways. -/
def bytes? (s : Store) : Value → Option (List UInt8)
  | .bytes bs => some bs
  | v =>
    match s.cell? v with
    | some (.buffer bs) => some bs
    | some (.window bs) => some bs
    | _ => none

end Store

/-! ### Sizes, which bound every walk through a store -/

def weights : List Value → Nat
  | [] => 0
  | v :: vs => v.weight + weights vs

def Fields.weight (fs : Fields) : Nat := weights (fs.map (·.2))

def Cell.weight : Cell → Nat
  | .list vs | .tuple vs => weights vs + 1
  | .dict es => weights (es.map (·.1)) + weights (es.map (·.2)) + 1
  | .buffer _ | .window _ | .url _ => 1
  | .pathLike v fs => v.weight + fs.weight + 1
  | .object fs _ => fs.weight + 1
  | .failure f =>
    weights (f.args :: f.record :: [f.system.code, f.system.text, f.system.file,
      f.system.other].filterMap id)
      + f.extra.weight + 1
  | .message m =>
    weights [m.reason, m.name, m.file, m.fatal, m.line, m.column, m.position, m.origin, m.cause]
      + m.extra.weight + 1
  | .file f =>
    weights [f.cwd, f.value, f.data, f.messages, f.stored, f.result, f.map, f.attributes,
      f.encoding]
      + weights ((f.naming.map (·.history)).getD []) + f.extra.weight + 1
  | .options o =>
    weights [o.value, o.cwd, o.history, o.path, o.basename, o.stem, o.extname, o.dirname, o.data,
      o.messages, o.stored, o.result, o.map, o.attributes, o.extra] + 1

/-- The number of nodes of all cells: more than any path without
repetition through the store has. -/
def Store.weight (s : Store) : Nat := s.cells.foldl (fun n c => n + c.weight) 0

end VirtualFile
