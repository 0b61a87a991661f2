import VirtualFile.Access
/-!
# Making files

A file is made from nothing, from content, from a path, from options, or as a copy of
another file. Every input is first resolved into options; the options that concern the
path are then applied from the general to the specific.

* `Maker.resolve`: the options for an input.
* `Maker.ofOptions`, `Maker.make`: the file for options and for an input.
* `Action.optionsOfFile`: the options for a copy. Members and records are shared with the copy,
  lists and dictionaries are not.
-/

namespace VirtualFile

/-- Where the working directory comes from. -/
inductive Directory
  | fixed (path : Value)
  /-- A provider that is asked each time. -/
  | provided (path : Value)
  deriving DecidableEq, Repr

/-- Makes files of one style, with a default encoding and a working directory. -/
structure Maker where
  style : Path.Style
  encoding : Value
  directory : Directory
  deriving DecidableEq, Repr

/-- The parts of a new file that are its own. -/
structure FileParts where
  cwd : Value
  value : Value := .null
  data : Value := .null
  messages : Value := .null
  stored : Value := .bool false
  result : Value := .null
  map : Value := .null
  attributes : Value := .null
  encoding : Value := .ofString "utf-8"
  deriving DecidableEq, Repr

namespace Action

/-- The members of a value that counts as true, in a list of their own. -/
def ownItems (v : Value) : Action (List Value) := do
  if (← store).truthy v then ofStore (·.items v) else return []

/-- The entries of a value that counts as true, in a dictionary of their own. -/
def ownEntries (v : Value) : Action Entries := do
  if (← store).truthy v then ofStore (·.entries v) else return []

/-- Entries with the names of fields as keys. -/
def entriesOf (fields : Fields) : Entries := fields.map fun f => (.ofString f.1, f.2)

/-- A new list of the members of a value. -/
def copyItems (v : Value) : Action Value := do alloc (.list (← ofStore (·.items v)))

/-- A new dictionary of the entries of a value. -/
def copyEntries (v : Value) : Action Value := do alloc (.dict (← ofStore (·.entries v)))

/-- A new file. The messages and the attributes are copied; the data are shared if there are any. -/
def newFile (n : Naming) (p : FileParts) : Action Value := do
  let data ← if p.data = .null then alloc (.dict []) else pure p.data
  let messages ← alloc (.list (← ownItems p.messages))
  let attributes ← alloc (.dict (← ownEntries p.attributes))
  alloc (.file {
    naming := some n, cwd := p.cwd, value := if p.value = .null then .text [] else p.value, data,
    messages, stored := p.stored, result := p.result, map := p.map, attributes,
    encoding := p.encoding })

/-- The naming with the paths that a value lists. -/
def newNaming (st : Path.Style) (history : Value) : Action Naming :=
  do return ⟨st, ← ownItems history⟩

/-- Turns faults of a record into the fault of options. -/
def asOptionFault (a : Action α) : Action α :=
  tryCatch a fun
    | .invalid _ faults => throw (.options faults)
    | e => throw e

/-- The options that a dictionary, or a sequence of pairs, lists. -/
def optionsOfEntries (v : Value) : Action Value := do
  let es ← ofStore (·.entries v)
  asOptionFault (checkOptions es)

/-- The options for a copy of a file. -/
def optionsOfFile (v : Value) : Action Value := do
  let value ← readAttribute v "value"
  let cwd ← readAttribute v "cwd"
  let history ← copyItems (← readAttribute v "history")
  let data ← copyEntries (← readAttribute v "data")
  let messages ← copyItems (← readAttribute v "messages")
  let stored ← readAttribute v "stored"
  let result ← readAttribute v "result"
  let map ← readAttribute v "map"
  let attributes ← copyEntries (← readAttribute v "attributes")
  checkOptions (entriesOf
    [("value", value), ("cwd", cwd), ("history", history), ("data", data), ("messages", messages),
     ("stored", stored), ("result", result), ("map", map), ("attributes", attributes)])

end Action

namespace Maker

/-- The facets that options set, from the general to the specific. -/
def facets (o : Options) : List (Facet × Value) :=
  [(.path, o.path), (.basename, o.basename), (.stem, o.stem), (.extname, o.extname),
   (.dirname, o.dirname)].filter (·.2 ≠ .null)

/-- The working directory of files whose options name none. -/
def workingDirectory (m : Maker) : Action Value :=
  match m.directory with
  | .fixed path => return path
  | .provided path => Action.ask path

/-- The file for a record of options. -/
def ofRecord (m : Maker) (o : Options) : Action Value := do
  let naming ← Action.newNaming m.style o.history
  let cwd ← if o.cwd = .null then m.workingDirectory else pure o.cwd
  let attributes ← Action.alloc (.dict (← Action.ofStore fun s => o.extras s))
  let file ← Action.newFile naming {
    cwd, value := o.value, data := o.data, messages := o.messages, stored := o.stored,
    result := o.result, map := o.map, attributes, encoding := m.encoding }
  (facets o).forM fun (facet, v) => Action.setFacet file facet v
  return file

/-- The file for options: a record of them, a dictionary, or a sequence of pairs. -/
def ofOptions (m : Maker) (v : Value) : Action Value := do
  let v ← if ((← Action.store).options? v).isSome then pure v else Action.optionsOfEntries v
  match (← Action.store).options? v with
  | some o => m.ofRecord o
  | none => throw .mistyped

/-- The shape of an input that is no record of options. -/
def shapeOf (s : Store) (v : Value) : Shape :=
  match v, s.cell? v with
  | .null, _ => .empty
  | .text _, _ => .value
  | v, c =>
    if (s.bytes? v).isSome then .value
    else if s.isUrl v || s.isPathLike v then .path
    else match c with
      | some (.file _) => .file
      | some (.dict _) => .options
      | _ => .value

/-- The options for an input of a known shape. -/
def optionsOfShape (v : Value) : Shape → Action Value
  | .empty => Action.checkOptions []
  | .value => Action.checkOptions (Action.entriesOf [("value", v)])
  | .path => Action.checkOptions (Action.entriesOf [("path", v)])
  | .file => Action.optionsOfFile v
  | .options => Action.optionsOfEntries v

/-- The options for any input. A record of options stands for itself. -/
def resolve (v : Value) : Action Value := do
  let s ← Action.store
  if (s.options? v).isSome then return v
  let shape := shapeOf s v
  let o ← optionsOfShape v shape
  Action.note (.resolved shape)
  return o

/-- The file for any input. -/
def make (m : Maker) (v : Value) : Action Value := do m.ofOptions (← resolve v)

/-- The file with a given content. -/
def ofValue (m : Maker) (v : Value) : Action Value := do m.ofOptions (← optionsOfShape v .value)

/-- The empty file with a given path. -/
def ofPath (m : Maker) (v : Value) : Action Value := do m.ofOptions (← optionsOfShape v .path)

/-- The copy of a file. -/
def ofFile (m : Maker) (v : Value) : Action Value := do m.ofOptions (← optionsOfShape v .file)

/-- The maker that settings configure. Its working directory is the root. -/
def ofSettings (c : Settings) : Maker := ⟨c.style, .text c.encoding, .fixed (.text ['/'])⟩

/-- The file for any input, made as the settings say. -/
def makeConfigured (v : Value) : Action Value := do (ofSettings (← Action.settings)).make v

end Maker

/-! ### Files from their parts -/

namespace FileParts

/-- Assigns a part of a new file, if the name is one. -/
def assign? (p : FileParts) (name : String) (v : Value) : Option FileParts :=
  match name with
  | "cwd" => some { p with cwd := v }
  | "value" => some { p with value := v }
  | "data" => some { p with data := v }
  | "messages" => some { p with messages := v }
  | "stored" => some { p with stored := v }
  | "result" => some { p with result := v }
  | "map" => some { p with map := v }
  | "attributes" => some { p with attributes := v }
  | "default_encoding" => some { p with encoding := v }
  | _ => none

/-- Assigns the parts that entries name. There are no other parts. -/
def assignAll : FileParts → Entries → Except Fault FileParts
  | p, [] => .ok p
  | p, (.text name, v) :: es =>
    match p.assign? (String.ofList name) v with
    | some p => p.assignAll es
    | none => .error .mistyped
  | _, _ => .error .mistyped

end FileParts

/-- The file that a dictionary describes part by part, with the history as one more part. -/
def Action.fileOfParts (st : Path.Style) (es : Entries) : Action Value := do
  let naming ← newNaming st ((Store.entryNamed? "history" es).getD .null)
  let parts ← ofStore fun _ =>
    FileParts.assignAll { cwd := .ofString "/new" } (es.filter (·.1 ≠ .ofString "history"))
  newFile naming parts

end VirtualFile
