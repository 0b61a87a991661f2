import VirtualFile.World
/-!
# Options

A record of options is read from a dictionary. Each field has a shape; values of other
shapes are faults, and all faults are reported together, in the order of the fields. Keys
that are no fields are kept.

* `Options.check`: the checked fields of a dictionary, or its faults.
* `Options.extras`: the attributes that a file gets from the record.
* `Action.newOptions`, `Action.readOptions`: the record as a cell.
-/

namespace VirtualFile

/-- The fields of options after checking, before lists and
dictionaries become cells of their own. -/
structure Checked where
  value : Value := .null
  cwd : Value := .null
  history : Option (List Value) := none
  path : Value := .null
  basename : Value := .null
  stem : Value := .null
  extname : Value := .null
  dirname : Value := .null
  data : Option Entries := none
  messages : Option (List Value) := none
  stored : Bool := false
  result : Value := .null
  map : Value := .null
  attributes : Entries := []
  extra : Entries := []
  deriving DecidableEq, Repr

namespace Options

/-- The keys that are fields, in order. -/
def reserved : List String :=
  ["value", "cwd", "history", "path", "basename", "stem", "extname", "dirname", "data", "messages",
   "stored", "result", "map", "attributes"]

/-! ### Shapes -/

/-- Text, or bytes that encode one. -/
def asText (s : Store) (v : Value) : Except Problem Text :=
  let decoded (bs : List UInt8) : Except Problem Text :=
    match Text.Utf8.decode? bs with
    | some t => .ok t
    | none => .error .undecodable
  match v, s.cell? v with
  | .text t, _ => .ok t
  | .bytes bs, _ => decoded bs
  | _, some (.buffer bs) => decoded bs
  | _, _ => .error .text

/-- The members of a list or tuple. -/
def asList (s : Store) (v : Value) : Except Problem (List Value) :=
  match s.cell? v with
  | some (.list vs) => .ok vs
  | some (.tuple vs) => .ok vs
  | some (.url r) => .ok (r.fields.map fun f => .text f.2)
  | _ => .error .list

/-- The words that count as truth values, in any letter case. -/
def boolOfText (t : Text) : Except Problem Bool :=
  if t.lower.isOneOf ["0", "off", "f", "false", "n", "no"] then .ok false
  else if t.lower.isOneOf ["1", "on", "t", "true", "y", "yes"] then .ok true
  else .error .unreadableBool

/-- A truth value, one of the numbers zero and one, or a word for a truth value. -/
def asBool (v : Value) : Except Problem Bool :=
  match v with
  | .bool b => .ok b
  | .int n =>
    if n = 0 then .ok false
    else if n = 1 then .ok true
    else .error (if Value.isSmallInt n then .unreadableBool else .bool)
  | .float x => if x.isInt 0 then .ok false else if x.isInt 1 then .ok true else .error .bool
  | .text t => boolOfText t
  | .bytes bs =>
    match Text.Utf8.decode? bs with
    | some t => boolOfText t
    | none => .error .unreadableBool
  | _ => .error .bool

/-- A key on the way to a fault. -/
def keyStep (v : Value) : Step :=
  match v, v.int? with
  | .text t, _ => .name t
  | _, some n => if Value.isSmallInt n then .index n else .key v
  | _, none => .key v

/-! ### Fields -/

/-- The result of reading a field, with the faults found. -/
abbrev Reading (α : Type) := α × List OptionFault

def fieldStep (name : String) : Step := .name name.toList

/-- A field that may be null or missing. -/
def optionalText (s : Store) (name : String) (es : Entries) : Reading Value :=
  match (Store.entryNamed? name es).getD .null with
  | .null => (.null, [])
  | v =>
    match asText s v with
    | .ok t => (.text t, [])
    | .error p => (.null, [⟨[fieldStep name], p⟩])

/-- The texts of a list, each fault under its index. -/
def textsFrom (s : Store) (name : String) : Nat → List Value → Reading (List Value)
  | _, [] => ([], [])
  | i, v :: vs =>
    let (ts, faults) := textsFrom s name (i + 1) vs
    match asText s v with
    | .ok t => (.text t :: ts, faults)
    | .error p => (ts, ⟨[fieldStep name, .index i], p⟩ :: faults)

def historyField (s : Store) (es : Entries) : Reading (Option (List Value)) :=
  match (Store.entryNamed? "history" es).getD .null with
  | .null => (none, [])
  | v =>
    match asList s v with
    | .ok vs =>
      let (ts, faults) := textsFrom s "history" 0 vs
      (some ts, faults)
    | .error p => (none, [⟨[fieldStep "history"], p⟩])

def messagesField (s : Store) (es : Entries) : Reading (Option (List Value)) :=
  match (Store.entryNamed? "messages" es).getD .null with
  | .null => (none, [])
  | v =>
    match asList s v with
    | .ok vs => (some vs, [])
    | .error p => (none, [⟨[fieldStep "messages"], p⟩])

/-- Puts an item under a text; an equal key keeps its place. -/
def putText (key : Text) (v : Value) : Entries → Entries
  | [] => [(.text key, v)]
  | (k, w) :: es => if k = .text key then (k, v) :: es else (k, w) :: putText key v es

/-- Entries with text keys, each fault under its key. -/
def textKeys (s : Store) (name : String) : Entries → Entries → Reading Entries
  | done, [] => (done, [])
  | done, (k, v) :: es =>
    match asText s k with
    | .ok t => textKeys s name (putText t v done) es
    | .error p =>
      let (all, faults) := textKeys s name done es
      (all, ⟨[fieldStep name, keyStep k, fieldStep "[key]"], p⟩ :: faults)

/-- A dictionary with text keys. -/
def dictOf (s : Store) (name : String) (v : Value) : Reading (Option Entries) :=
  match s.dict? v with
  | some es =>
    let (all, faults) := textKeys s name [] es
    (some all, faults)
  | none => (none, [⟨[fieldStep name], .dict⟩])

def dataField (s : Store) (es : Entries) : Reading (Option Entries) :=
  match (Store.entryNamed? "data" es).getD .null with
  | .null => (none, [])
  | v => dictOf s "data" v

def attributesField (s : Store) (es : Entries) : Reading Entries :=
  match Store.entryNamed? "attributes" es with
  | none => ([], [])
  | some v =>
    let (all, faults) := dictOf s "attributes" v
    (all.getD [], faults)

def storedField (es : Entries) : Reading Bool :=
  match Store.entryNamed? "stored" es with
  | none => (false, [])
  | some v =>
    match asBool v with
    | .ok b => (b, [])
    | .error p => (false, [⟨[fieldStep "stored"], p⟩])

/-- The entries that are no fields; their keys have to be texts. -/
def extraEntries : Entries → Reading Entries
  | [] => ([], [])
  | (k, v) :: es =>
    let (rest, faults) := extraEntries es
    match k with
    | .text t => if t.isOneOf reserved then (rest, faults) else ((k, v) :: rest, faults)
    | k => (rest, ⟨[keyStep k], .key⟩ :: faults)

/-- Checks a dictionary of options. -/
def check (s : Store) (es : Entries) : Except (List OptionFault) Checked :=
  let anything (name : String) : Value := (Store.entryNamed? name es).getD .null
  let (cwd, f₁) := optionalText s "cwd" es
  let (history, f₂) := historyField s es
  let (basename, f₃) := optionalText s "basename" es
  let (stem, f₄) := optionalText s "stem" es
  let (extname, f₅) := optionalText s "extname" es
  let (dirname, f₆) := optionalText s "dirname" es
  let (data, f₇) := dataField s es
  let (messages, f₈) := messagesField s es
  let (stored, f₉) := storedField es
  let (attributes, f₁₀) := attributesField s es
  let (extra, f₁₁) := extraEntries es
  match f₁ ++ f₂ ++ f₃ ++ f₄ ++ f₅ ++ f₆ ++ f₇ ++ f₈ ++ f₉ ++ f₁₀ ++ f₁₁ with
  | [] =>
    .ok {
      value := anything "value", cwd, history, path := anything "path", basename, stem, extname,
      dirname, data, messages, stored, result := anything "result", map := anything "map",
      attributes, extra }
  | faults => .error faults

/-- The attributes for a file: the explicit ones, then the keys that are no fields. -/
def extras (s : Store) (o : Options) : Except Fault Entries := do
  let some explicit := s.dict? o.attributes | throw .mistyped
  s.insertAll explicit ((s.dict? o.extra).getD [])

end Options

namespace Action

/-- A list as a cell of its own, or null. -/
def allocList? (vs : Option (List Value)) : Action Value :=
  match vs with
  | some vs => alloc (.list vs)
  | none => return .null

/-- A dictionary as a cell of its own, or null. -/
def allocDict? (es : Option Entries) : Action Value :=
  match es with
  | some es => alloc (.dict es)
  | none => return .null

/-- The record of checked options. Lists and dictionaries of its
fields are its own, their members are shared. -/
def newOptions (c : Checked) : Action Value := do
  let history ← allocList? c.history
  let data ← allocDict? c.data
  let messages ← allocList? c.messages
  let attributes ← alloc (.dict c.attributes)
  let extra ← alloc (.dict c.extra)
  alloc (.options {
    value := c.value, cwd := c.cwd, history, path := c.path, basename := c.basename, stem := c.stem,
    extname := c.extname, dirname := c.dirname, data, messages, stored := .bool c.stored,
    result := c.result, map := c.map, attributes, extra })

/-- The record of the options that a dictionary lists. -/
def checkOptions (es : Entries) : Action Value := do
  match Options.check (← store) es with
  | .ok c => newOptions c
  | .error faults => throw (.invalid .options faults)

/-- The record of a value that is one or a dictionary of options. -/
def readOptions (v : Value) : Action Value := do
  let s ← store
  match s.options? v, s.dict? v with
  | some _, _ => return v
  | none, some es => checkOptions es
  | none, none => throw (.invalid .options [⟨[], .record⟩])

end Action

end VirtualFile
