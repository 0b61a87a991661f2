import VirtualFile.Failure
import VirtualFile.Options
import VirtualFile.Message
/-!
# Reading and assigning parts

Callers reach into values by attribute and by item, and change what can be changed: fields of
records, members of lists, items of dictionaries, bytes.

* `Action.readAttribute`, `Action.readItem`, `Action.follow`: read.
* `Action.assign`, `Action.assignItem`: change.
-/

namespace VirtualFile

/-- A step from a value to one of its parts. -/
inductive Part
  /-- The attribute of a name. -/
  | field (name : String)
  /-- The member at an index, or the item of a key. -/
  | item (key : Value)
  deriving DecidableEq, Repr

/-- The facet that an attribute of a file names. -/
def Facet.ofLabel? (name : String) : Option Facet :=
  [Facet.path, .basename, .stem, .extname, .dirname].find? (·.label == name)

/-- Assigns a field of a message. -/
def Message.assign (m : Message) (name : String) (v : Value) : Message :=
  match name with
  | "reason" => { m with reason := v }
  | "name" => { m with name := v }
  | "file" => { m with file := v }
  | "fatal" => { m with fatal := v }
  | "line" => { m with line := v }
  | "column" => { m with column := v }
  | "position" => { m with position := v }
  | "origin" => { m with origin := v }
  | "cause" => { m with cause := v }
  | name => { m with extra := m.extra.assign name v }

/-- Assigns a plain field of a file; nothing is checked. -/
def File.assign (f : File) (name : String) (v : Value) : File :=
  match name with
  | "identity" => { f with naming := none, extra := f.extra.assign "identity" v }
  | "cwd" => { f with cwd := v }
  | "value" => { f with value := v }
  | "data" => { f with data := v }
  | "messages" => { f with messages := v }
  | "stored" => { f with stored := v }
  | "result" => { f with result := v }
  | "map" => { f with map := v }
  | "attributes" => { f with attributes := v }
  | "default_encoding" => { f with encoding := v }
  | name => { f with extra := f.extra.assign name v }

/-- Assigns a field of options, if the name is one. -/
def Options.assign? (o : Options) (name : String) (v : Value) : Option Options :=
  match name with
  | "value" => some { o with value := v }
  | "cwd" => some { o with cwd := v }
  | "history" => some { o with history := v }
  | "path" => some { o with path := v }
  | "basename" => some { o with basename := v }
  | "stem" => some { o with stem := v }
  | "extname" => some { o with extname := v }
  | "dirname" => some { o with dirname := v }
  | "data" => some { o with data := v }
  | "messages" => some { o with messages := v }
  | "stored" => some { o with stored := v }
  | "result" => some { o with result := v }
  | "map" => some { o with map := v }
  | "attributes" => some { o with attributes := v }
  | _ => none

namespace Action

/-! ### Attributes -/

/-- The naming of a file. -/
def naming (f : File) : Action Naming :=
  match f.naming with
  | some n => return n
  | none => throw .noAttribute

/-- Sets a facet of a file. -/
def setFacet (v : Value) (facet : Facet) (new : Value) : Action Unit := do
  let (r, f) ← file v
  let n ← naming f
  let (n, renamings) ← ofStore fun s => n.set s facet new
  write r (.file { f with naming := some n })
  renamings.forM fun x => note (.renamed x)

/-- The history of a file as a tuple of its own. -/
def history (f : File) : Action Value := do alloc (.tuple (← naming f).history)

/-- Reads an attribute that a value has of its own. -/
def ownAttribute (s : Store) (v : Value) (name : String) : Action Value :=
  match s.attribute? v name with
  | some w => return w
  | none => throw .noAttribute

/-- The attributes of a fatal error that are those of its record. -/
def recordNames : List String := ["fatal", "name", "file"]

/-- Reads one of these attributes off a record. The record can be another fatal error, which reads
it off its own; a chain of more errors than there are cells goes in a circle. -/
def recordAttribute (name : String) : Nat → Value → Action Value
  | 0, _ => throw .tooDeep
  | depth + 1, v => do
    let s ← store
    match s.failure? v with
    | some f =>
      if f.kind = .fatal then recordAttribute name depth f.record else ownAttribute s v name
    | none => ownAttribute s v name

/-- Reads an attribute. -/
def readAttribute (v : Value) (name : String) : Action Value := do
  let s ← store
  match s.cell? v, Facet.ofLabel? name with
  | some (.file f), some facet => do
    let n ← naming f
    ofStore fun s => n.get s facet
  | some (.file f), none => if name = "history" then history f else plain s
  | some (.options o), none =>
    if name = "extras" then do
      let es ← ofStore fun s => o.extras s
      alloc (.dict es)
    else if name = "model_extra" then return o.extra
    else plain s
  | some (.failure f), _ =>
    if f.kind = .fatal ∧ name ∈ recordNames then recordAttribute name (s.cells.size + 1) f.record
    else plain s
  | _, _ => plain s
where
  plain (s : Store) : Action Value := ownAttribute s v name

/-- The attributes of options that are read off others. -/
def derivedOptions : List String := ["extras", "model_extra", "model_fields_set", "model_fields"]

/-- Assigns an attribute of options: a field, or else a key that is kept. -/
def assignOption (r : Ref) (o : Options) (name : String) (v : Value) : Action Unit := do
  match o.assign? name v with
  | some o => write r (.options o)
  | none =>
    if name ∈ derivedOptions then throw .noAttribute
    match o.extra, (← store).dict? o.extra with
    | .ref q, some es => write q (.dict (Options.putText name.toList v es))
    | _, _ => throw .noAttribute

/-- Assigns an attribute of an error of the operating system, if the name is one. -/
def assignSystem? (e : SystemError) (name : String) (v : Value) :
    Except Fault (Option SystemError) :=
  match name with
  | "errno" => .ok (some { e with code := some v })
  | "strerror" => .ok (some { e with text := some v })
  | "filename" => .ok (some { e with file := some v })
  | "filename2" => .ok (some { e with other := some v })
  | "characters_written" => (progressOf v).map fun progress => some { e with progress }
  | _ => .ok none

/-- Assigns an attribute of an error. The arguments are always a tuple. -/
def assignFailure (r : Ref) (f : Failure) (name : String) (v : Value) : Action Unit := do
  if name = "args" then
    let args ← asTuple v
    write r (.failure { f with args })
  else if f.kind = .fatal ∧ name = "file_message" then write r (.failure { f with record := v })
  else if f.kind = .fatal ∧ name ∈ recordNames then throw .noAttribute
  else
    let system ← ofStore fun _ =>
      if f.kind = .system then assignSystem? f.system name v else .ok none
    match system with
    | some system => write r (.failure { f with system })
    | none => write r (.failure { f with extra := f.extra.assign name v })
where
  asTuple (v : Value) : Action Value := do
    match ← cell? v with
    | some (.tuple _) => return v
    | _ => alloc (.tuple (← ofStore (·.items v)))

/-- Assigns an attribute. Points and ranges never change; facets of
files go through their setters. -/
def assign (v : Value) (name : String) (new : Value) : Action Unit := do
  match v, (← store).cell? v with
  | .point _ _ _, _ => throw .frozen
  | .position _ _, _ => throw .frozen
  | .ref r, some (.message m) =>
    if name = "severity" then throw .noAttribute else write r (.message (m.assign name new))
  | .ref r, some (.file f) =>
    match Facet.ofLabel? name with
    | some facet => setFacet v facet new
    | none => if name = "history" then throw .noAttribute else write r (.file (f.assign name new))
  | .ref r, some (.options o) => assignOption r o name new
  | .ref r, some (.object attrs shown) => write r (.object (attrs.assign name new) shown)
  | .ref r, some (.pathLike target extra) => write r (.pathLike target (extra.assign name new))
  | .ref r, some (.failure f) => assignFailure r f name new
  | _, _ => throw .noAttribute

/-- The parts of a file: its facets, its history and its plain fields. -/
def parts (f : File) : Action (List (String × Value)) := do
  let n ← naming f
  let facets ← ofStore n.facets
  return facets.map (fun x => (x.1.label, x.2)) ++ f.fields

/-- The written form of the naming of a file, or of what stands in its place. -/
def writtenNaming (v : Value) : Action Text := do
  let (_, f) ← file v
  match f.naming with
  | some n => ofStore (·.writtenNaming n)
  | none => ofStore (·.written ((f.extra.lookup "identity").getD .null))

/-! ### Items -/

/-- The position that an index denotes among `count` members; a negative one counts from the end. -/
def position (count : Nat) (index : Value) : Except Fault Nat :=
  match index.int? with
  | none => .error .mistyped
  | some n =>
    let n := if n < 0 then n + count else n
    if 0 ≤ n ∧ n < count then .ok n.toNat else .error .noIndex

/-- The member at an index. -/
def member (vs : List Value) (index : Value) : Except Fault Value := do
  let i ← position vs.length index
  return vs[i]?.getD .null

/-- Reads an item: a member by its index, or the item of a key. -/
def readItem (v key : Value) : Action Value :=
  ofStore fun s =>
    match s.dict? v with
    | some es => do
      if !s.isKey key then throw .mistyped
      match ← Store.entryWith s.equal key es with
      | some w => return w
      | none => throw .noKey
    | none => do member (← s.items v) key

/-- Follows a way of attributes and items. -/
def follow (v : Value) : List Part → Action Value
  | [] => return v
  | .field name :: way => do follow (← readAttribute v name) way
  | .item key :: way => do follow (← readItem v key) way

/-- The byte that a value is. -/
def byteOf (v : Value) : Except Fault UInt8 :=
  match v.int? with
  | some n => if 0 ≤ n ∧ n < 256 then .ok (UInt8.ofNat n.toNat) else .error .badValue
  | none => .error .mistyped

/-- Assigns an item. -/
def assignItem (v key new : Value) : Action Unit := do
  match v, (← store).cell? v with
  | .ref r, some (.list vs) => do
    let i ← ofStore fun _ => position vs.length key
    write r (.list (vs.set i new))
  | .ref r, some (.dict es) => do
    let es ← ofStore fun s => s.insert key new es
    write r (.dict es)
  | .ref r, some (.buffer bs) => do
    if key.int?.isNone then throw .mistyped
    let b ← ofStore fun _ => byteOf new
    let i ← ofStore fun _ => position bs.length key
    write r (.buffer (bs.set i b))
  | _, _ => throw .mistyped

end Action

end VirtualFile
