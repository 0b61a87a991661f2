import VirtualFile.Value.Store
/-!
# Looking into values

* `truthy`: which values count as true.
* `kindName`: what a value is called in a message.
* `items`, `length`: the members of a value that has members.
* `equal`: equality of contents; numbers compare across kinds, bytes however they are held.
* `attribute?`: the attributes that a value has of its own.
-/

namespace VirtualFile

/-- The fields of a message in order. -/
def Message.fields (m : Message) : Fields :=
  [("reason", m.reason), ("name", m.name), ("file", m.file), ("fatal", m.fatal), ("line", m.line),
   ("column", m.column), ("position", m.position), ("origin", m.origin), ("cause", m.cause)]

/-- The plain fields of a file in order. -/
def File.fields (f : File) : Fields :=
  [("cwd", f.cwd), ("value", f.value), ("data", f.data), ("messages", f.messages),
   ("stored", f.stored), ("result", f.result), ("map", f.map), ("attributes", f.attributes),
   ("default_encoding", f.encoding)]

/-- The fields of an options record in order. -/
def Options.fields (o : Options) : Fields :=
  [("value", o.value), ("cwd", o.cwd), ("history", o.history), ("path", o.path),
   ("basename", o.basename), ("stem", o.stem), ("extname", o.extname), ("dirname", o.dirname),
   ("data", o.data), ("messages", o.messages), ("stored", o.stored), ("result", o.result),
   ("map", o.map), ("attributes", o.attributes)]

/-- The parts of a URL by name. -/
def Url.Reference.fields (r : Url.Reference) : List (String × Text) :=
  [("scheme", r.scheme), ("netloc", r.authority), ("path", r.path), ("params", r.params),
   ("query", r.query), ("fragment", r.fragment)]

/-- The attributes of a URL that are parts of its authority. -/
def Url.Reference.hostAttribute? (r : Url.Reference) (name : String) : Option Value :=
  let a := Url.Authority.ofText r.authority
  match name with
  | "hostname" => some (.ofText? a.hostName?)
  | "username" => some (.ofText? a.user)
  | "password" => some (.ofText? a.password)
  | _ => none

/-- The attributes of an error of the operating system by name. -/
def SystemError.fields (e : SystemError) : Fields :=
  [("errno", e.code.getD .null), ("strerror", e.text.getD .null), ("filename", e.file.getD .null),
   ("filename2", e.other.getD .null)]
    ++ (e.progress.map fun n => ("characters_written", .int n)).toList

/-- The part of the error family of the operating system to which an error number leads. -/
def systemErrorLabel : Int → String
  | 1 | 13 => "PermissionError"
  | 2 => "FileNotFoundError"
  | 3 => "ProcessLookupError"
  | 4 => "InterruptedError"
  | 10 => "ChildProcessError"
  | 11 | 114 | 115 => "BlockingIOError"
  | 17 => "FileExistsError"
  | 20 => "NotADirectoryError"
  | 21 => "IsADirectoryError"
  | 32 | 108 => "BrokenPipeError"
  | 103 => "ConnectionAbortedError"
  | 104 => "ConnectionResetError"
  | 110 => "TimeoutError"
  | 111 => "ConnectionRefusedError"
  | _ => "OSError"

namespace Store

/-- What a value is called. -/
def kindName (s : Store) : Value → String
  | .null => "NoneType"
  | .bool _ => "bool"
  | .int _ => "int"
  | .float _ => "float"
  | .text _ => "str"
  | .bytes _ => "bytes"
  | .point _ _ _ => "Point"
  | .position _ _ => "Position"
  | v =>
    match s.cell? v with
    | some (.list _) => "list"
    | some (.tuple _) => "tuple"
    | some (.dict _) => "dict"
    | some (.buffer _) => "bytearray"
    | some (.window _) => "memoryview"
    | some (.pathLike _ _) => "PathLike"
    | some (.object _ _) => "Obj"
    | some (.url _) => "ParseResult"
    | some (.failure f) => f.label
    | some (.message _) => "FileMessage"
    | some (.file _) => "VFile"
    | some (.options _) => "VFileOptions"
    | none => "object"

/-- Whether a value counts as true: all do but null, false, zero and what has no members. -/
def truthy (s : Store) : Value → Bool
  | .null => false
  | .bool b => b
  | .int n => n != 0
  | .float x => x.nonzero
  | .text t => t != []
  | .bytes bs => bs != []
  | v =>
    match s.cell? v with
    | some (.list vs) => vs != []
    | some (.tuple vs) => vs != []
    | some (.dict es) => es != []
    | some (.buffer bs) => bs != []
    | some (.window bs) => bs != []
    | _ => true

/-- A byte as a value. -/
def byte (b : UInt8) : Value := .int b.toNat

/-- The members of a value, in order. A dictionary's are its keys. -/
def items (s : Store) : Value → Except Fault (List Value)
  | .text t => .ok (t.map fun c => .text [c])
  | .bytes bs => .ok (bs.map byte)
  | v =>
    match s.cell? v with
    | some (.list vs) => .ok vs
    | some (.tuple vs) => .ok vs
    | some (.dict es) => .ok (es.map (·.1))
    | some (.buffer bs) => .ok (bs.map byte)
    | some (.window bs) => .ok (bs.map byte)
    | some (.url r) => .ok (r.fields.map fun f => .text f.2)
    | _ => .error .mistyped

/-- How many members a value has. -/
def length (s : Store) (v : Value) : Except Fault Nat := (s.items v).map List.length

/-! ### Equality -/

/-- Compares two members: a value that is one thing with the other counts as equal to it, even a
number that equals nothing. -/
def sameMember (same : Value → Value → Except Fault Bool) (v w : Value) : Except Fault Bool :=
  if v.isUndefined && v == w then .ok true else same v w

/-- Compares two lists member by member. -/
def pairwise (same : Value → Value → Except Fault Bool) : List Value → List Value →
    Except Fault Bool
  | [], [] => .ok true
  | v :: vs, w :: ws => do if ← sameMember same v w then pairwise same vs ws else return false
  | _, _ => .ok false

/-- The entry of a key. -/
def entryWith (same : Value → Value → Except Fault Bool) (key : Value) :
    Entries → Except Fault (Option Value)
  | [] => .ok none
  | (k, v) :: es => do if ← sameMember same k key then return some v else entryWith same key es

/-- Whether every entry of `es` has an equal one in `all`. -/
def entriesWithin (same : Value → Value → Except Fault Bool) (all : Entries) :
    Entries → Except Fault Bool
  | [] => .ok true
  | (k, v) :: es => do
    match ← entryWith same k all with
    | none => return false
    | some w => if ← sameMember same v w then entriesWithin same all es else return false

/-- Compares cells by content where their kind has one, else not equal. -/
def sameCell (same : Value → Value → Except Fault Bool) : Cell → Cell → Except Fault Bool
  | .list vs, .list ws => pairwise same vs ws
  | .tuple vs, .tuple ws => pairwise same vs ws
  | .dict es, .dict fs =>
    if es.length = fs.length then entriesWithin same fs es else .ok false
  | .message m, .message n => pairwise same (m.fields.map (·.2)) (n.fields.map (·.2))
  | .options o, .options p => do
    if ← same o.extra p.extra then pairwise same (o.fields.map (·.2)) (p.fields.map (·.2))
    else return false
  | .url r, .url q => .ok (r == q)
  | .url r, .tuple ws => pairwise same (r.fields.map fun f => .text f.2) ws
  | .tuple vs, .url r => pairwise same vs (r.fields.map fun f => .text f.2)
  | _, _ => .ok false

/-- Equality of contents to a given depth. -/
def equalTo (s : Store) : Nat → Value → Value → Except Fault Bool
  | 0, _, _ => .error .tooDeep
  | depth + 1, v, w =>
    match v, w with
    | .null, .null => .ok true
    | .text t, .text u => .ok (t == u)
    | .float x, .float y => .ok (x.equal y)
    | .point l c o, .point l' c' o' => pairwise (s.equalTo depth) [l, c, o] [l', c', o']
    | .position a b, .position a' b' => pairwise (s.equalTo depth) [a, b] [a', b']
    | .ref r, .ref q =>
      if r = q then .ok true
      else match s.bytes? v, s.bytes? w, s.cell? v, s.cell? w with
        | some bs, some cs, _, _ => .ok (bs == cs)
        | _, _, some c, some d => sameCell (s.equalTo depth) c d
        | _, _, _, _ => .ok false
    | _, _ =>
      match s.bytes? v, s.bytes? w, v.int?, w.int? with
      | some bs, some cs, _, _ => .ok (bs == cs)
      | _, _, some m, some n => .ok (m == n)
      | _, _, some n, none => .ok (match w with | .float x => x.isInt n | _ => false)
      | _, _, none, some n => .ok (match v with | .float x => x.isInt n | _ => false)
      | _, _, _, _ => .ok false

/-- Equality of contents. -/
def equal (s : Store) (v w : Value) : Except Fault Bool :=
  s.equalTo (s.weight + v.weight + w.weight + 1) v w

/-- Whether a value is a member of a list. -/
def isAmong (s : Store) (v : Value) : List Value → Except Fault Bool
  | [] => .ok false
  | w :: ws => do if ← s.equal w v then return true else s.isAmong v ws

/-! ### Keys -/

/-- Whether a value can be a key, to a given depth: it cannot if it can be changed in place. -/
def isKeyTo (s : Store) : Nat → Value → Bool
  | 0, _ => false
  | depth + 1, v =>
    match v with
    | .point l c o => [l, c, o].all (s.isKeyTo depth)
    | .position a b => [a, b].all (s.isKeyTo depth)
    | v =>
      match s.cell? v with
      | some (.tuple vs) => vs.all (s.isKeyTo depth)
      | some (.list _) | some (.dict _) | some (.buffer _) | some (.message _)
      | some (.options _) => false
      | _ => true

/-- Whether a value can be a key. -/
def isKey (s : Store) (v : Value) : Bool := s.isKeyTo (s.weight + v.weight + 1) v

/-- Puts an item into entries: at the place of an equal key, which stays, or at the end. -/
def put (s : Store) (key value : Value) : Entries → Except Fault Entries
  | [] => .ok [(key, value)]
  | (k, v) :: es => do
    if ← sameMember s.equal k key then return (k, value) :: es
    else return (k, v) :: (← s.put key value es)

/-- Puts an item into entries, if its key can be one. -/
def insert (s : Store) (key value : Value) (es : Entries) : Except Fault Entries :=
  if s.isKey key then s.put key value es else .error .mistyped

/-- The entry of a text. -/
def entryNamed? (name : String) (es : Entries) : Option Value :=
  (es.find? fun e => e.1 == .ofString name).map (·.2)

/-- Adds items one after the other. -/
def insertAll (s : Store) : Entries → Entries → Except Fault Entries
  | es, [] => .ok es
  | es, (k, v) :: more => do s.insertAll (← s.insert k v es) more

/-- A member that is a pair, as an item. -/
def pair (s : Store) (v : Value) : Except Fault (Value × Value) := do
  match ← s.items v with
  | [k, w] => return (k, w)
  | _ => .error .badValue

/-- Reads pairs and adds them one after the other. -/
def insertPairs (s : Store) : Entries → List Value → Except Fault Entries
  | es, [] => .ok es
  | es, v :: vs => do
    let (k, w) ← s.pair v
    s.insertPairs (← s.insert k w es) vs

/-- The entries of a dictionary, or those that a sequence of pairs lists. -/
def entries (s : Store) (v : Value) : Except Fault Entries :=
  match s.dict? v with
  | some es => .ok es
  | none => do s.insertPairs [] (← s.items v)

/-! ### Attributes -/

/-- The attributes that a value has of its own. What a fatal error reads off its record is not among
them. -/
def attribute? (s : Store) (v : Value) (name : String) : Option Value :=
  match v with
  | .point l c o => [("line", l), ("column", c), ("offset", o)].lookup name
  | .position a b => [("start", a), ("end", b)].lookup name
  | v =>
    match s.cell? v with
    | some (.pathLike _ extra) => extra.lookup name
    | some (.object attrs _) => attrs.lookup name
    | some (.url r) =>
      match r.hostAttribute? name with
      | some w => some w
      | none => (r.fields.lookup name).map .text
    | some (.failure f) =>
      if name = "args" then some f.args
      else if f.kind = .fatal ∧ name = "file_message" then some f.record
      else (f.extra ++ if f.kind = .system then f.system.fields else []).lookup name
    | some (.message m) => (m.fields ++ m.extra).lookup name
    | some (.file f) =>
      if name = "path" then f.naming.map Naming.path else (f.fields ++ f.extra).lookup name
    | some (.options o) =>
      match o.fields.lookup name with
      | some w => some w
      | none => (s.dict? o.extra).bind (entryNamed? name)
    | _ => none

/-- Whether a value has an attribute. -/
def hasAttribute (s : Store) (v : Value) (name : String) : Bool := (s.attribute? v name).isSome

end Store

end VirtualFile
