import VirtualFile.Content
import VirtualFile.Place
/-!
# Messages

A message says something about a file, perhaps at a place in it. Its name is the place after the
path of the file, and it joins the messages of the file when it is made.

* `Message.severity`: what becomes of the work on the file.
* `Action.newMessage`: a message that belongs to no file yet.
* `Action.warn`, `Action.inform`, `Action.fail`: add a message to a file.
-/

namespace VirtualFile

/-- How severe a message is. -/
inductive Severity
  | fatal
  | warning
  | info
  deriving DecidableEq, Repr

def Severity.label : Severity → String
  | .fatal => "fatal"
  | .warning => "warning"
  | .info => "info"

def Message.severity (s : Store) (m : Message) : Severity :=
  if m.fatal = .null then .info else if s.truthy m.fatal then .fatal else .warning

/-- The place of a message that has none. -/
def noPlace : Text := ['1', ':', '1']

/-- The line and the column of the start of a range. -/
def Position.startPlace (s : Store) (p : Position) : Except Fault (Value × Value) :=
  match s.attribute? p.start "line", s.attribute? p.start "column" with
  | some l, some c => .ok (l, c)
  | _, _ => .error .noAttribute

namespace Action

/-- The error that a reason is, if it is one. -/
def causeOf (s : Store) (reason : Value) : Value :=
  if (s.failure? reason).isSome then reason else .null

/-- A message with a reason, about a place, from an origin. -/
def newMessage (reason place origin : Value) : Action Message := do
  let position ← ofStore (·.resolve place)
  let text ← shown reason
  let label ← ofStore (·.describe place)
  let (line, column) ← match position with
    | some p => ofStore p.startPlace
    | none => pure (.null, .null)
  return {
    reason := .text text
    name := .text (if label = [] then noPlace else label)
    line, column
    position := match position with
      | some p => p.toValue
      | none => .null
    origin
    cause := causeOf (← store) reason }

/-- Adds a value at the end of a list; bytes that can be changed take numbers below 256. -/
def push (target v : Value) : Action Unit := do
  let s ← store
  match target, s.cell? target with
  | .ref r, some (.list vs) => write r (.list (vs ++ [v]))
  | .ref r, some (.buffer bs) =>
    match v.int? with
    | some n =>
      if 0 ≤ n ∧ n < 256 then write r (.buffer (bs ++ [UInt8.ofNat n.toNat])) else throw .badValue
    | none => throw .mistyped
  | _, _ => throw (if s.hasAttribute target "append" then .mistyped else .noAttribute)

/-- Refuses an operation of a file that a plain attribute of the same name hides. -/
def checkOperation (f : File) (name : String) : Action Unit :=
  if (f.extra.lookup name).isSome then throw .mistyped else return

/-- Adds a warning to a file. -/
def warn (v reason place origin : Value) : Action Value := do
  let (_, f) ← file v
  checkOperation f "message"
  let m ← newMessage reason place origin
  let some n := f.naming | throw .noAttribute
  let m ←
    if (← store).truthy n.path then do
      let name := (← shown n.path) ++ ':' :: (← shown m.name)
      pure { m with name := .text name, file := n.path }
    else pure m
  let record ← alloc (.message m)
  push f.messages record
  note (.recorded (← shown m.name) (← shown m.reason))
  return record

/-- Assigns the severity of a message. -/
def setFatal (record fatal : Value) : Action Unit := do
  match record, (← store).message? record with
  | .ref r, some m => write r (.message { m with fatal })
  | _, _ => return

/-- Adds a notice to a file. -/
def inform (v reason place origin : Value) : Action Value := do
  let (_, f) ← file v
  checkOperation f "info"
  let record ← warn v reason place origin
  setFatal record .null
  return record

/-- Adds a fatal error to a file and is refused for it. -/
def fail (v reason place origin : Value) : Action α := do
  let (_, f) ← file v
  checkOperation f "fail"
  let record ← warn v reason place origin
  setFatal record (.bool true)
  throw (.fatal record (← shown record) (causeOf (← store) reason))

end Action

end VirtualFile
