import VirtualFile.Content
/-!
# Failures

An error as a value: a caller makes one of a kind and arguments, or catches one when a fault occurs.
An error of the operating system reads its number, its text and its files off its arguments.

* `Action.newFailure`: the failure of a kind with given arguments.
* `Action.caught`: the failure as which a fault is caught.
-/

namespace VirtualFile

namespace Action

/-- Whether the third argument of an error that would have to wait
counts what was written before. -/
def isProgress : Value → Bool
  | .int _ | .bool _ | .float _ => true
  | _ => false

/-- The count that a value is: an integer of 64 bits; that of -1 is none. -/
def progressOf (v : Value) : Except Fault (Option Int) :=
  match v.int? with
  | none => .error .mistyped
  | some n =>
    if !Value.isSmallInt n then .error .badValue else .ok (if n = -1 then none else some n)

/-- What an error of the operating system tells after a number and a text: the file that it is
about, and perhaps a second one, or how much was written before. -/
def systemDetails (label : String) (e : SystemError) (rest : List Value) :
    Except Fault SystemError :=
  match rest with
  | file :: rest =>
    if file = .null then .ok e
    else if label = "BlockingIOError" ∧ isProgress file then
      (progressOf file).map fun progress => { e with progress }
    else .ok { e with file := some file, other := rest[1]?.filter (· ≠ .null) }
  | [] => .ok e

/-- An error of the operating system. With a number and a text it is named after its number; one
that is about a file keeps only these two as arguments. -/
def newSystemFailure (args : List Value) : Action Value := do
  match args with
  | code :: text :: rest =>
    if 3 < rest.length then plain args
    else
      let label := (code.int?.map systemErrorLabel).getD ErrorKind.system.label
      let e ← ofStore fun _ => systemDetails label { code := some code, text := some text } rest
      let kept := if e.file.isSome then [code, text] else args
      alloc (.failure { kind := .system, label, args := ← alloc (.tuple kept), system := e })
  | args => plain args
where
  plain (args : List Value) : Action Value := do
    alloc (.failure
      { kind := .system, label := ErrorKind.system.label, args := ← alloc (.tuple args) })

/-- A failure that a caller makes of arguments. A fatal one is made of
a record and shows its text. -/
def newFailure (kind : ErrorKind) (args : List Value) : Action Value := do
  match kind, args with
  | .fatal, [record] =>
    let args ← alloc (.tuple [.text (← shown record)])
    alloc (.failure { kind, label := kind.label, args, record })
  | .fatal, _ => throw .mistyped
  | .system, args => newSystemFailure args
  | kind, args => alloc (.failure { kind, label := kind.label, args := ← alloc (.tuple args) })

/-- The failure as which a fault is caught. Its argument is the message of the fault. -/
def caught (e : Fault) : Action Failure := do
  return {
    kind := e.kind
    label := e.kind.label
    args := ← alloc (.tuple (e.message?.map Value.text).toList)
    record := match e with
      | .fatal record _ _ => record
      | _ => .null
    fault := some e }

end Action

/-- The error that caused a failure. -/
def Failure.cause (f : Failure) : Value :=
  match f.fault with
  | some (.fatal _ _ cause) => cause
  | _ => .null

end VirtualFile
