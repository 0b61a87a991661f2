import VirtualFile.Value.Inspect
import VirtualFile.Number.Shortest
import VirtualFile.Text.Quoted
/-!
# Written forms

`Store.written` shows a value so that its parts can be told apart: texts are quoted, lists stand in
brackets, records show their fields. A container that occurs within itself is cut short there.
-/

namespace VirtualFile

namespace Written

/-- Texts with a comma and a blank between neighbours. -/
def commas : List Text → Text
  | [] => []
  | [t] => t
  | t :: u :: ts => t ++ ',' :: ' ' :: commas (u :: ts)

/-- A tuple; one member is followed by a comma. -/
def tuple : List Text → Text
  | [t] => '(' :: t ++ [',', ')']
  | ts => '(' :: commas ts ++ [')']

/-- A record: its name and the fields in parentheses. -/
def record (name : String) (fields : List (String × Text)) : Text :=
  name.toList ++ '(' :: commas (fields.map fun f => f.1.toList ++ '=' :: f.2) ++ [')']

/-- A dictionary: items in braces, with a colon after the key. -/
def dict (items : List (Text × Text)) : Text :=
  '\x7b' :: commas (items.map fun e => e.1 ++ ':' :: ' ' :: e.2) ++ ['\x7d']

/-- The numeral or word of a value that is neither text nor compound. -/
def bool (b : Bool) : Text := (if b then "True" else "False").toList

def null : Text := "None".toList

/-- What stands for a container within itself. -/
def loop : Cell → Text
  | .list _ => "[...]".toList
  | .tuple _ => "(...)".toList
  | .dict _ => ['\x7b', '.', '.', '.', '\x7d']
  | _ => "...".toList

end Written

namespace Store

/-- The written form to a given depth, below the containers `opened`. -/
def writtenTo (s : Store) : Nat → List Ref → Value → Except Fault Text
  | 0, _, _ => .error .tooDeep
  | depth + 1, opened, v =>
    match v with
    | .null => .ok Written.null
    | .bool b => .ok (Written.bool b)
    | .int n => .ok (Text.ofInt n)
    | .float x => .ok x.render
    | .text t => .ok (Text.quote t)
    | .bytes bs => .ok (Text.quoteBytes bs)
    | .point l c o => do
      return Written.record "Point" [("line", ← s.writtenTo depth opened l),
        ("column", ← s.writtenTo depth opened c), ("offset", ← s.writtenTo depth opened o)]
    | .position a b => do
      return Written.record "Position" [("start", ← s.writtenTo depth opened a),
        ("end", ← s.writtenTo depth opened b)]
    | .ref r =>
      match s.cells[r]? with
      | none => .ok "<object>".toList
      | some c =>
        if opened.contains r ∧ !c.isFailure then .ok (Written.loop c)
        else
          let inner := s.writtenTo depth (r :: opened)
          match c with
          | .list vs => do return '[' :: Written.commas (← vs.mapM inner) ++ [']']
          | .tuple vs => do return Written.tuple (← vs.mapM inner)
          | .dict es =>
            do return Written.dict (← es.mapM fun e => do return (← inner e.1, ← inner e.2))
          | .buffer bs => .ok (Text.quoteBuffer bs)
          | .window _ => .ok "<memory>".toList
          | .pathLike _ _ => .ok "<pathlike>".toList
          | .object _ shown => .ok shown
          | .url u =>
            .ok (Written.record "ParseResult" (u.fields.map fun f => (f.1, Text.quote f.2)))
          | .failure f => do
            -- a failure is never cut short itself, only the tuple of its arguments
            let arguments ← match ← s.items f.args with
              | [v] => do pure ('(' :: (← s.writtenTo depth opened v) ++ [')'])
              | _ => s.writtenTo depth opened f.args
            return f.label.toList ++ arguments
          | .message m => do
            return Written.record "FileMessage"
              (← m.fields.mapM fun f => do return (f.1, ← inner f.2))
          | .file f => do
            let some n := f.naming | .error .noAttribute
            return Written.record "VFile" [("path", ← inner n.path),
              ("messages", Text.ofNat (← s.length f.messages))]
          | .options o => do
            return Written.record "VFileOptions"
              (← o.fields.mapM fun f => do return (f.1, ← inner f.2))

/-- The written form of a value. Between two containers that are not
yet opened a way can lead through every failure. -/
def written (s : Store) (v : Value) : Except Fault Text :=
  s.writtenTo ((s.weight + v.weight + 1) * (s.cells.size + 1)) [] v

/-- The written form of a naming: its history. -/
def writtenNaming (s : Store) (n : Naming) : Except Fault Text := do
  let paths ← n.history.mapM s.written
  return Written.record "PathIdentity" [("history", '[' :: Written.commas paths ++ [']'])]

end Store

end VirtualFile
