import VirtualFile.Journal
import VirtualFile.Settings
/-!
# Operations on a world

A world is a store, the journal so far, how often the working directory was asked for, and the
settings with the environment they come from. An action changes the world and then succeeds or is
refused; what it has changed before it is refused stays changed.
-/

namespace VirtualFile

structure World where
  store : Store := {}
  journal : List Entry := []
  /-- How often the working directory was asked for. -/
  asked : Nat := 0
  environment : List (Text × Text) := []
  /-- The settings once they have been loaded. -/
  settings : Option Settings := none

/-- An operation that may change the world and may be refused. -/
abbrev Action := ExceptT Fault (StateM World)

namespace Action

/-- Runs an action: its outcome and the world after it. -/
def outcome (a : Action α) (w : World) : Except Fault α × World := (ExceptT.run a).run w

def store : Action Store := return (← get).store

/-- An outcome that is read off the store. -/
def ofStore (f : Store → Except Fault α) : Action α := do
  match f (← store) with
  | .ok a => return a
  | .error e => throw e

/-- Adds a cell. -/
def alloc (c : Cell) : Action Value := do
  let w ← get
  let (s, v) := w.store.alloc c
  set { w with store := s }
  return v

/-- Changes a cell. -/
def write (r : Ref) (c : Cell) : Action Unit :=
  modify fun w => { w with store := w.store.write r c }

/-- Adds an entry to the journal. -/
def note (e : Entry) : Action Unit := modify fun w => { w with journal := w.journal ++ [e] }

/-- Asks for the working directory. -/
def ask (directory : Value) : Action Value := do
  modify fun w => { w with asked := w.asked + 1 }
  return directory

/-- The cell that a value refers to. -/
def cell? (v : Value) : Action (Option Cell) := return (← store).cell? v

/-- The file that a value refers to, with its reference. -/
def file (v : Value) : Action (Ref × File) := do
  match v, (← store).file? v with
  | .ref r, some f => return (r, f)
  | _, _ => throw .noAttribute

/-- The settings: those loaded before, or else loaded now. Settings
that fail to load are not kept. -/
def settings : Action Settings := do
  let w ← get
  match w.settings with
  | some c => return c
  | none =>
    match Settings.load w.store { environment := w.environment } with
    | .ok c =>
      set { w with settings := some c }
      return c
    | .error faults => throw (.invalid .settings faults)

/-- Forgets the settings. -/
def forgetSettings : Action Unit := modify fun w => { w with settings := none }

end Action

end VirtualFile
