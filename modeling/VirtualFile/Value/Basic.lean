import VirtualFile.Number.Binary64
/-!
# Values

What a caller may hand over as content, path, place, reason, option or pipeline state is
not known in advance, so these are values of one type. Plain data and places in a text
stand in the value itself. Everything that can be shared or changed is a cell of a store
(`Store`), and the value refers to it.
-/

namespace VirtualFile

/-- Where a cell stands in its store. -/
abbrev Ref := Nat

/-- A value. -/
inductive Value
  | null
  | bool (b : Bool)
  | int (n : Int)
  | float (x : Binary64)
  | text (t : Text)
  | bytes (bs : List UInt8)
  /-- A single place in a text; the fields are not checked. -/
  | point (line column offset : Value)
  /-- A range in a text; the fields are not checked. -/
  | position (start stop : Value)
  | ref (r : Ref)
  deriving DecidableEq, Repr, Inhabited

namespace Value

/-- The value of a text. -/
def ofString (s : String) : Value := .text s.toList

/-- The value of a text that may be missing. -/
def ofText? : Option Text → Value
  | some t => .text t
  | none => .null

/-- The number of nodes of a value. -/
def weight : Value → Nat
  | .point l c o => l.weight + c.weight + o.weight + 1
  | .position s e => s.weight + e.weight + 1
  | _ => 1

/-- The integer that a value counts as; truth values count as one and zero. -/
def int? : Value → Option Int
  | .int n => some n
  | .bool b => some (if b then 1 else 0)
  | _ => none

/-- Whether an integer fits into 64 bits with a sign. -/
def isSmallInt (n : Int) : Bool := -0x8000000000000000 ≤ n && n < 0x8000000000000000

/-- Whether a value is a float that is no number. -/
def isUndefined : Value → Bool
  | .float x => x.view == .undefined
  | _ => false

/-- The text that a value is. -/
def text? : Value → Option Text
  | .text t => some t
  | _ => none

end Value

end VirtualFile
