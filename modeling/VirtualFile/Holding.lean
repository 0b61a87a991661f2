import VirtualFile.Access
/-!
# Held values

A caller writes values, reads parts of others, and holds both. A value that refers to a cell is
known by its cell. Plain data have no address, so whether two held data of equal content are one
thing is told from where they come from.

* `Origin`: where a held value comes from.
* `Register`: what the caller has written and read so far.
* `Held.isOne`: whether two held values are one thing.
* `Action.read`: follows a way from a held value to one of its parts.
-/

namespace VirtualFile

/-- Where a way begins: at a cell, or at the value that a register has under a number. -/
inductive Root
  | cell (r : Ref)
  | made (n : Nat)
  deriving DecidableEq, Repr

/-- A spot at which a value stands: a way from a root. -/
structure Spot where
  root : Root
  way : List Part
  deriving DecidableEq, Repr

/-- The spot of a part. -/
def Spot.part (s : Spot) (p : Part) : Spot := { s with way := s.way ++ [p] }

/-- Where a held value comes from. -/
inductive Origin
  /-- It was written by the caller or made for a reading, under this number. -/
  | made (n : Nat)
  /-- It stands at this spot, and other spots can have others of equal content. -/
  | spot (s : Spot)
  /-- It is the only one of its content, such as a default. -/
  | shared
  deriving DecidableEq, Repr, Inhabited

/-- A value that a caller holds. -/
structure Held where
  value : Value
  origin : Origin := .shared
  deriving DecidableEq, Repr, Inhabited

/-- Whether all data of this content are one thing. -/
def Value.isUnique : Value → Bool
  | .null | .bool _ | .ref _ => true
  | .int n => -5 ≤ n && n ≤ 256
  | .float x => x.view == .undefined
  | .text [] => true
  | .text [c] => c.toNat < 0x100
  | .bytes bs => bs.length ≤ 1
  | _ => false

/-- Whether two held values are one thing. All empty tuples are. -/
def Held.isOne (s : Store) (a b : Held) : Bool :=
  match s.cell? a.value, s.cell? b.value with
  | some (.tuple []), some (.tuple []) => true
  | _, _ => a.value == b.value && (a.value.isUnique || a.origin == b.origin)

/-- What a caller has written, and where it found what it has read. -/
structure Register where
  made : Array Value := #[]
  found : List (Spot × Held) := []
  deriving DecidableEq, Repr, Inhabited

namespace Register

/-- Enters a new value. A float that is no number differs from every
other, so it gets bits of its own. -/
def enter (g : Register) (v : Value) : Register × Held :=
  let v := if v.isUndefined then .float (.unnumbered (g.made.size + 1)) else v
  ({ g with made := g.made.push v }, ⟨v, .made g.made.size⟩)

/-- The numbers of the values of a content. -/
def numbers (g : Register) (v : Value) : List Nat :=
  (List.range g.made.size).filter fun n => g.made[n]? == some v

/-- The value that is found at a spot. One that was found there before is still the same; else it is
the one that was entered with its content, if there is just one. A value that is not entered belongs
to the spot if it is made for it, as `own` says. -/
def locate (g : Register) (spot : Spot) (own : Bool) (v : Value) : Register × Held :=
  match g.found.find? fun f => f.1 == spot && f.2.value == v with
  | some f => (g, f.2)
  | none =>
    let origin : Origin := match g.numbers v with
      | [n] => .made n
      | [] => if own then .spot spot else .shared
      | _ => .spot spot
    ({ g with found := (spot, ⟨v, origin⟩) :: g.found }, ⟨v, origin⟩)

end Register

namespace Held

/-- Whether a part is the history of a file. It is a new tuple at each
reading, of members that stay. -/
def isHistory (s : Store) (h : Held) (p : Part) : Bool :=
  (s.file? h.value).isSome && p == .field "history"

/-- The spot at which the parts of a held value stand. -/
def base? (h : Held) : Option Spot :=
  match h.value, h.origin with
  | _, .spot s => some s
  | .ref r, _ => some ⟨.cell r, []⟩
  | _, .made n => some ⟨.made n, []⟩
  | _, .shared => none

/-- The spot of the current path of a file: the end of its history. -/
def pathSpot (r : Ref) (f : File) : Spot :=
  ⟨.cell r, [.field "history", .item (.int (((f.naming.map (·.history.length)).getD 0 : Nat) - 1))]⟩

/-- The step to a part, with the index of a member counted from the front. -/
def stepAmong (count : Nat) (p : Part) : Part :=
  match p with
  | .item key =>
    match Action.position count key with
    | .ok i => .item (.int i)
    | .error _ => p
  | p => p

/-- The spot of a part of a held value; none for what is made anew for each reading. -/
def spotOf? (s : Store) (h : Held) (p : Part) (found : Value) : Option Spot :=
  match h.value, s.cell? h.value, p with
  | .ref r, some (.file f), .field name =>
    match Facet.ofLabel? name with
    | some _ => if (f.naming.map Naming.path) = some found then some (pathSpot r f) else none
    | none => some ⟨.cell r, [p]⟩
  | .ref r, some (.url u), p =>
    let fields := u.fields.map (·.1)
    match stepAmong fields.length p with
    | .item (.int i) => some ⟨.cell r, [.field ((fields[i.toNat]?).getD "")]⟩
    | .field name => if fields.contains name then some ⟨.cell r, [p]⟩ else none
    | _ => none
  | _, some (.list vs), p | _, some (.tuple vs), p => h.base?.map (·.part (stepAmong vs.length p))
  | .text _, _, _ | .bytes _, _, _ => none
  | _, _, p => h.base?.map (·.part p)

/-- Whether a part is made for its spot: places, parts of a URL, and of a message the reason and the
name, unless it is the name of a message about no place in no file. -/
def owns (s : Store) (h : Held) (p : Part) (found : Value) : Bool :=
  match found, s.cell? h.value, p with
  | .point _ _ _, _, _ | .position _ _, _, _ => true
  | _, some (.url _), _ => true
  | _, some (.message _), .field "reason" => true
  | _, some (.message m), .field "name" => m.position ≠ .null || m.file ≠ .text []
  | _, _, _ => false

end Held

namespace Action

/-- Follows a way from a held value. -/
def read (g : Register) (h : Held) : List Part → Action (Register × Held)
  | [] => return (g, h)
  | p :: way => do
    let s ← store
    let v ← follow h.value [p]
    let (g, found) := match h.spotOf? s p v with
      | none => g.enter v
      | some spot =>
        if h.isHistory s p then (g, ⟨v, .spot spot⟩)
        else if v.isUnique then (g, ⟨v, .shared⟩)
        else g.locate spot (h.owns s p v) v
    read g found way

end Action

end VirtualFile
