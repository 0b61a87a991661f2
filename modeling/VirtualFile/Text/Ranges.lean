import VirtualFile.Text.Basic
/-!
# Tables of character ranges

Many properties of characters are given by ranges of character numbers. The ranges of a table stand
in ascending order and do not overlap, so that a number is looked up by halving.
-/

namespace VirtualFile.Text

/-- Ranges of character numbers, each by its first and its last number. -/
abbrev Ranges := Array (Nat × Nat)

namespace Ranges

/-- Searches the ranges `low`, …, `high - 1` of the table by halves, in at most `fuel` steps. -/
def search (rs : Ranges) (n : Nat) : Nat → Nat → Nat → Bool
  | 0, _, _ => false
  | fuel + 1, low, high =>
    if high ≤ low then false
    else
      let mid := (low + high) / 2
      match rs[mid]? with
      | none => false
      | some (first, last) =>
        if n < first then search rs n fuel low mid
        else if last < n then search rs n fuel (mid + 1) high
        else true

/-- Whether the number of a character lies in one of the ranges. -/
def holds (rs : Ranges) (c : Char) : Bool := rs.search c.toNat rs.size 0 rs.size

end Ranges

end VirtualFile.Text
