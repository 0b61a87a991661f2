/-!
# Texts

A text is the list of its characters, so that cutting and joining are recursions on the data.

* `split`, `join`: the pieces between separators and their inverse.
* `cut`, `cutLast`: the two parts beside one separator.
* `takeTrailing`, `dropTrailing`: the longest tail whose characters satisfy a test, and the rest.
* `natOfDigits`, `ofNat`, `ofInt`: decimal numerals.
-/

namespace VirtualFile

/-- A text: its characters in order. -/
abbrev Text := List Char

namespace Text

/-- The longest tail of `t` whose characters satisfy `p`. -/
def takeTrailing (p : Char → Bool) (t : Text) : Text := (t.reverse.takeWhile p).reverse

/-- `t` without `takeTrailing p t`. -/
def dropTrailing (p : Char → Bool) (t : Text) : Text := (t.reverse.dropWhile p).reverse

/-- The pieces of a text between the characters that satisfy `sep`; a
text without any is one piece. -/
def split (sep : Char → Bool) : Text → List Text
  | [] => [[]]
  | c :: t =>
    if sep c then [] :: split sep t
    else match split sep t with
      | [] => [[c]]
      | piece :: pieces => (c :: piece) :: pieces

theorem split_ne_nil (sep : Char → Bool) (t : Text) : split sep t ≠ [] := by
  cases t with
  | nil => simp [split]
  | cons c t =>
    rw [split]
    split
    · simp
    · split <;> simp

/-- Cuts a text at the first character that satisfies `p`; the second part goes without it. -/
def cut (p : Char → Bool) (t : Text) : Text × Option Text :=
  match t.span (!p ·) with
  | (before, []) => (before, none)
  | (before, _ :: after) => (before, some after)

/-- Cuts a text at the last character that satisfies `p`. -/
def cutLast (p : Char → Bool) (t : Text) : Text × Option Text :=
  match cut p t.reverse with
  | (all, none) => (all.reverse, none)
  | (after, some before) => (before.reverse, some after.reverse)

/-- The pieces with `sep` between neighbours. -/
def join (sep : Char) : List Text → Text
  | [] => []
  | [piece] => piece
  | piece :: next :: pieces => piece ++ sep :: join sep (next :: pieces)

/-- Replaces every `old` by `new`. -/
def replace (old new : Char) (t : Text) : Text := t.map fun c => if c = old then new else c

/-- The value of decimal digits. -/
def natOfDigits (ds : Text) : Nat := ds.foldl (fun n d => n * 10 + (d.toNat - '0'.toNat)) 0

/-- The decimal numeral of a natural number. -/
def ofNat (n : Nat) : Text := Nat.toDigits 10 n

/-- The decimal numeral of an integer, with `-` before a negative one. -/
def ofInt : Int → Text
  | .ofNat n => ofNat n
  | .negSucc n => '-' :: ofNat (n + 1)

/-- The lower-case form of the ASCII letters; other characters stay. -/
def lower (t : Text) : Text := t.map Char.toLower

/-- Whether a text is one of the given words. -/
def isOneOf (t : Text) (words : List String) : Bool := words.any fun w => w.toList == t

end Text

end VirtualFile
