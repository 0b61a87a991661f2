import VirtualFile.Text.Utf8
/-!
# UTF-16 and UTF-32

Code units of two and four bytes in either byte order, with `none` for each unit that is not a
character: a surrogate without its partner, a value that is no scalar value, a truncated tail.
-/

namespace VirtualFile.Text

/-- The order of the bytes in a code unit. -/
inductive ByteOrder
  | little
  | big
  deriving DecidableEq, Repr

namespace Utf16

/-- The code unit of two bytes. -/
def unit (o : ByteOrder) (a b : UInt8) : Nat :=
  match o with
  | .little => b.toNat * 256 + a.toNat
  | .big => a.toNat * 256 + b.toNat

def isHigh (u : Nat) : Bool := 0xD800 ≤ u && u < 0xDC00

def isLow (u : Nat) : Bool := 0xDC00 ≤ u && u < 0xE000

/-- The character of a surrogate pair. -/
def pair (high low : Nat) : Char := Char.ofNat (0x10000 + (high - 0xD800) * 1024 + (low - 0xDC00))

/-- Reads code units. A high surrogate that no whole unit follows takes the rest of the bytes with
it; one that another unit follows is dropped alone, and reading goes on with that unit. -/
def scan (o : ByteOrder) : List UInt8 → List (Option Char)
  | [] => []
  | [_] => [none]
  | [a, b] =>
    [if isHigh (unit o a b) || isLow (unit o a b) then none else some (Char.ofNat (unit o a b))]
  | [a, b, _] =>
    if isHigh (unit o a b) then [none]
    else if isLow (unit o a b) then [none, none]
    else [some (Char.ofNat (unit o a b)), none]
  | a :: b :: c :: d :: rest =>
    if isHigh (unit o a b) then
      if isLow (unit o c d) then some (pair (unit o a b) (unit o c d)) :: scan o rest
      else none :: scan o (c :: d :: rest)
    else if isLow (unit o a b) then none :: scan o (c :: d :: rest)
    else some (Char.ofNat (unit o a b)) :: scan o (c :: d :: rest)
  termination_by bs => bs.length

/-- Decodes in a given order; a byte order mark is an ordinary character. -/
def decode (o : ByteOrder) (bs : List UInt8) : Text := (scan o bs).map (·.getD Utf8.replacement)

/-- Decodes in the order that the byte order mark names, little-endian without one. -/
def decodeMarked : List UInt8 → Text
  | 0xFF :: 0xFE :: rest => decode .little rest
  | 0xFE :: 0xFF :: rest => decode .big rest
  | bs => decode .little bs

end Utf16

namespace Utf32

/-- The code unit of four bytes. -/
def unit (o : ByteOrder) (a b c d : UInt8) : Nat :=
  match o with
  | .little => ((d.toNat * 256 + c.toNat) * 256 + b.toNat) * 256 + a.toNat
  | .big => ((a.toNat * 256 + b.toNat) * 256 + c.toNat) * 256 + d.toNat

/-- Reads code units; an incomplete last unit counts once. -/
def scan (o : ByteOrder) : List UInt8 → List (Option Char)
  | [] => []
  | a :: b :: c :: d :: rest =>
    let u := unit o a b c d
    (if u.isValidChar then some (Char.ofNat u) else none) :: scan o rest
  | _ => [none]

def decode (o : ByteOrder) (bs : List UInt8) : Text := (scan o bs).map (·.getD Utf8.replacement)

/-- Decodes in the order that the byte order mark names, little-endian without one. -/
def decodeMarked : List UInt8 → Text
  | 0xFF :: 0xFE :: 0x00 :: 0x00 :: rest => decode .little rest
  | 0x00 :: 0x00 :: 0xFE :: 0xFF :: rest => decode .big rest
  | bs => decode .little bs

end Utf32

end VirtualFile.Text
