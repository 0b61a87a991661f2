import VirtualFile.Text.Printable
/-!
# Quoted forms

Texts and byte sequences as literals: between quotes, with a backslash before the quote in use and
before a backslash, short escapes for tab and line breaks, and numbers for what cannot be shown.
Single quotes are used unless the content holds single quotes and no double ones.

* `quote`: the literal of a text.
* `quoteBytes`, `quoteBuffer`: the literals of a byte sequence, fixed or open to change.
-/

namespace VirtualFile.Text

/-- The digit of a number below sixteen. -/
def hexDigit (n : Nat) : Char := Nat.digitChar n

/-- The last `width` hexadecimal digits of a number. -/
def hex : Nat → Nat → Text
  | 0, _ => []
  | width + 1, n => hex width (n / 16) ++ [hexDigit (n % 16)]

/-- The quote for a content with or without single and double quotes. -/
def chooseQuote (single double : Bool) : Char := if single && !double then '"' else '\''

/-- The escapes that texts and byte sequences share. -/
def escape? (mark c : Char) : Option Text :=
  if c = mark ∨ c = '\\' then some ['\\', c]
  else if c = '\n' then some ['\\', 'n']
  else if c = '\r' then some ['\\', 'r']
  else if c = '\t' then some ['\\', 't']
  else none

/-- A character of a text literal; the number has the fewest of two, four or eight digits. -/
def escapeChar (mark c : Char) : Text :=
  match escape? mark c with
  | some t => t
  | none =>
    if isPrintable c then [c]
    else if c.toNat < 0x100 then '\\' :: 'x' :: hex 2 c.toNat
    else if c.toNat < 0x10000 then '\\' :: 'u' :: hex 4 c.toNat
    else '\\' :: 'U' :: hex 8 c.toNat

/-- The literal of a text. -/
def quote (t : Text) : Text :=
  let mark := chooseQuote (t.contains '\'') (t.contains '"')
  mark :: t.flatMap (escapeChar mark) ++ [mark]

/-- A byte of a literal: ASCII characters that can be shown stand for themselves. -/
def escapeByte (mark : Char) (b : UInt8) : Text :=
  match escape? mark (Char.ofNat b.toNat) with
  | some t => t
  | none => if 0x20 ≤ b ∧ b < 0x7F then [Char.ofNat b.toNat] else '\\' :: 'x' :: hex 2 b.toNat

/-- The quote for a byte sequence. -/
def quoteOfBytes (bs : List UInt8) : Char := chooseQuote (bs.contains 0x27) (bs.contains 0x22)

/-- The literal of a byte sequence. -/
def quoteBytes (bs : List UInt8) : Text :=
  'b' :: quoteOfBytes bs :: bs.flatMap (escapeByte (quoteOfBytes bs)) ++ [quoteOfBytes bs]

/-- The literal of bytes that can be changed in place: single quotes
are escaped whatever the quote is. -/
def quoteBuffer (bs : List UInt8) : Text :=
  "bytearray(b".toList ++ quoteOfBytes bs :: bs.flatMap (escapeByte '\'') ++ [quoteOfBytes bs, ')']

end VirtualFile.Text
