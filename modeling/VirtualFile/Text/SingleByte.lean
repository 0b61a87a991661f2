import VirtualFile.Text.Utf8
/-!
# Character sets of one byte per character

ISO 8859-1 assigns every byte the character of its number. The others are given by where they differ
from it.
-/

namespace VirtualFile.Text.SingleByte

/-- The bytes to which a character set gives another character than ISO 8859-1 does. -/
abbrev Differences := List (UInt8 × Char)

/-- ISO 8859-15. -/
def latin9 : Differences :=
  [(0xA4, '\u20AC'), (0xA6, '\u0160'), (0xA8, '\u0161'), (0xB4, '\u017D'), (0xB8, '\u017E'),
   (0xBC, '\u0152'), (0xBD, '\u0153'), (0xBE, '\u0178')]

/-- Windows-1252, with `U+FFFD` at the five bytes that it leaves unassigned. -/
def windows1252 : Differences :=
  [(0x80, '\u20AC'), (0x81, '\uFFFD'), (0x82, '\u201A'), (0x83, '\u0192'), (0x84, '\u201E'),
   (0x85, '\u2026'), (0x86, '\u2020'), (0x87, '\u2021'), (0x88, '\u02C6'), (0x89, '\u2030'),
   (0x8A, '\u0160'), (0x8B, '\u2039'), (0x8C, '\u0152'), (0x8D, '\uFFFD'), (0x8E, '\u017D'),
   (0x8F, '\uFFFD'), (0x90, '\uFFFD'), (0x91, '\u2018'), (0x92, '\u2019'), (0x93, '\u201C'),
   (0x94, '\u201D'), (0x95, '\u2022'), (0x96, '\u2013'), (0x97, '\u2014'), (0x98, '\u02DC'),
   (0x99, '\u2122'), (0x9A, '\u0161'), (0x9B, '\u203A'), (0x9C, '\u0153'), (0x9D, '\uFFFD'),
   (0x9E, '\u017E'), (0x9F, '\u0178')]

/-- Decodes by the character numbers, apart from the listed differences. -/
def decode (differences : Differences) (bs : List UInt8) : Text :=
  bs.map fun b => (differences.lookup b).getD (Char.ofNat b.toNat)

/-- ASCII: a byte above `0x7F` is no character. -/
def decodeAscii (bs : List UInt8) : Text :=
  bs.map fun b => if b < 0x80 then Char.ofNat b.toNat else Utf8.replacement

end VirtualFile.Text.SingleByte
