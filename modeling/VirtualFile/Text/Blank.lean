import VirtualFile.Text.Basic
/-!
# White space

The characters that separate words: blanks, line ends, and the separators of information.
-/

namespace VirtualFile.Text

/-- The white space of ASCII, without the separators of information. -/
def isAsciiSpace (c : Char) : Bool := c == ' ' || ('\t' ≤ c && c ≤ '\r')

/-- White space. -/
def isSpace (c : Char) : Bool :=
  isAsciiSpace c || ('\x1c' ≤ c && c ≤ '\x1f') || c == '\x85' || c == '\xa0' || c == '\u1680'
    || ('\u2000' ≤ c && c ≤ '\u200a') || c == '\u2028' || c == '\u2029' || c == '\u202f'
    || c == '\u205f' || c == '\u3000'

/-- A text without the white space at both ends, as a test tells what is white space. -/
def trim (blank : Char → Bool) (t : Text) : Text := dropTrailing blank (t.dropWhile blank)

end VirtualFile.Text
