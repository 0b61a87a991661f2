import VirtualFile.Text.Wide
import VirtualFile.Text.SingleByte
/-!
# Charsets and their labels

A label names a charset after normalisation: letter case does not count, and a run of characters
other than letters, digits and `.` counts as one `_`, or as nothing at either end.

* `Charset.decode`: bytes to text, with replacement.
* `Codec.ofLabel?`: which of the codecs that are built in a label names.
-/

namespace VirtualFile.Text

/-- The ways of writing text as bytes. -/
inductive Charset
  | utf8
  /-- UTF-8 whose first character may be a mark to drop. -/
  | utf8Marked
  | latin1
  | ascii
  | windows1252
  | latin9
  /-- Two-byte units in the order that a mark tells, or in a fixed one. -/
  | utf16 (order : Option ByteOrder)
  /-- Four-byte units in the order that a mark tells, or in a fixed one. -/
  | utf32 (order : Option ByteOrder)
  deriving DecidableEq, Repr

/-- Decodes; every byte sequence has a text. -/
def Charset.decode : Charset → List UInt8 → Text
  | .utf8, bs => Utf8.decode bs
  | .utf8Marked, 0xEF :: 0xBB :: 0xBF :: rest => Utf8.decode rest
  | .utf8Marked, bs => Utf8.decode bs
  | .latin1, bs => SingleByte.decode [] bs
  | .ascii, bs => SingleByte.decodeAscii bs
  | .windows1252, bs => SingleByte.decode SingleByte.windows1252 bs
  | .latin9, bs => SingleByte.decode SingleByte.latin9 bs
  | .utf16 none, bs => Utf16.decodeMarked bs
  | .utf16 (some o), bs => Utf16.decode o bs
  | .utf32 none, bs => Utf32.decodeMarked bs
  | .utf32 (some o), bs => Utf32.decode o bs

/-- What a label can name. -/
inductive Codec
  | charset (c : Charset)
  /-- A transformation that does not lead to text. -/
  | transformation
  /-- A way of writing text that is not decoded with replacement. -/
  | strict
  deriving DecidableEq, Repr

namespace Codec

/-- The letters, digits and dots of a label in lower case, with one `_` for a run of other
characters between two of them. `gap` says that such a run is open, `begun` that something
stands before it. -/
def normalizeFrom (begun gap : Bool) : Text → Text
  | [] => []
  | c :: t =>
    if c.isAlphanum || c == '.' then
      let kept := c.toLower :: normalizeFrom true false t
      if gap && begun then '_' :: kept else kept
    else normalizeFrom begun true t

def normalizeLabel (label : Text) : Text := normalizeFrom false false label

/-- The names under which each codec that is built in is known. -/
def names : List (Codec × List String) :=
  [(.charset .utf8, ["utf_8", "cp65001", "u8", "utf", "utf8", "utf8_ucs2", "utf8_ucs4"]),
   (.charset .utf8Marked, ["utf_8_sig"]),
   (.charset .latin1, ["latin_1", "8859", "cp819", "csisolatin1", "ibm819", "iso8859", "iso8859_1",
     "iso_8859_1", "iso_8859_1_1987", "iso_ir_100", "l1", "latin", "latin1"]),
   (.charset .ascii, ["ascii", "646", "ansi_x3_4_1968", "cp367", "csascii", "ibm367",
     "iso646_us", "iso_ir_6", "us", "us_ascii"]),
   (.charset .windows1252, ["cp1252", "1252", "windows_1252"]),
   (.charset .latin9, ["iso8859_15", "iso_8859_15", "l9", "latin9"]),
   (.charset (.utf16 none), ["utf_16", "u16", "utf16"]),
   (.charset (.utf16 (some .little)), ["utf_16_le", "unicodelittleunmarked", "utf_16le"]),
   (.charset (.utf16 (some .big)), ["utf_16_be", "unicodebigunmarked", "utf_16be"]),
   (.charset (.utf32 none), ["utf_32", "u32", "utf32"]),
   (.charset (.utf32 (some .little)), ["utf_32_le", "utf_32le"]),
   (.charset (.utf32 (some .big)), ["utf_32_be", "utf_32be"]),
   (.transformation, ["hex_codec", "hex", "rot_13", "rot13", "base64_codec", "base64", "base_64",
     "zlib_codec", "zip", "zlib", "bz2_codec", "bz2", "quopri_codec", "quopri", "quoted_printable",
     "quotedprintable", "uu_codec", "uu"]),
   (.strict, ["idna", "undefined"])]

/-- Names that stay known when written with dots. -/
def dotted : List (Codec × List String) :=
  [(.charset .ascii, ["ansi_x3.4_1968", "ansi_x3.4_1986", "iso_646.irv_1991"])]

/-- The main name of each codec, which admits no dot in place of `_`. -/
def mainNames : List String :=
  ["utf_8", "utf_8_sig", "latin_1", "ascii", "cp1252", "iso8859_15", "utf_16", "utf_16_le",
   "utf_16_be", "utf_32", "utf_32_le", "utf_32_be", "hex_codec", "rot_13", "base64_codec",
   "zlib_codec", "bz2_codec", "quopri_codec", "uu_codec", "idna", "undefined"]

/-- Looks a normalised name up in a table. -/
def find? (table : List (Codec × List String)) (name : Text) : Option Codec :=
  (table.find? fun entry => name.isOneOf entry.2).map (·.1)

/-- The codec that is built in under a label. A dot may stand for `_`,
but not in the main name of a codec. -/
def ofLabel? (label : Text) : Option Codec :=
  let name := normalizeLabel label
  if name.contains '.' then
    match find? dotted name with
    | some c => some c
    | none =>
      let plain := name.replace '.' '_'
      if plain.isOneOf mainNames then none else find? names plain
  else find? names name

end Codec

end VirtualFile.Text
