import VirtualFile.Text.Utf8
/-!
# Percent escapes

An escape is `%` with two hexadecimal digits and stands for a byte. The bytes of each longest run of
ASCII text are decoded together as UTF-8, so an escape cannot join a character that was written as
such. A `%` without two digits after it stands for itself.

* `decode`: a text with its escapes resolved, once.
* `containsEscape`: whether one of some given escapes is written in a text.
-/

namespace VirtualFile.Url.Percent

/-- The value of a hexadecimal digit in either case. -/
def digit? (c : Char) : Option Nat :=
  if '0' ≤ c ∧ c ≤ '9' then some (c.toNat - '0'.toNat)
  else if 'a' ≤ c ∧ c ≤ 'f' then some (c.toNat - 'a'.toNat + 10)
  else if 'A' ≤ c ∧ c ≤ 'F' then some (c.toNat - 'A'.toNat + 10)
  else none

/-- The byte of an escape with these two digits. -/
def escaped? (high low : Char) : Option UInt8 :=
  match digit? high, digit? low with
  | some x, some y => some (UInt8.ofNat (x * 16 + y))
  | _, _ => none

/-- The bytes that a run of ASCII text stands for. -/
def bytes : Text → List UInt8
  | [] => []
  | '%' :: high :: low :: t =>
    match escaped? high low with
    | some b => b :: bytes t
    | none => '%'.toUInt8 :: bytes (high :: low :: t)
  | c :: t => c.toUInt8 :: bytes t
  termination_by t => t.length

/-- Decodes with the run of ASCII text read so far, the last character first. -/
def decodeFrom : Text → Text → Text
  | run, [] => Text.Utf8.decode (bytes run.reverse)
  | run, c :: t =>
    if c.toNat < 0x80 then decodeFrom (c :: run) t
    else Text.Utf8.decode (bytes run.reverse) ++ c :: decodeFrom [] t

/-- Resolves the escapes of a text. -/
def decode (t : Text) : Text := decodeFrom [] t

/-- Whether an escape of one of the bytes is written in the text. -/
def containsEscape (of : List UInt8) : Text → Bool
  | [] => false
  | c :: t =>
    (match c :: t with
      | '%' :: high :: low :: _ => (escaped? high low).any of.contains
      | _ => false) || containsEscape of t

end VirtualFile.Url.Percent
