import VirtualFile.Text.Basic
/-!
# UTF-8

Bytes are read by a machine that waits for continuation bytes. Each emission is a character or, as
`none`, one ill-formed sequence; a sequence that breaks off counts once for its longest well-formed
beginning, and the byte that broke it is read afresh.

* `scan`: the emissions of a byte sequence.
* `decode`: ill-formed sequences become `U+FFFD`.
* `decode?`: refuses a byte sequence with an ill-formed part.
-/

namespace VirtualFile.Text.Utf8

/-- A sequence under way: how many bytes are missing, the bits so far,
and the bounds of the next byte. -/
structure Pending where
  missing : Nat
  bits : Nat
  low : UInt8
  high : UInt8
  deriving DecidableEq, Repr

/-- What the first byte of a sequence says. -/
inductive Lead
  | complete (c : Char)
  | opens (p : Pending)
  | never

/-- The well-formed first bytes; the bounds exclude overlong forms,
surrogates and values above `U+10FFFF`. -/
def lead (b : UInt8) : Lead :=
  if b < 0x80 then .complete (Char.ofNat b.toNat)
  else if b < 0xC2 then .never
  else if b < 0xE0 then .opens ⟨1, b.toNat - 0xC0, 0x80, 0xBF⟩
  else if b = 0xE0 then .opens ⟨2, 0, 0xA0, 0xBF⟩
  else if b = 0xED then .opens ⟨2, 0xD, 0x80, 0x9F⟩
  else if b < 0xF0 then .opens ⟨2, b.toNat - 0xE0, 0x80, 0xBF⟩
  else if b = 0xF0 then .opens ⟨3, 0, 0x90, 0xBF⟩
  else if b < 0xF4 then .opens ⟨3, b.toNat - 0xF0, 0x80, 0xBF⟩
  else if b = 0xF4 then .opens ⟨3, 4, 0x80, 0x8F⟩
  else .never

/-- Reads a byte that begins a sequence. -/
def start (b : UInt8) : List (Option Char) × Option Pending :=
  match lead b with
  | .complete c => ([some c], none)
  | .opens p => ([], some p)
  | .never => ([none], none)

/-- Reads a byte in the middle of a sequence. -/
def proceed (p : Pending) (b : UInt8) : List (Option Char) × Option Pending :=
  if p.low ≤ b ∧ b ≤ p.high then
    let bits := p.bits * 64 + (b.toNat - 0x80)
    if p.missing ≤ 1 then ([some (Char.ofNat bits)], none)
    else ([], some ⟨p.missing - 1, bits, 0x80, 0xBF⟩)
  else
    let (out, next) := start b
    (none :: out, next)

/-- One byte of the machine. -/
def step : Option Pending → UInt8 → List (Option Char) × Option Pending
  | none, b => start b
  | some p, b => proceed p b

/-- The emissions of the machine; a sequence still open at the end is one ill-formed sequence. -/
def scanFrom : Option Pending → List UInt8 → List (Option Char)
  | none, [] => []
  | some _, [] => [none]
  | st, b :: bs =>
    let (out, next) := step st b
    out ++ scanFrom next bs

/-- Characters and ill-formed sequences in order. -/
def scan (bs : List UInt8) : List (Option Char) := scanFrom none bs

/-- The character that stands for an ill-formed sequence. -/
def replacement : Char := '\uFFFD'

/-- Decodes with one replacement character per ill-formed sequence. -/
def decode (bs : List UInt8) : Text := (scan bs).map (·.getD replacement)

/-- Decodes a well-formed byte sequence only. -/
def decode? (bs : List UInt8) : Option Text := (scan bs).mapM id

/-- The encoding of a text. -/
def encode (t : Text) : List UInt8 := t.flatMap String.utf8EncodeChar

end VirtualFile.Text.Utf8
