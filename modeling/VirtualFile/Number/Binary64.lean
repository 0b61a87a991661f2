import VirtualFile.Text.Digit
/-!
# Binary floating-point numbers

A number of 64 bits is a sign, an exponent of 11 bits and a fraction of 52 bits. All arithmetic on
it is on the natural numbers `m` and the integer `e` of its value `m · 2^e`.

* `Binary64.view`: what the bits mean.
* `Binary64.ofRatio`: the nearest number to a quotient, ties to the even fraction.
* `Binary64.ofText?`: reads a decimal numeral.
-/

namespace VirtualFile

/-- A number by its bits. -/
structure Binary64 where
  bits : UInt64
  deriving DecidableEq, Repr, Inhabited

namespace Binary64

/-- The meaning of the bits. -/
inductive View
  /-- The number `m · 2^e`, negated if `negative`. -/
  | finite (negative : Bool) (m : Nat) (e : Int)
  | infinite (negative : Bool)
  | undefined
  deriving DecidableEq, Repr

/-- `2^n`. -/
def twoTo (n : Nat) : Nat := Nat.pow 2 n

/-- `10^n`. -/
def tenTo (n : Nat) : Nat := Nat.pow 10 n

/-- The bit above the fraction, `2^52`, which the fraction leaves out. -/
def leadingBit : Nat := 0x10000000000000

def negative (x : Binary64) : Bool := x.bits >>> 63 == 1

def exponentField (x : Binary64) : Nat := ((x.bits >>> 52) &&& 0x7FF).toNat

def fraction (x : Binary64) : Nat := (x.bits &&& 0xFFFFFFFFFFFFF).toNat

def view (x : Binary64) : View :=
  if x.exponentField = 0x7FF then
    if x.fraction = 0 then .infinite x.negative else .undefined
  else if x.exponentField = 0 then .finite x.negative x.fraction (-1074)
  else .finite x.negative (x.fraction + leadingBit) (x.exponentField - 1075)

def signBit (negative : Bool) : UInt64 := if negative then 0x8000000000000000 else 0

def infinity (negative : Bool) : Binary64 := ⟨signBit negative ||| 0x7FF0000000000000⟩

/-- The number that stands for no number. -/
def nan : Binary64 := ⟨0x7FF8000000000000⟩

/-- One of the many that stand for no number, by its number among them. -/
def unnumbered (k : Nat) : Binary64 := ⟨nan.bits ||| (UInt64.ofNat k &&& 0x7FFFFFFFFFFFF)⟩

/-- `num / den` rounded to a natural number, a half to the even neighbour. -/
def roundEven (num den : Nat) : Nat :=
  let q := num / den
  let r := num % den
  if 2 * r < den then q else if 2 * r > den then q + 1 else if q % 2 = 0 then q else q + 1

/-- `num / den` times `2^s`, as a quotient. -/
def scale (num den : Nat) (s : Int) : Nat × Nat :=
  if 0 ≤ s then (num * twoTo s.toNat, den) else (num, den * twoTo (-s).toNat)

/-- The greatest `k` with `2^k ≤ num / den`. -/
def log2Ratio (num den : Nat) : Int :=
  let k : Int := num.log2 - den.log2
  let (a, b) := scale num den (-k)
  if b ≤ a then k else k - 1

/-- The number nearest to `num / den`. -/
def ofRatio (negative : Bool) (num den : Nat) : Binary64 :=
  if num = 0 then ⟨signBit negative⟩
  else
    let e : Int := max (log2Ratio num den - 52) (-1074)
    let (a, b) := scale num den (-e)
    let m := roundEven a b
    -- adding the fields lets a carry out of the fraction raise the exponent
    let field : Nat :=
      if m < leadingBit then m else (e + 1075).toNat * leadingBit + (m - leadingBit)
    if field < 0x7FF * leadingBit then ⟨signBit negative ||| UInt64.ofNat field⟩
    else infinity negative

/-- The number nearest to `m · 10^e`. Exponents far outside the range are not expanded. -/
def ofDecimal (negative : Bool) (m : Nat) (e : Int) : Binary64 :=
  if m = 0 then ⟨signBit negative⟩
  else
    let digits : Int := (Nat.toDigits 10 m).length
    if 400 < e + digits then infinity negative
    else if e + digits < -400 then ⟨signBit negative⟩
    else if 0 ≤ e then ofRatio negative (m * tenTo e.toNat) 1
    else ofRatio negative m (tenTo (-e).toNat)

/-- Digits, with single underscores allowed between two of them, and the rest of the text. -/
def takeDigits : Text → Text × Text
  | c :: '_' :: d :: t =>
    if c.isDigit && d.isDigit then
      let (ds, rest) := takeDigits (d :: t)
      (c :: ds, rest)
    else if c.isDigit then ([c], '_' :: d :: t) else ([], c :: '_' :: d :: t)
  | c :: t =>
    if c.isDigit then
      let (ds, rest) := takeDigits t
      (c :: ds, rest)
    else ([], c :: t)
  | [] => ([], [])
  termination_by t => t.length

/-- The sign in front of a numeral, and the rest. -/
def takeSign : Text → Bool × Text
  | '-' :: t => (true, t)
  | '+' :: t => (false, t)
  | t => (false, t)

/-- Reads an exponent part, if there is one, up to the end. -/
def readExponent? : Text → Option Int
  | [] => some 0
  | c :: t =>
    if c = 'e' ∨ c = 'E' then
      let (negative, t) := takeSign t
      match takeDigits t with
      | ([], _) => none
      | (ds, []) => some (if negative then -Text.natOfDigits ds else Text.natOfDigits ds)
      | _ => none
    else none

/-- Reads an unsigned numeral. -/
def readMagnitude? (negative : Bool) (t : Text) : Option Binary64 :=
  if t.lower.isOneOf ["inf", "infinity"] then some (infinity negative)
  else if t.lower.isOneOf ["nan"] then some nan
  else
    let (whole, t) := takeDigits t
    let (part, t) := match t with
      | '.' :: t => takeDigits t
      | t => ([], t)
    if whole = [] ∧ part = [] then none
    else
      (readExponent? t).map fun e =>
        ofDecimal negative (Text.natOfDigits (whole ++ part)) (e - part.length)

/-- Reads a decimal numeral in the digits of any script, with blanks allowed around it. -/
def ofText? (t : Text) : Option Binary64 := do
  let (negative, t) := takeSign (Text.trim Text.isAsciiSpace (← Text.asciiNumeral? t))
  readMagnitude? negative t

/-- Whether the number is other than zero. -/
def nonzero (x : Binary64) : Bool := x.bits <<< 1 != 0

/-- Whether the number is the integer `n`. -/
def isInt (x : Binary64) (n : Int) : Bool :=
  match x.view with
  | .finite negative m e =>
    let s : Int := if negative then -m else m
    if 0 ≤ e then s * twoTo e.toNat == n else s == n * twoTo (-e).toNat
  | _ => false

/-- Equality of values: zeros are equal whatever their sign, and `nan` equals nothing. -/
def equal (x y : Binary64) : Bool :=
  match x.view, y.view with
  | .undefined, _ => false
  | _, .undefined => false
  | .finite _ 0 _, .finite _ 0 _ => true
  | _, _ => x == y

end Binary64

end VirtualFile
