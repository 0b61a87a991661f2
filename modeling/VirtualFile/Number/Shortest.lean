import VirtualFile.Number.Binary64
/-!
# Shortest decimal numerals

A number is written with the fewest digits that read back as it, and among those with the digits
nearest to it.

* `rounds`: whether a decimal reads back as `m · 2^e`, decided exactly.
* `shortest`: the digits and the power of ten.
* `Binary64.render`: positional notation for decimal exponents from `-4` to `15`, with `.0` after a
  whole number; otherwise one digit before the point and an exponent of at least two digits.
-/

namespace VirtualFile.Binary64

/-- Compares `a · 10^p` with `b · 2^q`. -/
def compareScaled (a : Nat) (p : Int) (b : Nat) (q : Int) : Ordering :=
  compare (a * tenTo p.toNat * twoTo (-q).toNat) (b * twoTo q.toNat * tenTo (-p).toNat)

/-- Whether `c · 10^p` rounds to `m · 2^e`: it lies between the midpoints to the neighbours, and may
be a midpoint if `m` is even. Below a power of two the neighbour is half as far. -/
def rounds (m : Nat) (e : Int) (c : Nat) (p : Int) : Bool :=
  let low := 4 * m - (if m = leadingBit ∧ -1074 < e then 1 else 2)
  let above := compareScaled c p low (e - 2)
  let below := compareScaled c p (4 * m + 2) (e - 2)
  (above == .gt || (above == .eq && m % 2 == 0)) && (below == .lt || (below == .eq && m % 2 == 0))

/-- `m · 2^e` as a quotient. -/
def ratio (m : Nat) (e : Int) : Nat × Nat := scale m 1 e

/-- The greatest `k` with `10^k ≤ num / den`, found by the number of digits of the quotient. -/
def log10Ratio (num den : Nat) : Int :=
  if den ≤ num then (Nat.toDigits 10 (num / den)).length - 1
  else
    -- the numeral of `⌈den / num⌉ - 1` has as many digits as there
    -- are places before the first digit
    -((Nat.toDigits 10 ((den - 1) / num)).length : Int)

/-- Of the two decimals of the grid `10^p` around `m · 2^e`, the one
that rounds to it, the nearer one if both do. -/
def pick (m : Nat) (e : Int) (p : Int) : Option Nat :=
  let (num, den) := ratio m e
  let (num, den) := if 0 ≤ p then (num, den * tenTo p.toNat) else (num * tenTo (-p).toNat, den)
  let c := num / den
  match rounds m e c p, rounds m e (c + 1) p with
  | true, true => some (roundEven num den)
  | true, false => some c
  | false, true => some (c + 1)
  | false, false => none

/-- Tries grids from `digits` digits on. -/
def search (m : Nat) (e : Int) (top : Int) : Nat → Nat → Nat × Int
  | 0, _ => (m, 0)
  | more + 1, digits =>
    let p := top - digits + 1
    match pick m e p with
    | some c => (c, p)
    | none => search m e top more (digits + 1)

/-- The shortest decimal `c · 10^p` that reads back as `m · 2^e`, for `m` other than zero. -/
def shortest (m : Nat) (e : Int) : Nat × Int :=
  let (num, den) := ratio m e
  search m e (log10Ratio num den) 17 1

/-- Writes the digits of a number `0.d₁d₂… · 10^point`. -/
def layout (digits : Text) (point : Int) : Text :=
  let count : Int := digits.length
  if -4 < point ∧ point ≤ 16 then
    if point ≤ 0 then '0' :: '.' :: List.replicate (-point).toNat '0' ++ digits
    else if point < count then digits.take point.toNat ++ '.' :: digits.drop point.toNat
    else digits ++ List.replicate (point - count).toNat '0' ++ ['.', '0']
  else
    let exponent := point - 1
    let power := Text.ofNat exponent.natAbs
    let power :=
      (if exponent < 0 then '-' else '+') :: (if power.length < 2 then '0' :: power else power)
    match digits with
    | [d] => d :: 'e' :: power
    | d :: ds => d :: '.' :: ds ++ 'e' :: power
    | [] => []

/-- The numeral of a number. -/
def render (x : Binary64) : Text :=
  match x.view with
  | .undefined => "nan".toList
  | .infinite negative => if negative then "-inf".toList else "inf".toList
  | .finite negative m e =>
    let magnitude :=
      if m = 0 then "0.0".toList
      else
        let (c, p) := shortest m e
        let written := Text.ofNat c
        layout (written.dropTrailing (· == '0')) (written.length + p)
    if negative then '-' :: magnitude else magnitude

end VirtualFile.Binary64
