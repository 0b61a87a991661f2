import VirtualFile.Url.Percent
/-!
# Numeric addresses

The hosts that stand in brackets: addresses of 128 bits, written as groups of 16 bits, and addresses
of a later version, which begin with `v`.

* `isGroupAddress`: eight groups with a colon between neighbours. `::` can stand once for
  one or more groups of zeros, the last two groups can be four decimal octets, and a zone
  can follow after `%`.
* `isVersionedAddress`: `v`, a version in hexadecimal digits, a dot, and anything.
-/

namespace VirtualFile.Url

def isHexDigit (c : Char) : Bool := (Percent.digit? c).isSome

/-- One to four hexadecimal digits. -/
def isGroup (t : Text) : Bool := t ≠ [] && t.length ≤ 4 && t.all isHexDigit

/-- A decimal number below 256 without leading zeros. -/
def isOctet (t : Text) : Bool :=
  t ≠ [] && t.length ≤ 3 && t.all Char.isDigit && (t == ['0'] || t.head? != some '0')
    && Text.natOfDigits t < 256

/-- Four octets with dots between them. -/
def isDotted (t : Text) : Bool :=
  let octets := Text.split (· == '.') t
  octets.length == 4 && octets.all isOctet

/-- How many groups some pieces are, the last of which can be dotted and is then two. -/
def groupCount? (dottedEnd : Bool) : List Text → Option Nat
  | [] => some 0
  | [last] => if isGroup last then some 1 else if dottedEnd && isDotted last then some 2 else none
  | piece :: pieces => if isGroup piece then (groupCount? dottedEnd pieces).map (· + 1) else none

/-- The pieces between single colons; an empty text has none. -/
def pieces (t : Text) : List Text := if t = [] then [] else Text.split (· == ':') t

/-- What stands before and after the first `::`. -/
def cutZeros : Text → Text × Option Text
  | ':' :: ':' :: t => ([], some t)
  | c :: t =>
    let (before, after) := cutZeros t
    (c :: before, after)
  | [] => ([], none)

/-- An address of eight groups, without its zone. -/
def isBareAddress (t : Text) : Bool :=
  match cutZeros t with
  | (all, none) => groupCount? true (pieces all) == some 8
  | (before, some after) =>
    match groupCount? false (pieces before), groupCount? true (pieces after) with
    | some m, some n => m + n ≤ 7
    | _, _ => false

/-- An address of eight groups, with a zone or without. -/
def isGroupAddress (t : Text) : Bool :=
  match Text.cut (· == '%') t with
  | (address, none) => isBareAddress address
  | (address, some zone) => isBareAddress address && zone ≠ [] && !zone.contains '%'

/-- An address of a later version. -/
def isVersionedAddress (t : Text) : Bool :=
  match t with
  | 'v' :: t =>
    match Text.cut (· == '.') t with
    | (version, some rest) => version ≠ [] && version.all isHexDigit && rest ≠ []
    | (_, none) => false
  | _ => false

/-- Whether a host can stand in brackets. -/
def isBracketable (host : Text) : Bool :=
  if host.head? == some 'v' then isVersionedAddress host else isGroupAddress host

end VirtualFile.Url
