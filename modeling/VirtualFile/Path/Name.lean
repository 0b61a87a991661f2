import VirtualFile.Path.Drive
/-!
# Names within paths

Separators at the end of a path do not count, unless the path is nothing else.

* `Style.parent`: the path of the directory that holds the last component, `.` if none is written.
* `Style.name`: the last component; `Style.nameWithout` also cuts a given ending.
* `splitExtension`, `Style.extension`: the ending of a name from its
  last dot; dots at the start of a name begin no extension.
-/

namespace VirtualFile.Path

namespace Style

/-- A path without the separators at its end; of a path of separators only, the first. -/
def trim (st : Style) (p : Text) : Text :=
  match p.dropTrailing st.isSep with
  | [] => p.take 1
  | q => q

/-- The part of a path up to its last component and that component. Separators between them are
dropped, unless nothing but separators comes before the component. -/
def splitName (st : Style) (p : Text) : Text × Text :=
  let (drive, rest) := st.drive p
  let front := rest.dropTrailing (!st.isSep ·)
  let head := match front.dropTrailing st.isSep with
    | [] => front
    | t => t
  (drive ++ head, rest.takeTrailing (!st.isSep ·))

/-- The path of the directory. -/
def parent (st : Style) (p : Text) : Text :=
  match (st.splitName (st.trim p)).1 with
  | [] => ['.']
  | d => d

/-- The last component. -/
def name (st : Style) (p : Text) : Text := (st.splitName (st.trim p)).2

/-- The last component without the ending `ext`, if that leaves something. -/
def nameWithout (st : Style) (p ext : Text) : Text :=
  let n := st.name p
  if ext ≠ [] ∧ n ≠ ext ∧ ext.isSuffixOf n then n.take (n.length - ext.length) else n

end Style

/-- A name as its stem and its extension. -/
def splitExtension (n : Text) : Text × Text :=
  let stem := (n.dropTrailing (· != '.')).dropLast
  if stem.any (· != '.') then (stem, '.' :: n.takeTrailing (· != '.')) else (n, [])

/-- The extension of a path: empty, or a dot and what follows it. -/
def Style.extension (st : Style) (p : Text) : Text := (splitExtension (st.name p)).2

end VirtualFile.Path
