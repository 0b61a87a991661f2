import VirtualFile.Path.Drive
/-!
# Normal forms of paths

A path is an anchor and components. Normalising writes the anchor in the separator of the style,
drops empty and `.` components, and lets `..` take away the component before it.

* `Style.anchor`: what stands before the components. In posix style it is nothing, `/`, or `//` for
  exactly two leading slashes; in Windows style a drive and a separator, both optional.
* `reduce`: the components that remain.
* `Style.normalize`: the normal form; `.` stands for nothing at all.
-/

namespace VirtualFile.Path

/-- The component that names the directory itself. -/
def here : Text := ['.']

/-- The component that names the parent directory. -/
def up : Text := ['.', '.']

/-- The root of a posix path. -/
def posixRoot : Text → Text
  | '/' :: '/' :: '/' :: _ => ['/']
  | '/' :: '/' :: _ => ['/', '/']
  | '/' :: _ => ['/']
  | _ => []

/-- The anchor of a path, in the separator of the style, and the text of its components. -/
def Style.anchor (st : Style) (p : Text) : Text × Text :=
  match st with
  | .posix => (posixRoot p, p)
  | .windows =>
    let (drive, rest) := splitDrive (p.replace '/' '\\')
    match rest with
    | '\\' :: _ => (drive ++ ['\\'], rest)
    | _ => (drive, rest)

/-- Adds a component to those kept so far, the last one first. Below a
root there is nothing above. -/
def push (rooted : Bool) (kept : List Text) (c : Text) : List Text :=
  if c = [] ∨ c = here then kept
  else if c = up then
    match kept with
    | [] => if rooted then [] else [up]
    | last :: before => if last = up then up :: kept else before
  else c :: kept

/-- The components that remain of a path. -/
def reduce (rooted : Bool) (components : List Text) : List Text :=
  (components.foldl (push rooted) []).reverse

/-- Whether a text ends with the separator that the style writes. -/
def Style.endsWithSep (st : Style) (t : Text) : Bool := t.getLast? == some st.sep

/-- The normal form of a path. -/
def Style.normalize (st : Style) (p : Text) : Text :=
  let (anchor, rest) := st.anchor p
  let kept := reduce (st.endsWithSep anchor) (rest.split (· == st.sep))
  if anchor = [] ∧ kept = [] then here else anchor ++ Text.join st.sep kept

end VirtualFile.Path
