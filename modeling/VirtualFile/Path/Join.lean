import VirtualFile.Path.Normal
/-!
# Joining paths

Segments are put one below the other. Unlike in a file system, a
segment that looks absolute does not discard those before it.
-/

namespace VirtualFile.Path.Style

/-- Whether a text ends with a separator that the style reads. -/
def endsOpen (st : Style) (t : Text) : Bool := t.getLast?.any st.isSep

/-- Writes `segment` below `path`, with a separator between them unless `path` ends with one. -/
def append (st : Style) (path segment : Text) : Text :=
  if st.endsOpen path then path ++ segment else path ++ st.sep :: segment

/-- The segments that are not empty, one below the other, in normal form; `.` if there are none. -/
def join (st : Style) (segments : List Text) : Text :=
  match segments.filter (· ≠ []) with
  | [] => here
  | first :: rest => st.normalize (rest.foldl st.append first)

end VirtualFile.Path.Style
