import VirtualFile.Text.Basic
/-!
# Path styles

The two conventions for writing paths. They differ in the separators, and in that a Windows path may
begin with a drive (`Path.Drive`).
-/

namespace VirtualFile.Path

/-- A convention for writing paths. -/
inductive Style
  | posix
  | windows
  deriving DecidableEq, Repr, Inhabited

namespace Style

/-- The separator that the style writes. -/
def sep : Style → Char
  | .posix => '/'
  | .windows => '\\'

/-- The separators that the style reads. -/
def isSep : Style → Char → Bool
  | .posix, c => c == '/'
  | .windows, c => c == '/' || c == '\\'

@[simp] theorem isSep_sep (st : Style) : st.isSep st.sep = true := by cases st <;> rfl

end Style

end VirtualFile.Path
