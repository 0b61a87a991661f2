import VirtualFile.Path.Style
import VirtualFile.Url.Percent
/-!
# Paths of file URLs

A URL of scheme `file` names a path. An escaped separator is refused,
since it would be taken for one after decoding.

* Posix: the host is empty or `localhost`; the path is the decoded one.
* Windows: another host is the server of a share; without one the path begins with a drive letter.
-/

namespace VirtualFile.Url

/-- Why a URL names no path. -/
inductive FileUrlFault
  | scheme
  | host
  | escapedSlash
  | escapedSeparator
  | relative
  deriving DecidableEq, Repr

namespace FileUrlFault

def message : FileUrlFault → String
  | .scheme => "The URL must be of scheme file"
  | .host => "File URL host must be \"localhost\" or empty"
  | .escapedSlash => "File URL path must not include encoded / characters"
  | .escapedSeparator => "File URL path must not include encoded \\ or / characters"
  | .relative => "File URL path must be absolute"

end FileUrlFault

/-- The host that stands for the machine itself. -/
def localhost : Text := "localhost".toList

/-- Whether a decoded path begins, after an optional slash, with a drive letter and a colon, and
then ends or goes on with a slash. A line break may still come at the end. -/
def hasDriveLetter (decoded : Text) : Bool :=
  let t := match decoded with
    | '/' :: t => t
    | t => t
  match t with
  | letter :: ':' :: rest =>
    letter.isAlpha && (rest.head? == some '/' || rest == [] || rest == ['\n'])
  | _ => false

/-- The path that a file URL names in posix style. -/
def posixPath (host path : Text) : Except FileUrlFault Text :=
  if host ≠ [] ∧ host ≠ localhost then .error .host
  else if Percent.containsEscape [0x2F] path then .error .escapedSlash
  else .ok (Percent.decode path)

/-- The path that a file URL names in Windows style. -/
def windowsPath (host path : Text) : Except FileUrlFault Text :=
  if Percent.containsEscape [0x2F, 0x5C] path then .error .escapedSeparator
  else
    let decoded := Percent.decode path
    if host ≠ [] ∧ host ≠ localhost then .ok ('\\' :: '\\' :: host ++ decoded.replace '/' '\\')
    else if hasDriveLetter decoded then .ok (Text.replace '/' '\\' (decoded.dropWhile (· == '/')))
    else .error .relative

/-- The path that a file URL names. -/
def filePath (st : Path.Style) (host path : Text) : Except FileUrlFault Text :=
  match st with
  | .posix => posixPath host path
  | .windows => windowsPath host path

end VirtualFile.Url
