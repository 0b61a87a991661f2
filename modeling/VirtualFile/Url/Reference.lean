import VirtualFile.Url.Authority
/-!
# URL references

A written URL is taken apart into scheme, authority, path, parameters, query and fragment.
Blanks and controls in front, and all tabs and line breaks, are dropped first. `render`
writes the parts again.
-/

namespace VirtualFile.Url

/-- The parts of a URL. -/
structure Reference where
  scheme : Text := []
  authority : Text := []
  path : Text := []
  params : Text := []
  query : Text := []
  fragment : Text := []
  deriving DecidableEq, Repr

namespace Reference

/-- The schemes whose last path segment may end in parameters after a `;`. -/
def withParams : List String :=
  ["", "ftp", "hdl", "prospero", "http", "imap", "https", "shttp", "rtsp", "rtspu", "sip",
   "sips", "mms", "sftp", "tel"]

/-- The schemes that are written with an authority even if it is empty. -/
def withAuthority : List String :=
  ["", "ftp", "http", "gopher", "nntp", "telnet", "imap", "wais", "file", "mms", "https", "shttp",
   "snews", "prospero", "rtsp", "rtspu", "rsync", "svn", "svn+ssh", "sftp", "nfs", "git", "git+ssh",
   "ws", "wss"]

def isSchemeChar (c : Char) : Bool := c.isAlphanum || c == '+' || c == '-' || c == '.'

/-- The scheme in lower case, if the text begins with one, and the rest. -/
def splitScheme (t : Text) : Text × Text :=
  match Text.cut (· == ':') t with
  | (c :: scheme, some rest) =>
    if c.isAlpha && scheme.all isSchemeChar then (Text.lower (c :: scheme), rest) else ([], t)
  | _ => ([], t)

/-- The authority after `//`, and the rest. -/
def splitAuthority : Text → Text × Text
  | '/' :: '/' :: t => t.span fun c => !(c == '/' || c == '?' || c == '#')
  | t => ([], t)

/-- The parameters after the first `;` of the last segment. -/
def splitParams (path : Text) : Text × Text :=
  let (front, last) := (path.dropTrailing (· != '/'), path.takeTrailing (· != '/'))
  match Text.cut (· == ';') last with
  | (_, none) => (path, [])
  | (name, some params) => (front ++ name, params)

/-- Takes a written URL apart; an unsound authority is refused. -/
def ofText? (t : Text) : Option Reference :=
  let t := (t.dropWhile (· ≤ ' ')).filter fun c => !(c == '\t' || c == '\n' || c == '\r')
  let (scheme, t) := splitScheme t
  let (authority, t) := splitAuthority t
  if !Authority.isSound authority then none
  else
    let (t, fragment) := Text.cut (· == '#') t
    let (path, query) := Text.cut (· == '?') t
    let (path, params) := if scheme.isOneOf withParams then splitParams path else (path, [])
    some ⟨scheme, authority, path, params, query.getD [], fragment.getD []⟩

/-- Writes the parts of a URL. -/
def render (r : Reference) : Text :=
  let path := if r.params = [] then r.path else r.path ++ ';' :: r.params
  let path :=
    if r.authority ≠ [] ∨
        (r.scheme ≠ [] ∧ r.scheme.isOneOf withAuthority ∧ !("//".toList.isPrefixOf path)) then
      '/' :: '/' :: r.authority ++ (if path = [] ∨ path.head? = some '/' then path else '/' :: path)
    else path
  let t := if r.scheme = [] then path else r.scheme ++ ':' :: path
  let t := if r.query = [] then t else t ++ '?' :: r.query
  if r.fragment = [] then t else t ++ '#' :: r.fragment

end Reference

end VirtualFile.Url
