import VirtualFile.Text.LowerCase
import VirtualFile.Url.Address
/-!
# Authorities

The authority of a URL, `user:password@host:number`, says whom to ask. The host may stand in
brackets, which keep its colons apart from the one before the number.

* `Authority.ofText`: the parts of a written authority.
* `Authority.isSound`: whether the brackets and the characters of a
  written authority can be trusted.
-/

namespace VirtualFile.Url

/-- The parts of an authority. -/
structure Authority where
  user : Option Text := none
  password : Option Text := none
  host : Text
  deriving DecidableEq, Repr

namespace Authority

/-- The user and the password before the last `@`, if there is one, and what follows it. -/
def splitUser (t : Text) : Option Text × Text :=
  match Text.cutLast (· == '@') t with
  | (all, none) => (none, all)
  | (user, some rest) => (some user, rest)

/-- The host: what the brackets hold, or else what precedes the first colon. -/
def hostOf (t : Text) : Text :=
  match Text.cut (· == '[') t with
  | (_, some bracketed) => (Text.cut (· == ']') bracketed).1
  | (_, none) => (Text.cut (· == ':') t).1

/-- Takes a written authority apart. -/
def ofText (t : Text) : Authority :=
  let (user, rest) := splitUser t
  match user.map (Text.cut (· == ':')) with
  | none => { host := hostOf rest }
  | some (user, password) => { user := some user, password, host := hostOf rest }

/-- The host in lower case, if there is one; a zone after `%` keeps its case. -/
def hostName? (a : Authority) : Option Text :=
  if a.host = [] then none
  else match Text.cut (· == '%') a.host with
    | (name, none) => some (Text.lowerCase name)
    | (name, some zone) => some (Text.lowerCase name ++ '%' :: zone)

/-! ### Soundness -/

/-- Characters that stand for one of the delimiters `/`, `?`, `#`, `@` and `:` once they are
replaced by what they are compatible with. -/
def lookalikes : List Char :=
  ['\u2047', '\u2048', '\u2049', '\u2100', '\u2101', '\u2105', '\u2106', '\u2a74', '\ufe13',
   '\ufe16', '\ufe55', '\ufe56', '\ufe5f', '\ufe6b', '\uff03', '\uff0f', '\uff1a', '\uff1f',
   '\uff20']

/-- Whether only an address stands in the brackets, nothing before
them, and after them nothing or a colon. -/
def hasSoundBrackets (t : Text) : Bool :=
  let rest := (splitUser t).2
  match Text.cut (· == '[') rest with
  | (_, none) => isBracketable (Text.cut (· == ':') rest).1
  | (before, some bracketed) =>
    let (host, after) := Text.cut (· == ']') bracketed
    before == [] && ((after.getD []).head?.getD ':' == ':') && isBracketable host

/-- Whether a written authority can be trusted: its brackets are closed and hold an address, and no
character in it looks like a delimiter. -/
def isSound (t : Text) : Bool :=
  t.contains '[' == t.contains ']' && (!t.contains '[' || hasSoundBrackets t) &&
  !t.any lookalikes.contains

end Authority

end VirtualFile.Url
