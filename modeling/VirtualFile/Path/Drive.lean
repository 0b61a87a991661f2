import VirtualFile.Path.Style
/-!
# Drives

A Windows path may begin with a drive: a share on a server (`\\server\share`, also written
`\\?\UNC\server\share`) or any one character with a colon. Separators within a drive may
be of either kind. A path that begins like a share but names none is all drive. Posix
paths have no drives.
-/

namespace VirtualFile.Path

/-- Whether a text begins with `\\?\UNC\`, in any letter case and with either separator. -/
def hasUncMark : Text → Bool
  | a :: b :: '?' :: c :: u :: n :: k :: d :: _ =>
    [a, b, c, d].all Style.windows.isSep && [u, n, k].map Char.toUpper == ['U', 'N', 'C']
  | _ => false

/-- Cuts `\\server\share` off: the first `start` characters, then a name, a separator and a name. -/
def splitShare (start : Nat) (p : Text) : Text × Text :=
  let (server, rest) := (p.drop start).span (!Style.windows.isSep ·)
  match rest with
  | [] => (p, [])
  | s :: rest =>
    match rest.span (!Style.windows.isSep ·) with
    | (_, []) => (p, [])
    | (share, rest) => (p.take start ++ server ++ s :: share, rest)

/-- The drive of a Windows path and what follows it. -/
def splitDrive (p : Text) : Text × Text :=
  match p with
  | a :: b :: rest =>
    if Style.windows.isSep a && Style.windows.isSep b then
      splitShare (if hasUncMark p then 8 else 2) p
    else if b = ':' then ([a, b], rest)
    else ([], p)
  | _ => ([], p)

/-- The drive of a path and what follows it. -/
def Style.drive (st : Style) (p : Text) : Text × Text :=
  match st with
  | .posix => ([], p)
  | .windows => splitDrive p

end VirtualFile.Path
