import VirtualFile.Text.Blank
/-!
# Environment files

A file of bindings `KEY=value`, one a line, optionally after the word `export`. Comments
begin with `#`. A key may stand in single quotes. A value may stand in single or double
quotes, with escapes, and then go over several lines; an unquoted value ends before a
comment that a blank precedes. A line that is no binding is skipped. All line ends count
as one line feed, and a byte order mark in front is no part of the text.

* `EnvFile.plain`: the text without its byte order mark and with uniform line ends.
* `EnvFile.bindings`: the bindings as written; a key without `=` has no value.
* `EnvFile.values`: the last value of each key, with references to other variables resolved.
-/

namespace VirtualFile.EnvFile

def isBreak (c : Char) : Bool := c == '\n'

/-- Blanks within a line. -/
def isBlank (c : Char) : Bool := Text.isSpace c && !isBreak c

/-- A line feed for each line end: a carriage return, a line feed, or both in this order. -/
def lineFeeds : Text → Text
  | '\r' :: '\n' :: t => '\n' :: lineFeeds t
  | '\r' :: t => '\n' :: lineFeeds t
  | c :: t => c :: lineFeeds t
  | [] => []

/-- The text of a file: without a byte order mark, and with uniform line ends. -/
def plain : Text → Text
  | '\ufeff' :: t => lineFeeds t
  | t => lineFeeds t

/-- What follows `export` and blanks; all of the text if it does not begin so. -/
def afterExport (t : Text) : Text :=
  match t with
  | 'e' :: 'x' :: 'p' :: 'o' :: 'r' :: 't' :: c :: rest =>
    if isBlank c then rest.dropWhile isBlank else t
  | t => t

/-- A key and the rest. No key is read before a comment; a text without key is refused. -/
def readKey? (t : Text) : Option (Option Text × Text) :=
  match t with
  | '#' :: _ => some (none, t)
  | '\'' :: rest =>
    match rest.span (· != '\'') with
    | ([], _) => none
    | (_, []) => none
    | (key, _ :: rest) => some (some key, rest)
  | t =>
    match t.span fun c => !(c == '=' || c == '#' || Text.isSpace c) with
    | ([], _) => none
    | (key, rest) => some (some key, rest)

/-- The text up to the first quote that no backslash escapes, with escapes kept, and the rest. -/
def readQuoted? (mark : Char) : Text → Option (Text × Text)
  | [] => none
  | '\\' :: c :: t => (readQuoted? mark t).map fun r => ('\\' :: c :: r.1, r.2)
  | c :: t => if c = mark then some ([], t) else (readQuoted? mark t).map fun r => (c :: r.1, r.2)

/-- Resolves escapes: a backslash before one of the characters of the table. -/
def unescape (table : List (Char × Char)) : Text → Text
  | [] => []
  | '\\' :: c :: t =>
    match table.lookup c with
    | some d => d :: unescape table t
    | none => '\\' :: unescape table (c :: t)
  | c :: t => c :: unescape table t
  termination_by t => t.length

def singleEscapes : List (Char × Char) := [('\\', '\\'), ('\'', '\'')]

def doubleEscapes : List (Char × Char) :=
  [('\\', '\\'), ('\'', '\''), ('"', '"'), ('a', '\x07'), ('b', '\x08'), ('f', '\x0c'), ('n', '\n'),
   ('r', '\r'), ('t', '\t'), ('v', '\x0b')]

/-- An unquoted value without its comment. -/
def dropComment : Text → Text
  | [] => []
  | c :: t =>
    if Text.isSpace c && (t.dropWhile Text.isSpace).head? == some '#' then []
    else c :: dropComment t

/-- The value after `=` and the rest; an open quote is refused. The blanks in front of an unquoted
value can already precede its comment. -/
def readValue? (t : Text) : Option (Text × Text) :=
  match t.dropWhile isBlank with
  | '\'' :: t => (readQuoted? '\'' t).map fun r => (unescape singleEscapes r.1, r.2)
  | '"' :: t => (readQuoted? '"' t).map fun r => (unescape doubleEscapes r.1, r.2)
  | _ =>
    let (line, rest) := t.span (!isBreak ·)
    some (Text.trim Text.isSpace (dropComment line), rest)

/-- What follows the end of the line, which only a comment may precede. -/
def afterLine? (t : Text) : Option Text :=
  let t := match t.dropWhile isBlank with
    | '#' :: rest => rest.dropWhile (!isBreak ·)
    | t => t
  match t with
  | [] => some []
  | c :: rest => if isBreak c then some rest else none

/-- What follows the rest of the line, whatever it is. -/
def skipLine (t : Text) : Text :=
  match t.dropWhile (!isBreak ·) with
  | [] => []
  | _ :: rest => rest

/-- The key and the value of one binding, and the rest. -/
def readBinding (t : Text) : Option (Text × Option Text) × Text :=
  match readKey? (afterExport t) with
  | none => (none, skipLine (afterExport t))
  | some (key, t) =>
    let t := t.dropWhile isBlank
    match t with
    | '=' :: t =>
      match readValue? t with
      | none => (none, skipLine t)
      | some (value, t) =>
        match afterLine? t with
        | none => (none, skipLine t)
        | some rest => (key.map fun k => (k, some value), rest)
    | t =>
      match afterLine? t with
      | none => (none, skipLine t)
      | some rest => (key.map fun k => (k, none), rest)

/-- Reads at most `fuel` bindings. -/
def bindingsTo : Nat → Text → List (Text × Option Text)
  | 0, _ => []
  | fuel + 1, t =>
    match t.dropWhile Text.isSpace with
    | [] => []
    | t =>
      match readBinding t with
      | (some b, rest) => b :: bindingsTo fuel rest
      | (none, rest) => bindingsTo fuel rest

/-- The bindings of a file in order. -/
def bindings (t : Text) : List (Text × Option Text) := bindingsTo (t.length + 1) (plain t)

/-! ### References to variables -/

/-- A reference `$\x7bname\x7d` or `$\x7bname:-default\x7d` at the start of a text, and the rest. -/
def reference? : Text → Option (Text × Option Text × Text)
  | '$' :: '\x7b' :: t =>
    match t.span fun c => !(c == '\x7d' || c == ':') with
    | (name, '\x7d' :: rest) => some (name, none, rest)
    | (name, ':' :: '-' :: t) =>
      match t.span (· != '\x7d') with
      | (value, _ :: rest) => some (name, some value, rest)
      | (_, []) => none
    | _ => none
  | _ => none

/-- Replaces references by what `look` gives, else by their default. -/
def resolveTo (look : Text → Option (Option Text)) : Nat → Text → Text
  | 0, t => t
  | _ + 1, [] => []
  | fuel + 1, c :: t =>
    match reference? (c :: t) with
    | none => c :: resolveTo look fuel t
    | some (name, default?, rest) =>
      (match look name with
        | some (some value) => value
        | some none => []
        | none => default?.getD []) ++ resolveTo look fuel rest

/-- Assigns a value at the place of the key, or at the end. -/
def assign (key : Text) (value : Option Text) : List (Text × Option Text) →
    List (Text × Option Text)
  | [] => [(key, value)]
  | (k, v) :: rest => if k = key then (k, value) :: rest else (k, v) :: assign key value rest

/-- The values of the keys in the order of their first binding. A reference sees the values before
it and then the environment. -/
def values (environment : List (Text × Text)) (t : Text) : List (Text × Option Text) :=
  (bindings t).foldl
    (fun done b =>
      let look (name : Text) : Option (Option Text) :=
        match done.lookup name with
        | some v => some v
        | none => (environment.lookup name).map some
      assign b.1 (b.2.map fun v => resolveTo look (v.length + 1) v) done)
    []

end VirtualFile.EnvFile
