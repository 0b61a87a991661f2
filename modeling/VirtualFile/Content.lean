import VirtualFile.Text.Charset
import VirtualFile.World
/-!
# Content as text

The content of a file is text, bytes that are decoded, or any other value, which is shown. A label
that names no encoding is reported, and the default encoding of the file used instead.

* `Store.decoder?`: the decoder that a label names.
* `Action.codecLabel`: the label by which content is decoded.
* `Action.shown`: the text of a value. Messages, files and failures have a text of their own; other
  compound values are shown in their written form.
* `Action.content`: the content of a file as text.
-/

namespace VirtualFile

/-- Decodes by a codec that is built in. -/
def Text.Codec.decode : Text.Codec → Decoder
  | .charset c, bs => .ok (c.decode bs)
  | .transformation, _ => .error .unknownEncoding
  | .strict, _ => .error .undecodable

namespace Store

/-- The decoder that a label names. What is built in comes before what is not. -/
def decoder? (s : Store) (label : Text) : Option Decoder :=
  match Text.Codec.ofLabel? label with
  | some c => some c.decode
  | none => s.codecs (Text.Codec.normalizeLabel label)

/-- Decodes bytes by a label. No label is needed for no bytes. -/
def decodeBytes (s : Store) (label : Value) (bs : List UInt8) : Except Fault Text :=
  match label with
  | .text t =>
    if t.contains '\x00' then .error .badValue
    else if bs = [] then .ok []
    else match s.decoder? t with
      | some decode => decode bs
      | none => .error .unknownEncoding
  | _ => .error .mistyped

end Store

namespace Action

/-- The label by which the content of a file is decoded: the given one, or the default of
the file where none is given or where the given one is unknown. `shown` shows the values
that the report mentions. -/
def codecLabel (shown : Value → Action Text) (f : File) (encoding : Value) : Action Value := do
  let s ← store
  let label := if s.truthy encoding then encoding else f.encoding
  match label with
  | .text t =>
    if t.contains '\x00' then throw .badValue
    match s.decoder? t with
    | some _ => return label
    | none =>
      let some n := f.naming | throw .noAttribute
      let path ← if s.truthy n.path then shown n.path else pure "<no path>".toList
      note (.unknownEncoding t path (← shown f.encoding))
      return f.encoding
  | _ => throw .mistyped

/-- The content of a file as text; `shown` shows a value that is neither text nor bytes. -/
def contentWith (shown : Value → Action Text) (f : File) (encoding : Value) : Action Text := do
  if (f.extra.lookup "to_string").isSome then throw .mistyped
  match f.value with
  | .null => return []
  | .text t => return t
  | v =>
    match (← store).bytes? v with
    | some bs =>
      let label ← codecLabel shown f encoding
      ofStore (·.decodeBytes label bs)
    | none => shown v

/-- `[Errno N] text`, with null for what is missing. -/
def systemHead (shown : Value → Action Text) (e : SystemError) : Action Text := do
  return "[Errno ".toList ++ (← shown (e.code.getD .null)) ++
    ']' :: ' ' :: (← shown (e.text.getD .null))

/-- The text of an error of the operating system that is about a file or has a number and a text;
none for another one. A second file is shown only after a first. -/
def systemText? (shown : Value → Action Text) (e : SystemError) : Action (Option Text) := do
  match e.file, e.other with
  | some file, none => return (← systemHead shown e) ++ ':' :: ' ' :: (← ofStore (·.written file))
  | some file, some other =>
    return (← systemHead shown e) ++ ':' :: ' ' :: (← ofStore (·.written file)) ++ " -> ".toList
      ++ (← ofStore (·.written other))
  | none, _ => if e.code.isSome ∧ e.text.isSome then systemHead shown e else return none

/-- The text of a failure: that of its only argument, or else its arguments. -/
def failureText (shown : Value → Action Text) (f : Failure) : Action Text := do
  match ← systemText? shown f.system with
  | some t => return t
  | none =>
    match f.kind, ← ofStore (·.items f.args) with
    | _, [] => return []
    | .noKey, [v] => ofStore (·.written v)
    | _, [v] => shown v
    | _, _ => ofStore (·.written f.args)

/-- The text of a value to a given depth. -/
def showTo : Nat → Value → Action Text
  | 0, _ => throw .tooDeep
  | depth + 1, v => do
    match v, ← cell? v with
    | .text t, _ => return t
    | _, some (.message m) =>
      return (← showTo depth m.name) ++ ':' :: ' ' :: (← showTo depth m.reason)
    | _, some (.file f) => contentWith (showTo depth) f .null
    | _, some (.failure f) => failureText (showTo depth) f
    | v, _ => ofStore (·.written v)

/-- The text of a value. -/
def shown (v : Value) : Action Text := do showTo ((← store).weight + v.weight + 1) v

/-- The content of a file as text. -/
def content (v encoding : Value) : Action Text := do
  let (_, f) ← file v
  contentWith shown f encoding

end Action

end VirtualFile
