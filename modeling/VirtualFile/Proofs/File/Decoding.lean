import VirtualFile.Proofs.File.Fresh
import VirtualFile.Proofs.Text.Encoding
/-!
# Reading the content

Texts are read as they are. Bytes are decoded by the label that is asked for if it is known, and
else by the default of the maker, which nobody has checked: where that one is not known either,
reading is refused. So reading always gives a text if and only if the labels allow it
(`Construction.content_iff`), whichever codecs are known beside those that are built in, and
whatever these refuse. A text that is kept as its encoding is read back by every label that does not
lead away from the default (`Action.content_encode`).

* `wantedLabel`, `Store.chosenLabel`: the label that is tried first, and the one that is used.
* `Decodable`: the bytes that can be decoded by them.
* `File.Readable`: a file of which the content can be read.
* `Action.outcome_content_bytes`: reading bytes, with what is reported.
-/

namespace VirtualFile

/-! ### Labels -/

/-- The label that is asked for, or the default where none is given. -/
def wantedLabel (default : Text) : Option Text → Text
  | some (c :: t) => c :: t
  | _ => default

/-- The label by which bytes are decoded: the wanted one if it is known. -/
def Store.chosenLabel (s : Store) (default wanted : Text) : Text :=
  if (s.decoder? wanted).isSome then wanted else default

/-- **Bytes that can be decoded.** No decoder is needed for no bytes,
but a label with a NUL is always refused. -/
structure Decodable (s : Store) (wanted chosen : Text) (bs : List UInt8) : Prop where
  wanted_nul : '\x00' ∉ wanted
  chosen_nul : '\x00' ∉ chosen
  decoded : bs = [] ∨ ∃ decode x, s.decoder? chosen = some decode ∧ decode bs = .ok x

namespace Store
variable {s : Store} {label : Text} {bs : List UInt8}

/-- A charset that is built in decodes all bytes. -/
theorem decoder?_charset {c : Text.Charset} (h : Text.Codec.ofLabel? label = some (.charset c)) :
    s.decoder? label = some fun bs => .ok (c.decode bs) := by
  rw [decoder?, h]
  rfl

theorem decodeBytes_nul (h : '\x00' ∈ label) :
    s.decodeBytes (.text label) bs = .error .badValue := by
  simp [decodeBytes, h]

theorem decodeBytes_nil (h : '\x00' ∉ label) : s.decodeBytes (.text label) [] = .ok [] := by
  simp [decodeBytes, h]

theorem decodeBytes_some (h : '\x00' ∉ label) (hbs : bs ≠ []) {decode : Decoder}
    (hdecode : s.decoder? label = some decode) : s.decodeBytes (.text label) bs = decode bs := by
  simp [decodeBytes, h, hbs, hdecode]

theorem decodeBytes_none (h : '\x00' ∉ label) (hbs : bs ≠ []) (hdecode : s.decoder? label = none) :
    s.decodeBytes (.text label) bs = .error .unknownEncoding := by
  simp [decodeBytes, h, hbs, hdecode]

end Store

/-! ### The label of UTF-8 -/

/-- The label of UTF-8. -/
def utf8Label : Text := "utf-8".toList

theorem ofLabel?_utf8Label : Text.Codec.ofLabel? utf8Label = some (.charset .utf8) := by
  decide +kernel

theorem Store.decoder?_utf8Label (s : Store) :
    s.decoder? utf8Label = some fun bs => .ok (Text.Charset.utf8.decode bs) :=
  decoder?_charset ofLabel?_utf8Label

theorem Store.decodeBytes_encode (s : Store) (t : Text) :
    s.decodeBytes (.text utf8Label) (Text.Utf8.encode t) = .ok t := by
  have hnul : '\x00' ∉ utf8Label := by decide
  by_cases hnil : Text.Utf8.encode t = []
  · obtain rfl : t = [] := by
      rw [← Text.Utf8.decode_encode t, hnil]
      rfl
    exact decodeBytes_nil hnul
  · rw [decodeBytes_some hnul hnil s.decoder?_utf8Label]
    exact congrArg _ (Text.Utf8.decode_encode t)

/-! ### Reading -/

/-- **A file of which the content can be read**: its paths are texts,
and so is its default label. -/
structure File.Readable (d : Text) (f : File) : Prop where
  encoding : f.encoding = .text d
  naming : ∃ st, ∃ ts : List Text, f.naming = some ⟨st, ts.map .text⟩
  plain : f.extra.lookup "to_string" = none

/-- The path of a file as a report shows it. -/
def File.reportedPath (f : File) : Text :=
  match f.naming.map Naming.path with
  | some (.text (c :: t)) => c :: t
  | _ => "<no path>".toList

/-- What is reported when a label is looked up: nothing, unless it is not known. -/
def File.lookupReport (f : File) (s : Store) (default wanted : Text) : List Entry :=
  if (s.decoder? wanted).isSome then [] else [.unknownEncoding wanted f.reportedPath default]

namespace Action
variable {w : World} {f : File} {d : Text} {v : Value}

theorem wanted_eq (hf : f.Readable d) (s : Store) (encoding : Option Text) :
    (if s.truthy (.ofText? encoding) then .ofText? encoding else f.encoding) =
      Value.text (wantedLabel d encoding) := by
  rcases encoding with _ | _ | ⟨c, t⟩
  · simp [Value.ofText?, Store.truthy, wantedLabel, hf.encoding]
  · simp [Value.ofText?, Store.truthy, wantedLabel, hf.encoding]
  · simp [Value.ofText?, Store.truthy, wantedLabel]

theorem outcome_codecLabel_nul (hf : f.Readable d) {encoding : Option Text}
    (h : '\x00' ∈ wantedLabel d encoding) :
    (codecLabel shown f (.ofText? encoding)).outcome w = (.error .badValue, w) := by
  rw [codecLabel, outcome_bind_ok _ (outcome_store w)]
  simp only [wanted_eq hf, List.contains_eq_mem, h, decide_true, if_true]
  rfl

/-- **Looking up a label**: a wanted label that is not known is reported, and the default used. -/
theorem outcome_codecLabel (hf : f.Readable d) {encoding : Option Text}
    (h : '\x00' ∉ wantedLabel d encoding) : (codecLabel shown f (.ofText? encoding)).outcome w =
      (.ok (.text (w.store.chosenLabel d (wantedLabel d encoding))),
        { w with journal := w.journal ++ f.lookupReport w.store d (wantedLabel d encoding) }) := by
  obtain ⟨st, ts, hn⟩ := hf.naming
  rw [codecLabel, outcome_bind_ok _ (outcome_store w)]
  simp only [wanted_eq hf, List.contains_eq_mem, h, decide_false, Store.chosenLabel,
    File.lookupReport]
  cases hlabel : w.store.decoder? (wantedLabel d encoding) with
  | some decode =>
    simp only [Option.isSome_some, if_true, List.append_nil]
    rfl
  | none =>
    -- the report shows texts only, so it is not refused
    simp only [hn, hf.encoding, File.reportedPath, Option.map_some, Naming.path_of_history,
      Option.isSome_none]
    rcases ts.getLast? with _ | _ | ⟨c, t⟩ <;> rfl

theorem outcome_contentWith_bytes (hf : f.Readable d) {bs : List UInt8}
    (hbs : w.store.bytes? f.value = some bs) (encoding : Value) :
    (contentWith shown f encoding).outcome w = (do
      let label ← codecLabel shown f encoding
      ofStore (·.decodeBytes label bs) : Action Text).outcome w := by
  rw [contentWith, hf.plain]
  simp only [Option.isSome_none, Bool.false_eq_true, if_false]
  cases hvalue : f.value with
  | null => exact absurd hbs (by simp [hvalue, Store.bytes?, Store.cell?])
  | text t => exact absurd hbs (by simp [hvalue, Store.bytes?, Store.cell?])
  | _ =>
    rw [hvalue] at hbs
    simp only []
    rw [outcome_bind_ok _ (outcome_store w)]
    simp only [hbs]

theorem outcome_content (hf : w.store.file? v = some f) (encoding : Value) :
    (content v encoding).outcome w = (contentWith shown f encoding).outcome w := by
  obtain ⟨r, rfl⟩ := Store.exists_ref (Store.cell?_eq_of_file? hf)
  rw [content, outcome_bind_ok _ (outcome_file hf)]

section Bytes
variable (hf : w.store.file? v = some f) (hr : f.Readable d) {bs : List UInt8}
  (hbs : w.store.bytes? f.value = some bs) {encoding : Option Text}
include hf hr hbs

/-- **Reading bytes** decodes them by the label in use, after the lookup has been reported. -/
theorem outcome_content_bytes (hwanted : '\x00' ∉ wantedLabel d encoding) :
    (content v (.ofText? encoding)).outcome w =
      (w.store.decodeBytes (.text (w.store.chosenLabel d (wantedLabel d encoding))) bs,
        { w with journal := w.journal ++ f.lookupReport w.store d (wantedLabel d encoding) }) := by
  rw [outcome_content hf, outcome_contentWith_bytes hr hbs,
    outcome_bind_ok _ (outcome_codecLabel hr hwanted), outcome_ofStore]

theorem returns_content_bytes
    (h : Decodable w.store (wantedLabel d encoding)
      (w.store.chosenLabel d (wantedLabel d encoding)) bs) :
    (content v (.ofText? encoding)).Returns w fun x _ => bs = [] ∧ x = [] ∨
      ∃ decode, w.store.decoder? (w.store.chosenLabel d (wantedLabel d encoding)) = some decode ∧
        decode bs = .ok x := by
  obtain ⟨hwanted, hchosen, hdecoded⟩ := h
  rw [Returns, outcome_content_bytes hf hr hbs hwanted]
  by_cases hnil : bs = []
  · subst hnil
    exact ⟨[], _, by rw [Store.decodeBytes_nil hchosen], .inl ⟨rfl, rfl⟩⟩
  · obtain ⟨decode, x, hdecode, hx⟩ := hdecoded.resolve_left hnil
    exact ⟨x, _, by rw [Store.decodeBytes_some hchosen hnil hdecode, hx],
      .inr ⟨decode, hdecode, hx⟩⟩

/-- What cannot be decoded is refused: for a NUL, because the label in
use is not known, or by its decoder. -/
theorem refused_content_bytes
    (h : ¬ Decodable w.store (wantedLabel d encoding)
      (w.store.chosenLabel d (wantedLabel d encoding)) bs) :
    ∃ e, ((content v (.ofText? encoding)).outcome w).1 = .error e ∧
      (e = .badValue ∨ e = .unknownEncoding ∨
        ∃ decode, w.store.decoder? (w.store.chosenLabel d (wantedLabel d encoding)) = some decode ∧
          decode bs = .error e) := by
  by_cases hwanted : '\x00' ∈ wantedLabel d encoding
  · refine ⟨_, ?_, .inl rfl⟩
    rw [outcome_content hf, outcome_contentWith_bytes hr hbs,
      outcome_bind_error _ (outcome_codecLabel_nul hr hwanted)]
  rw [outcome_content_bytes hf hr hbs hwanted]
  by_cases hchosen : '\x00' ∈ w.store.chosenLabel d (wantedLabel d encoding)
  · exact ⟨_, Store.decodeBytes_nul hchosen, .inl rfl⟩
  have hnil : bs ≠ [] := fun hnil => h ⟨hwanted, hchosen, .inl hnil⟩
  cases hdecode : w.store.decoder? (w.store.chosenLabel d (wantedLabel d encoding)) with
  | none => exact ⟨_, Store.decodeBytes_none hchosen hnil hdecode, .inr (.inl rfl)⟩
  | some decode =>
    rw [Store.decodeBytes_some hchosen hnil hdecode]
    cases hx : decode bs with
    | error e => exact ⟨e, rfl, .inr (.inr ⟨decode, rfl, hx⟩)⟩
    | ok x => exact absurd ⟨hwanted, hchosen, .inr ⟨decode, x, hdecode, hx⟩⟩ h

end Bytes

/-! ### Texts that are kept as bytes -/

/-- **A text that is kept as bytes is read back.** If the content of a file is the encoding of a
text, in bytes of any kind, and UTF-8 is its default, then the text is read back if no encoding is
asked for, an empty one or the default itself, and nothing else happens. It is read back as well if
the label that is asked for is not known; this is reported once. -/
theorem content_encode (hf : w.store.file? v = some f) (hr : f.Readable utf8Label) {t : Text}
    (hvalue : w.store.bytes? f.value = some (Text.Utf8.encode t)) :
    (∀ encoding ∈ [none, some [], some utf8Label],
      (content v (.ofText? encoding)).outcome w = (.ok t, w)) ∧
      ∀ label, label ≠ [] → '\x00' ∉ label → w.store.decoder? label = none →
        (content v (.text label)).outcome w =
          (.ok t, { w with
            journal := w.journal ++ [.unknownEncoding label f.reportedPath utf8Label] }) := by
  have hread : ∀ encoding, '\x00' ∉ wantedLabel utf8Label encoding →
      w.store.chosenLabel utf8Label (wantedLabel utf8Label encoding) = utf8Label →
      (content v (.ofText? encoding)).outcome w = (.ok t,
        { w with journal := w.journal ++
            f.lookupReport w.store utf8Label (wantedLabel utf8Label encoding) }) := by
    intro encoding hnul hchosen
    rw [outcome_content_bytes hf hr hvalue hnul, hchosen, Store.decodeBytes_encode]
  constructor
  · intro encoding hencoding
    -- each of them leads to the default, which is known
    have hwanted : wantedLabel utf8Label encoding = utf8Label := by
      simp only [List.mem_cons, List.not_mem_nil, or_false] at hencoding
      obtain rfl | rfl | rfl := hencoding <;> rfl
    have hreport : f.lookupReport w.store utf8Label utf8Label = [] := by
      rw [File.lookupReport, Store.decoder?_utf8Label]
      rfl
    have hout := hread encoding (by rw [hwanted]; decide) (by rw [hwanted]; exact ite_self _)
    rwa [hwanted, hreport, List.append_nil] at hout
  · intro label hne hnul hunknown
    have hwanted : wantedLabel utf8Label (some label) = label := by
      obtain ⟨c, u, rfl⟩ := List.exists_cons_of_ne_nil hne
      rfl
    have hout :=
      hread (some label) (by rwa [hwanted]) (by rw [hwanted, Store.chosenLabel, hunknown]; rfl)
    rwa [hwanted, File.lookupReport, hunknown] at hout

/-- The world with a file whose content is an encoded text, in bytes that can be changed. -/
def buffered : World :=
  (((Construction.value (.ref 0)).run (Maker.ofSettings {})).outcome
    { store := { cells := #[.buffer (Text.Utf8.encode ['h', 'é', '😀'])] } }).2

/-- The text is read back without an encoding and with one that is not known. -/
theorem content_encode_buffered :
    (content (.ref 8) .null).outcome buffered = (.ok ['h', 'é', '😀'], buffered) ∧
    (content (.ref 8) (.text "utf-9".toList)).outcome buffered = (.ok ['h', 'é', '😀'],
      { buffered with
        journal := buffered.journal ++
          [.unknownEncoding "utf-9".toList "<no path>".toList utf8Label] }) := by
  have hfile : buffered.store.file? (.ref 8) = some {
      naming := some ⟨.posix, []⟩, cwd := .ofString "/", value := .ref 0, data := .ref 5,
      messages := .ref 6
      stored := .bool false, result := .null, map := .null, attributes := .ref 7
      encoding := .text utf8Label } := by decide +kernel
  have hvalue : buffered.store.bytes? (.ref 0) = some (Text.Utf8.encode ['h', 'é', '😀']) := by
    decide +kernel
  obtain ⟨hdefault, hunknown⟩ := content_encode hfile ⟨rfl, ⟨.posix, [], rfl⟩, rfl⟩ hvalue
  exact ⟨hdefault none (by simp),
    hunknown "utf-9".toList (by decide) (by decide) (by decide +kernel)⟩

end Action

/-! ### All files that are made -/

/-- Whether a use puts nothing in the place of what reading the content needs. -/
def Use.SparesReading : Use → Prop
  | .assign name _ => name ∉ ["identity", "default_encoding", "to_string"]
  | _ => True

theorem File.Readable.renamed {d : Text} {f f' : File} (h : f.Readable d) (hf' : f.IsRenamed f') :
    f'.Readable d := by
  obtain ⟨n, p, hn, -, rfl⟩ := hf'
  obtain ⟨st, ts, hn'⟩ := h.naming
  obtain rfl := Option.some.inj (hn.symm.trans hn')
  exact ⟨h.encoding, ⟨st, Naming.visit ts p, by rw [Naming.rename_fst]⟩, h.plain⟩

theorem File.Readable.assign {d : Text} {f : File} (h : f.Readable d) {name : String} {v : Value}
    (hname : (Use.assign name v).SparesReading) : (f.assign name v).Readable d := by
  simp only [Use.SparesReading, List.mem_cons, List.not_mem_nil, or_false, not_or] at hname
  obtain ⟨hidentity, hencoding, hplain⟩ := hname
  rw [File.assign.eq_def]
  split
  · exact absurd rfl hidentity
  all_goals first
    | exact absurd rfl hencoding
    | exact ⟨h.encoding, h.naming, h.plain⟩
    | skip
  · exact ⟨h.encoding, h.naming, (Fields.lookup_assign_of_ne (Ne.symm hplain) v).trans h.plain⟩

section Construction
variable {m : Maker} {d : Text} {k : Construction} {w₀ w₁ : World} {file : Value}

theorem Construction.exists_readable {t : Text} (hdir : m.directory.path = .text t)
    (hdefault : m.encoding = .text d) (hk : k.Sound w₀.store)
    (hmade : (k.run m).outcome w₀ = (.ok file, w₁)) :
    ∃ f, w₁.store.file? file = some f ∧ f.Readable d := by
  obtain ⟨f, hf⟩ := (k.ends_run hdir hk).of_ok hmade
  obtain ⟨f', log, hf', hencoding⟩ := (k.ends_logs m w₀).of_ok hmade
  obtain ⟨data, messages, attributes, hcells, -⟩ := hf.holds
  obtain rfl : f = f' := by simpa using hcells.file.symm.trans hf'.file
  exact ⟨f, Store.file?_of_cell? hf'.file, hencoding.trans hdefault, hf.sound.history,
    by rw [hf'.extra]; rfl⟩

/-- **When the content of a file can be read.** However a file is made and whatever use is
made of it, text and missing content are read as they are. Bytes can be read if and only
if they can be decoded by the label in use: the wanted one if it is known, and else the
default of the maker. Otherwise the label holds a NUL or is not known, or its decoder
refuses the bytes. The file stays as it is. -/
theorem Construction.content_iff {t : Text} (hdir : m.directory.path = .text t)
    (hdefault : m.encoding = .text d) (hk : k.Sound w₀.store)
    (hmade : (k.run m).outcome w₀ = (.ok file, w₁)) {us : List Use}
    (hus : ∀ u ∈ us, u.SparesReading) (encoding : Option Text) :
    let s := (used file w₁ us).store
    ∃ f, s.file? file = some f ∧
      ((Action.content file (.ofText? encoding)).outcome (used file w₁ us)).2.store = s ∧
      let read := ((Action.content file (.ofText? encoding)).outcome (used file w₁ us)).1
      let chosen := s.chosenLabel d (wantedLabel d encoding)
      (f.value = .null → read = .ok []) ∧ (∀ x, f.value = .text x → read = .ok x) ∧
      ∀ bs, s.bytes? f.value = some bs →
        ((∃ x, read = .ok x) ↔ Decodable s (wantedLabel d encoding) chosen bs) ∧
        (∀ x, read = .ok x → bs = [] ∧ x = [] ∨
          ∃ decode, s.decoder? chosen = some decode ∧ decode bs = .ok x) ∧
        ∀ e, read = .error e → e = .badValue ∨ e = .unknownEncoding ∨
          ∃ decode, s.decoder? chosen = some decode ∧ decode bs = .error e := by
  intro s
  obtain ⟨f₁, hf₁, hr₁⟩ := k.exists_readable hdir hdefault hk hmade
  obtain ⟨f, hf, hr⟩ := file?_used (P := File.Readable d) (fun _ _ h h' => h.renamed h')
    (fun name new hmem g hg => hg.assign (hus _ hmem)) hf₁ hr₁
  refine ⟨f, hf, Action.fixes_content _ _ _, ?_, ?_, fun bs hbs => ?_⟩
  · intro hvalue
    rw [Action.outcome_content hf, Action.contentWith, hr.plain, hvalue]
    rfl
  · intro x hvalue
    rw [Action.outcome_content hf, Action.contentWith, hr.plain, hvalue]
    rfl
  by_cases h : Decodable s (wantedLabel d encoding) (s.chosenLabel d (wantedLabel d encoding)) bs
  · obtain ⟨x, w', hx, hdecoded⟩ := Action.returns_content_bytes hf hr hbs h
    rw [hx]
    refine ⟨iff_of_true ⟨x, rfl⟩ h, fun y hy => ?_, fun e he => absurd he (by simp)⟩
    exact Except.ok.inj hy ▸ hdecoded
  · obtain ⟨e, he, hkind⟩ := Action.refused_content_bytes hf hr hbs h
    rw [he]
    refine ⟨iff_of_false (by simp) h, by simp, fun e' he' => ?_⟩
    exact Except.error.inj he' ▸ hkind

/-- The world with a file of two bytes, the second of which is no
UTF-8, made as the settings say by default. -/
def accented : World :=
  (((Construction.value (.bytes [0x68, 0xE9])).run (Maker.ofSettings {})).outcome {}).2

/-- A path and a truth value. -/
def arrivals : List Use := [.edit (.facet .path (.ofString "a.txt")), .assign "stored" (.bool true)]

/-- A label that names nothing: the default is used. -/
theorem Construction.content_iff_accented :
    ((Action.content (.ref 7) (.ofString "nope")).outcome (used (.ref 7) accented arrivals)).1 =
      .ok ['h', '\ufffd'] := by
  have hmade : ((Construction.value (.bytes [0x68, 0xE9])).run (Maker.ofSettings {})).outcome {} =
      (.ok (.ref 7), accented) := by
    rw [accented]
    exact Action.outcome_of_fst (by decide +kernel)
  have hsound : (Construction.value (.bytes [0x68, 0xE9])).Sound {} := trivial
  have harrivals : ∀ u ∈ arrivals, u.SparesReading := by simp [arrivals, Use.SparesReading]
  obtain ⟨f, hf, -, -, -, hbytes⟩ :=
    Construction.content_iff (m := Maker.ofSettings {}) (d := "utf-8".toList)
      rfl rfl hsound hmade harrivals (some "nope".toList)
  have hvalue : ((used (.ref 7) accented arrivals).store.file? (.ref 7)).map (·.value) =
      some (.bytes [0x68, 0xE9]) := by decide +kernel
  have hvalue : f.value = .bytes [0x68, 0xE9] := by simpa [hf] using hvalue
  obtain ⟨hreads, hdecoded, -⟩ := hbytes [0x68, 0xE9] (by rw [hvalue]; rfl)
  have hchosen : (used (.ref 7) accented arrivals).store.chosenLabel "utf-8".toList
      (wantedLabel "utf-8".toList (some "nope".toList)) = utf8Label := by decide +kernel
  have hdecoder := (used (.ref 7) accented arrivals).store.decoder?_utf8Label
  rw [← hchosen] at hdecoder
  obtain ⟨x, hx⟩ := hreads.mpr ⟨by decide, by rw [hchosen]; decide, .inr ⟨_, _, hdecoder, rfl⟩⟩
  obtain ⟨decode, hdecode, hx'⟩ := (hdecoded x hx).resolve_left (by simp)
  obtain rfl := Option.some.inj (hdecoder.symm.trans hdecode)
  exact hx.trans (hx'.symm.trans (by decide +kernel))

/-- **The default label is not checked.** Settings can name an encoding that nobody knows, and then
the content of a file of bytes cannot be read. -/
theorem content_unknownDefault : ∃ file w,
    ((Maker.ofSettings { encoding := "nope".toList }).ofValue (.bytes [0x78])).outcome {} =
      (.ok file, w) ∧ ((Action.content file .null).outcome w).1 = .error .unknownEncoding := by
  refine ⟨.ref 7, _, Action.outcome_of_fst ?_, ?_⟩
  · decide +kernel
  · decide +kernel

end Construction

end VirtualFile
