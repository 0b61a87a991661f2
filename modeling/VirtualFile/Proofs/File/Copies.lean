import VirtualFile.Proofs.File.Built
import VirtualFile.Proofs.Maker.Asked
/-!
# Copies

A copy is made through the options for it: what is read off the file goes through the check, which
changes nothing about a file that stands (`Options.check_copy`), and the new file has all its cells
to itself (`Maker.succeeds_ofFile`). From then on neither file sees the changes to the other.
-/

namespace VirtualFile

/-! ### The check of a copy -/

namespace Options

theorem entryNamed?_entriesOf (name : String) (fields : Fields) :
    Store.entryNamed? name (Action.entriesOf fields) = fields.lookup name := by
  induction fields with
  | nil => rfl
  | cons x fields ih =>
    obtain ⟨k, v⟩ := x
    rw [Store.entryNamed?, Action.entriesOf] at ih ⊢
    by_cases hk : name = k
    · subst hk
      simp
    · have hne : ¬ Value.ofString k = .ofString name := fun h =>
        hk (String.toList_injective (Value.text.inj h)).symm
      rw [List.map_cons, List.find?_cons_of_neg (by simpa using hne), ih, List.lookup_cons,
        beq_false_of_ne hk]

theorem extraEntries_copyFields (f : File) (history data messages attributes : Value) :
    extraEntries (Action.entriesOf (copyFields f history data messages attributes)) = ([], []) := by
  have hnames : ∀ x ∈ copyFields f history data messages attributes, x.1 ∈ reserved := by
    simp [copyFields, reserved]
  refine extraEntries_fields (fun _ h => h) ?_
  rw [Action.entriesOf, List.forall_mem_map]
  exact fun x hx => ⟨x.1, hnames x hx, rfl⟩

/-- What is checked for a copy of a file. -/
def copied (f : File) (ts : List Text) (data : Entries) (messages : List Value)
    (attributes : Entries) (stored : Bool) : Checked where
  value := f.value
  cwd := f.cwd
  history := some (ts.map .text)
  data := some data
  messages := some messages
  stored := stored
  result := f.result
  map := f.map
  attributes := attributes

/-- **What is read off a file that stands passes the check** as it is. -/
theorem check_copy {s : Store} {f : File} (hf : f.Sound) {b : Bool} (hb : f.stored = .bool b)
    {history data messages attributes : Value} {ts : List Text} {d as : Entries} {ms : List Value}
    (hhistory : s.cell? history = some (.list (ts.map .text)))
    (hdata : s.dict? data = some d) (hd : TextDict d)
    (hmessages : s.cell? messages = some (.list ms)) (hattributes : s.dict? attributes = some as)
    (ha : TextDict as) :
    check s (Action.entriesOf (copyFields f history data messages attributes)) =
      .ok (copied f ts d ms as b) := by
  obtain ⟨t, ht⟩ := hf.cwd
  generalize hes : Action.entriesOf (copyFields f history data messages attributes) = es
  have hentry : ∀ name, Store.entryNamed? name es =
      (copyFields f history data messages attributes).lookup name := fun name => by
    rw [← hes, entryNamed?_entriesOf]
  have hnone : ∀ name, (copyFields f history data messages attributes).lookup name = none →
      optionalText s name es = (.null, []) := fun name h =>
    optionalText_ofText? (t := none) (by rw [hentry, h]; rfl)
  have hcwd : optionalText s "cwd" es = (f.cwd, []) :=
    (optionalText_ofText? (t := some t) (by rw [hentry]; exact ht)).trans (by rw [ht]; rfl)
  have hlist : s.HoldsList ((Store.entryNamed? "history" es).getD .null) (some (ts.map .text)) := by
    rw [hentry]
    exact hhistory
  have hextra : extraEntries es = ([], []) :=
    hes ▸ extraEntries_copyFields f history data messages attributes
  rw [check]
  simp only [hcwd, historyField_texts hlist rfl, hnone "basename" rfl, hnone "stem" rfl,
    hnone "extname" rfl, hnone "dirname" rfl, dataField_textDict (hentry "data") hdata hd,
    messagesField_list (hentry "messages") hmessages,
    storedField_bool ((hentry "stored").trans (congrArg some hb)),
    attributesField_textDict (hentry "attributes") hattributes ha, hextra, hentry]
  rfl

end Options

/-! ### The options for a copy -/

namespace Action
variable {w : World} {v : Value} {f : File}

/-- **The options for a copy** hold what is read off the file. Their data are new. -/
theorem succeeds_optionsOfFile (hs : f.Sound) {st : Path.Style} {ts : List Text} {b : Bool}
    {data attributes : Entries} {messages : List Value} (hn : f.naming = some ⟨st, ts.map .text⟩)
    (hb : f.stored = .bool b) (hf : w.store.HoldsFile v f data messages attributes)
    (hd : TextDict data) (ha : TextDict attributes) : (optionsOfFile v).Succeeds w fun v' w' =>
      ∃ o, w'.store.options? v' = some o ∧ w.store.cell? o.data = none ∧
        Options.Holds w'.store o (Options.copied f ts data messages attributes b) := by
  have hintact : f.Intact w.store :=
    ⟨by simp [hn], by simp [hf.data], by simp [Store.list?_eq_some.mpr hf.messages],
      by simp [hf.attributes]⟩
  have hread : (readCopy v).Succeeds w fun es w' => w.store.HoldsCopy w'.store f es :=
    (ends_readCopy hf.file).returns fun _ _ he => he.2 hintact
  rw [optionsOfFile_eq]
  refine hread.bind fun es w₁ hle hcopy => ?_
  obtain ⟨n, history, data', messages', attributes', d, as, ms, hn', rfl, hhistory, ⟨hdata, hd'⟩,
    ⟨hmessages, hms⟩, hattributes, has⟩ := hcopy
  obtain rfl := Option.some.inj (hn.symm.trans hn')
  obtain rfl := hd' _ hf.data
  obtain rfl := hms _ hf.messages
  obtain rfl := has _ hf.attributes
  have hcheck := Options.check_copy hs hb hhistory hdata hd hmessages hattributes ha
  refine (succeeds_checkOptions hcheck).mono fun v' w₂ h => ?_
  obtain ⟨o, ho, hholds, hnew, -⟩ := h
  exact ⟨o, ho, hle.cell?_eq_none hnew, hholds⟩

end Action

/-! ### The copy -/

/-- **Two files with the same plain fields** and the same paths behind them. -/
structure File.Alike (f g : File) : Prop where
  history : g.naming.map (·.history) = f.naming.map (·.history)
  cwd : g.cwd = f.cwd
  value : g.value = f.value
  stored : g.stored = f.stored
  result : g.result = f.result
  map : g.map = f.map

namespace File.Alike
variable {f g : File}

theorem exists_naming (h : f.Alike g) {n : Naming} (hn : f.naming = some n) :
    ∃ n', g.naming = some n' ∧ n'.history = n.history := by
  have hhistory := h.history
  rwa [hn, Option.map_some, Option.map_eq_some_iff] at hhistory

theorem sound (h : f.Alike g) (hf : f.Sound) : g.Sound := by
  obtain ⟨st, ts, hn⟩ := hf.history
  obtain ⟨⟨st', vs⟩, hn', rfl⟩ := h.exists_naming hn
  exact ⟨⟨st', ts, hn'⟩, h.cwd ▸ hf.cwd, h.value ▸ hf.value, h.stored ▸ hf.stored⟩

theorem snapshot (h : f.Alike g) {s s' : Store} {u v : Value} {data attributes : Entries}
    {messages : List Value} {n : Naming} (hn : f.naming = some n)
    (hf : s.HoldsFile u f data messages attributes)
    (hg : s'.HoldsFile v g data messages attributes) : s'.snapshot? v = s.snapshot? u := by
  obtain ⟨n', hn', hhistory⟩ := h.exists_naming hn
  rw [hf.snapshot hn, hg.snapshot hn', hhistory, h.cwd, h.value, h.stored, h.result, h.map]

end File.Alike

namespace Maker
variable {m : Maker} {w : World} {v : Value} {f : File} {o : Options}

theorem succeeds_blank_copied (m : Maker) (hs : f.Sound) {st : Path.Style} {ts : List Text}
    {b : Bool} {data attributes : Entries} {messages : List Value}
    (hn : f.naming = some ⟨st, ts.map .text⟩) (hb : f.stored = .bool b)
    (hr : o.Holds w.store (Options.copied f ts data messages attributes b)) :
    (m.blank o).Succeeds w fun c w' => ∃ g, f.Alike g ∧
    w'.store.HoldsFile c g data messages attributes ∧
      ∀ x ∈ g.cells c, x ≠ o.data → w.store.cell? x = none := by
  obtain ⟨t, ht⟩ := hs.cwd
  refine (succeeds_blank m hr).mono fun c w' h => ?_
  obtain ⟨g, es, hes, hg, hfields, hnew, -⟩ := h
  -- there are no further keys to add
  obtain rfl : attributes = es := by
    rw [Options.extras, hr.attributes, hr.extra] at hes
    exact Except.ok.inj hes
  refine ⟨g, ⟨?_, ?_, ?_, ?_, ?_, ?_⟩, hg, hnew⟩
  all_goals rw [hfields]
  · rw [hn]
    rfl
  · simp [Options.copied, ht]
  · simp [Options.copied, hs.value]
  · exact hb.symm
  · rfl
  · rfl

/-- **A file that stands can be copied**, and nobody is asked for a directory. The copy has the same
snapshot, and all its cells are new. -/
theorem succeeds_ofFile (h : w.store.Stands v f) : (m.ofFile v).Succeeds w fun c w' =>
    w'.asked = w.asked ∧ w'.store.snapshot? c = w.store.snapshot? v ∧
      ∃ g, w'.store.Stands c g ∧ ∀ x ∈ g.cells c, w.store.cell? x = none := by
  obtain ⟨data, messages, attributes, hf, hd, ha⟩ := h.holds
  obtain ⟨st, ts, hn⟩ := h.sound.history
  obtain ⟨b, hb⟩ := h.sound.stored
  obtain ⟨t, ht⟩ := h.sound.cwd
  obtain ⟨v', w₁, hread, hle, hasked, o, ho, hnewdata, hholds⟩ :=
    (Action.fixes_asked_optionsOfFile v).succeeds
      (Action.succeeds_optionsOfFile h.sound hn hb hf hd ha)
  have hcwd : o.cwd ≠ .null := by
    rw [hholds.fields]
    simp [Options.copied, ht]
  have hfacets : facets o = [] := by
    rw [facets, hholds.fields]
    rfl
  obtain ⟨c, w₂, hblank, hle₂, hasked₂, g, hg, hcells, hnew⟩ :=
    (fixes_asked_blank hcwd).succeeds (succeeds_blank_copied m h.sound hn hb hholds)
  have hcopy : (m.ofFile v).outcome w = (.ok c, w₂) := by
    rw [ofFile, optionsOfShape, Action.outcome_bind_ok _ hread,
      outcome_ofOptions_unplaced ho hfacets, hblank]
  refine ⟨c, w₂, hcopy, hle.trans hle₂, hasked₂.trans hasked, hg.snapshot hn hf hcells, g,
    ⟨hg.sound h.sound, data, messages, attributes, hcells, hd, ha⟩, fun x hx => ?_⟩
  -- the data are those of the options, and the rest is new after them
  by_cases hdata : x = o.data
  · exact hdata ▸ hnewdata
  · exact hle.cell?_eq_none (hnew x hx hdata)

end Maker

/-! ### Files that are apart -/

/-- **Two files that stand in cells of their own.** -/
def Store.Apart (s : Store) (a b : Value) : Prop :=
  ∃ f g, s.Stands a f ∧ s.Stands b g ∧ ∀ x ∈ f.cells a, x ∉ g.cells b

section Apart
variable {w : World} {a b : Value}

theorem Store.Apart.symm {s : Store} (h : s.Apart a b) : s.Apart b a := by
  obtain ⟨f, g, hf, hg, hdisjoint⟩ := h
  exact ⟨g, f, hg, hf, fun x hx hx' => hdisjoint x hx' hx⟩

/-- **Changes to one of two files** keep them apart and keep the snapshot of the other. -/
theorem Store.Apart.edited (h : w.store.Apart a b) (es : List Edit) :
    (edited a w es).store.Apart a b ∧
      ∃ x, w.store.snapshot? b = some x ∧ (edited a w es).store.snapshot? b = some x := by
  obtain ⟨f, g, hf, hg, hdisjoint⟩ := h
  obtain ⟨f', hf', hcells, hkeeps⟩ := edited_run hf es
  obtain ⟨data, messages, attributes, hb, hd, ha⟩ := hg.holds
  obtain ⟨st, ts, hn⟩ := hg.sound.history
  have hb' := hb.keep hkeeps fun x hx hx' => hdisjoint x hx' hx
  exact ⟨⟨f', g, hf', ⟨hg.sound, data, messages, attributes, hb', hd, ha⟩, hcells ▸ hdisjoint⟩,
    _, hb.snapshot hn, hb'.snapshot hn⟩

/-- The world after changes to two files, to the first or to the second in turn. -/
def editedBoth (a b : Value) (w : World) (turns : List (Edit ⊕ Edit)) : World :=
  turns.foldl (fun w turn => turn.elim (fun e => edited a w [e]) fun e => edited b w [e]) w

theorem Store.Apart.editedBoth (h : w.store.Apart a b) (turns : List (Edit ⊕ Edit)) :
    (editedBoth a b w turns).store.Apart a b := by
  induction turns generalizing w with
  | nil => exact h
  | cons turn turns ih =>
    cases turn with
    | inl e => exact ih (h.edited [e]).1
    | inr e => exact ih (h.symm.edited [e]).1.symm

end Apart

/-- **A copy is faithful and independent.** However a file is made and whatever is changed
about it after that, it can be copied, and nobody is asked for a directory. The copy has
the same snapshot. From then on the two can be changed in turn: no run of changes to the
one ever changes the snapshot of the other. -/
theorem Maker.ofFile_apart {m : Maker} {t : Text} (hdir : m.directory.path = .text t)
    {k : Construction} {w₀ w₁ : World} {file : Value} (hk : k.Sound w₀.store)
    (hmade : (k.run m).outcome w₀ = (.ok file, w₁)) (es : List Edit) : ∃ copy w x,
      (m.ofFile file).outcome (edited file w₁ es) = (.ok copy, w) ∧
      w.asked = (edited file w₁ es).asked ∧
      (edited file w₁ es).store.snapshot? file = some x ∧ w.store.snapshot? file = some x ∧
      w.store.snapshot? copy = some x ∧ ∀ turns later,
        (∃ y, (editedBoth file copy w turns).store.snapshot? file = some y ∧
          (edited copy (editedBoth file copy w turns) later).store.snapshot? file = some y) ∧
        ∃ y, (editedBoth file copy w turns).store.snapshot? copy = some y ∧
          (edited file (editedBoth file copy w turns) later).store.snapshot? copy = some y := by
  have hends := k.ends_run hdir hk
  rw [Action.Ends, hmade] at hends
  obtain ⟨f, hf⟩ := hends
  obtain ⟨f', hf', -⟩ := edited_run hf es
  obtain ⟨data, messages, attributes, hfile, hd, ha⟩ := hf'.holds
  obtain ⟨st, ts, hn⟩ := hf'.sound.history
  obtain ⟨copy, w, hcopy, hle, hasked, hsnapshot, g, hg, hnew⟩ := m.succeeds_ofFile hf'
  -- the cells of the copy are new, those of the file were there
  have hapart : w.store.Apart file copy := by
    refine ⟨f', g, hf'.extend hle, hg, fun x hx hx' => ?_⟩
    have hthere := hfile.isSome_cell? hx
    rw [hnew x hx'] at hthere
    exact absurd hthere (by simp)
  have hsame := (hfile.snapshot hn).symm ▸ hsnapshot
  refine ⟨copy, w, _, hcopy, hasked, hfile.snapshot hn,
    (hfile.keep (hle.keeps []) (by simp)).snapshot hn, hsame, fun turns later => ?_⟩
  have hboth := hapart.editedBoth turns
  exact ⟨(hboth.symm.edited later).2, (hboth.edited later).2⟩

/-- A maker that asks for its working directory. -/
def asking : Maker := ⟨.posix, .ofString "utf-8", .provided (.ofString "/work")⟩

/-- A world with a dictionary of options: a history, data, a truth value and a further key. -/
def release : World where
  store := { cells := #[.list [.ofString "a.txt"], .dict [(.ofString "draft", .bool true)],
    .dict [(.ofString "history", .ref 0), (.ofString "data", .ref 1),
      (.ofString "stored", .bool true), (.ofString "licence", .ofString "MIT")]] }

/-- The world with the file for these options. -/
def released : World := (((Construction.any (.ref 2)).run asking).outcome release).2

/-- A new stem, a warning and an item. -/
def revisions : List Edit :=
  [.facet .stem (.ofString "b"), .report .warning (.ofString "odd") .null .null,
    .data ['k'] (.int 1)]

/-- The file is changed and copied, and the copy is changed again. -/
theorem Maker.ofFile_apart_release : ∃ copy w x,
    (asking.ofFile (.ref 11)).outcome (edited (.ref 11) released revisions) = (.ok copy, w) ∧
    w.store.snapshot? copy = some x ∧
    x.history = [.ofString "a.txt", .ofString "b.txt"] ∧ x.messages = [.ref 12] ∧
    x.data = [(.ofString "draft", .bool true), (.ofString "k", .int 1)] ∧
    x.attributes = [(.ofString "licence", .ofString "MIT")] ∧
    (edited copy w revisions).store.snapshot? (.ref 11) = some x := by
  have hrecord : (Construction.any (.ref 2)).Sound release.store :=
    fun h => absurd h (by decide +kernel)
  have hmade : ((Construction.any (.ref 2)).run asking).outcome release =
      (.ok (.ref 11), released) := by
    rw [released]
    exact Action.outcome_of_fst (by decide +kernel)
  obtain ⟨copy, w, x, hcopy, -, hx, hfile, hsame, hlater⟩ :=
    Maker.ofFile_apart (m := asking) rfl hrecord hmade revisions
  have hvalue : (edited (.ref 11) released revisions).store.snapshot? (.ref 11) = some {
      history := [.ofString "a.txt", .ofString "b.txt"], cwd := .ofString "/work", value := .text []
      data := [(.ofString "draft", .bool true), (.ofString "k", .int 1)], messages := [.ref 12]
      stored := .bool true, result := .null, map := .null
      attributes := [(.ofString "licence", .ofString "MIT")] } := by decide +kernel
  obtain rfl := Option.some.inj (hvalue.symm.trans hx)
  obtain ⟨⟨y, hy, hkept⟩, -⟩ := hlater [] revisions
  obtain rfl := Option.some.inj (hfile.symm.trans hy)
  exact ⟨copy, w, _, hcopy, hsame, rfl, rfl, rfl, rfl, hkept⟩

/-- Makes a file for a record of options whose truth value is replaced
by a word for one after the check. -/
def makeChanged : Action Value := do
  let record ← Action.checkOptions []
  Action.assign record "stored" (.ofString "yes")
  asking.ofOptions record

/-- **A record that is changed after its check** can make a file whose copy differs from it: the
check of the copy reads the word as a truth value. -/
theorem ofFile_makeChanged : ∃ file w₁ copy w₂, makeChanged.outcome {} = (.ok file, w₁) ∧
    (asking.ofFile file).outcome w₁ = (.ok copy, w₂) ∧
    (w₁.store.snapshot? file).map (·.stored) = some (.ofString "yes") ∧
    (w₂.store.snapshot? copy).map (·.stored) = some (.bool true) := by
  refine ⟨.ref 7, _, .ref 22, _, Action.outcome_of_fst ?_, Action.outcome_of_fst ?_, ?_, ?_⟩
  · decide +kernel
  · decide +kernel
  · decide +kernel
  · decide +kernel

end VirtualFile
