import VirtualFile.Proofs.File.Copies
import VirtualFile.Proofs.File.Fresh
import VirtualFile.Proofs.Options.Faults
/-!
# Which files can be copied

The fields of a file are not checked while callers change them, but they go through the check of
options when the file is copied. A file with its own containers can be copied if and only if all
that the check looks at has its shape; otherwise it is refused with the faults of the check as they
are, and not as a fault of options, as dictionaries of options are (`Construction.copy_iff`). So a
copy is never refused with a fault of the library's own family.

* `File.Copyable`: what the check looks at.
* `copy_gives`: copying one file.
-/

namespace VirtualFile

/-- **A file that can be copied**: no working directory or a text, texts as paths and as keys, and
what can be read as a truth value. -/
structure File.Copyable (s : Store) (f : File) (history : List Value) (data attributes : Entries) :
    Prop where
  cwd : f.cwd = .null ∨ s.IsText f.cwd
  history : ∀ v ∈ history, s.IsText v
  data : ∀ e ∈ data, s.IsText e.1
  attributes : ∀ e ∈ attributes, s.IsText e.1
  stored : ∃ b, Options.asBool f.stored = .ok b

/-! ### The check of what has been read -/

namespace Options
variable {s : Store} {f : File} {history data messages attributes : Value}

/-- **What has been read off a file passes the check** if and only if the file can be copied. -/
theorem check_copyFields_iff {vs ms : List Value} {d as : Entries}
    (hhistory : s.cell? history = some (.list vs)) (hdata : s.dict? data = some d)
    (hmessages : s.cell? messages = some (.list ms)) (hattributes : s.dict? attributes = some as) :
    faults s (Action.entriesOf (copyFields f history data messages attributes)) = [] ↔
      f.Copyable s vs d as := by
  generalize hes : Action.entriesOf (copyFields f history data messages attributes) = es
  have hentry : ∀ name, Store.entryNamed? name es =
      (copyFields f history data messages attributes).lookup name := fun name => by
    rw [← hes, entryNamed?_entriesOf]
  have hnone : ∀ name, (copyFields f history data messages attributes).lookup name = none →
      (optionalText s name es).2 = [] := fun name h =>
    optionalText_faults.mpr (.inl (by rw [hentry, h]; rfl))
  have hcwd : (optionalText s "cwd" es).2 = [] ↔ f.cwd = .null ∨ s.IsText f.cwd := by
    rw [optionalText_faults, hentry]
    rfl
  have hextra : (extraEntries es).2 = [] := by
    rw [← hes, extraEntries_copyFields]
  simp only [faults, List.append_eq_nil_iff, hcwd, historyField_faults (hentry "history") hhistory,
    hnone "basename" rfl, hnone "stem" rfl, hnone "extname" rfl, hnone "dirname" rfl,
    dataField_faults (hentry "data") hdata, messagesField_list (hentry "messages") hmessages,
    storedField_faults (hentry "stored"), attributesField_faults (hentry "attributes") hattributes,
    hextra, and_true]
  constructor
  · rintro ⟨⟨⟨⟨hcwd, hhistory⟩, hdata⟩, hstored⟩, hattributes⟩
    exact ⟨hcwd, hhistory, hdata, hattributes, hstored⟩
  · rintro ⟨hcwd, hhistory, hdata, hattributes, hstored⟩
    exact ⟨⟨⟨⟨hcwd, hhistory⟩, hdata⟩, hstored⟩, hattributes⟩

theorem entryNamed?_copyFields (f : File) (history data messages attributes : Value) :
    ∀ name ∈ ["path", "basename", "stem", "extname", "dirname"], Store.entryNamed? name
      (Action.entriesOf (copyFields f history data messages attributes)) = none := by
  simp [entryNamed?_entriesOf, copyFields]

end Options

/-! ### Texts stay -/

theorem Store.asText_alloc (s : Store) {c : Cell} (hc : c.isContainer) :
    Options.asText (s.alloc c).1 = Options.asText s := by
  funext v
  obtain ⟨hnone, hsome⟩ | hsame := s.cell?_alloc_cases c v
  · obtain ⟨r, rfl⟩ := exists_ref hsome
    cases c with
    | list vs => simp [Options.asText, hnone, hsome]
    | tuple vs => simp [Options.asText, hnone, hsome]
    | dict es => simp [Options.asText, hnone, hsome]
    | _ => exact absurd hc (by simp [Cell.isContainer])
  · simp [Options.asText, hsame]

theorem Action.fixes_texts_readCopy (v : Value) :
    (readCopy v).Fixes fun w => Options.asText w.store :=
  fixes_readCopy (fun _ hc w => w.store.asText_alloc hc) v

theorem File.copyable_congr {s s' : Store} (h : Options.asText s' = Options.asText s) {f : File}
    {history : List Value} {data attributes : Entries} :
    f.Copyable s' history data attributes ↔ f.Copyable s history data attributes := by
  have htext : s'.IsText = s.IsText := by
    funext v
    rw [Store.IsText, Store.IsText, h]
  constructor
  · rintro ⟨hcwd, hhistory, hdata, hattributes, hstored⟩
    rw [htext] at hcwd hhistory hdata hattributes
    exact ⟨hcwd, hhistory, hdata, hattributes, hstored⟩
  · rintro ⟨hcwd, hhistory, hdata, hattributes, hstored⟩
    rw [← htext] at hcwd hhistory hdata hattributes
    exact ⟨hcwd, hhistory, hdata, hattributes, hstored⟩

/-! ### Copying one file -/

/-- A way to go on from the options for a copy: whatever record they are, a file is made. -/
def Makes (finish : Value → Action Value) : Prop :=
  ∀ (w : World) v o c, w.store.options? v = some o → o.Holds w.store c → Maker.facets o = [] →
    (finish v).Returns w fun copy w' => (w'.store.file? copy).isSome

theorem Maker.makes_ofOptions (m : Maker) : Makes m.ofOptions := by
  intro w v o c ho hholds hfacets
  obtain ⟨copy, w', hblank, -, f, es, -, hf, -⟩ := succeeds_blank m hholds
  exact ⟨copy, w', (outcome_ofOptions_unplaced ho hfacets).trans hblank,
    by simp [Store.file?_of_cell? hf.file]⟩

section Copying
variable {w : World} {v : Value} {f : File} {finish : Value → Action Value}

theorem returns_checkOptions_unplaced {es : Entries} {c : Checked}
    (hc : Options.check w.store es = .ok c)
    (hnone : ∀ name ∈ ["path", "basename", "stem", "extname", "dirname"],
      Store.entryNamed? name es = none) :
    (Action.checkOptions es).Returns w fun record w' =>
      ∃ o, w'.store.options? record = some o ∧ o.Holds w'.store c ∧ Maker.facets o = [] := by
  refine Action.Returns.mono (Action.succeeds_checkOptions hc)
    fun record w' ⟨_, o, ho, hholds, _⟩ => ⟨o, ho, hholds, ?_⟩
  obtain ⟨hpath, hbasename, hstem, hextname, hdirname⟩ := Options.check_noPath hc hnone
  rw [Maker.facets, hholds.fields]
  simp [hpath, hbasename, hstem, hextname, hdirname]

theorem checkOptions_passed (hfinish : Makes finish) {es : Entries}
    (h : Options.faults w.store es = [])
    (hnone : ∀ name ∈ ["path", "basename", "stem", "extname", "dirname"],
      Store.entryNamed? name es = none) :
    (Action.checkOptions es >>= finish).Returns w fun copy w' => (w'.store.file? copy).isSome := by
  obtain ⟨c, hc⟩ := Options.check_ok_iff.mpr h
  exact (returns_checkOptions_unplaced hc hnone).bind fun record w' ⟨o, ho, hholds, hfacets⟩ =>
    hfinish w' record o c ho hholds hfacets

theorem checkOptions_refused {es : Entries} (h : Options.faults w.store es ≠ []) :
    (Action.checkOptions es >>= finish).outcome w =
      (.error (.invalid .options (Options.faults w.store es)), w) := by
  refine Action.outcome_bind_error _ ?_
  rw [Action.checkOptions, Action.outcome_bind_ok _ (Action.outcome_store w), Options.check_error h]
  rfl

/-- **Copying a file** gives a file, or it is refused because a
container has been replaced, or by the check. -/
theorem copy_cases (hf : w.store.cell? v = some (.file f)) (hfinish : Makes finish) :
    let outcome := (Action.optionsOfFile v >>= finish).outcome w
    (∃ e w', outcome = (.error e, w') ∧ e.kind.isFileError = false ∧ ¬ f.Intact w.store) ∨
      ∃ n d as, f.naming = some n ∧ (∀ d', w.store.dict? f.data = some d' → d' = d) ∧
        (∀ as', w.store.dict? f.attributes = some as' → as' = as) ∧
        ((f.Copyable w.store n.history d as ∧ ∃ copy w', outcome = (.ok copy, w') ∧
          (w'.store.file? copy).isSome) ∨
          ¬ f.Copyable w.store n.history d as ∧
            ∃ faults w', faults ≠ [] ∧ outcome = (.error (.invalid .options faults), w')) := by
  intro outcome
  have hread := Action.ends_readCopy hf
  have htexts := Action.fixes_texts_readCopy v w
  rw [Action.Ends] at hread
  have houtcome :
      outcome = (Action.readCopy v >>= fun es => Action.checkOptions es >>= finish).outcome w := by
    rw [← bind_assoc, ← Action.optionsOfFile_eq]
  rcases hcopy : (Action.readCopy v).outcome w with ⟨e | es, w₁⟩
  all_goals rw [hcopy] at hread htexts
  · exact .inl ⟨e, w₁, houtcome.trans (Action.outcome_bind_error _ hcopy), hread⟩
  obtain ⟨-, n, history, data, messages, attributes, d, as, ms, hn, rfl, hhistory, ⟨hdata, hd⟩,
    ⟨hmessages, -⟩, hattributes, has⟩ := hread
  refine .inr ⟨n, d, as, hn, hd, has, ?_⟩
  have hiff := Options.check_copyFields_iff (f := f) hhistory hdata hmessages hattributes
  rw [File.copyable_congr htexts] at hiff
  rw [houtcome, Action.outcome_bind_ok _ hcopy]
  have hnone := Options.entryNamed?_copyFields f history data messages attributes
  by_cases hfaults : Options.faults w₁.store
      (Action.entriesOf (Options.copyFields f history data messages attributes)) = []
  · obtain ⟨copy, w', hok, hfile⟩ := checkOptions_passed hfinish hfaults hnone
    exact .inl ⟨hiff.mp hfaults, copy, w', hok, hfile⟩
  · exact .inr ⟨fun h => hfaults (hiff.mpr h), _, _, hfaults, checkOptions_refused hfaults⟩

end Copying

/-! ### The two ways to copy -/

section Shape
variable {s : Store} {v : Value} {f : File} (hf : s.cell? v = some (.file f))
include hf

theorem Store.attribute?_scheme_file : s.attribute? v "scheme" = f.extra.lookup "scheme" := by
  obtain ⟨r, rfl⟩ := exists_ref hf
  simp only [attribute?, hf, List.lookup_append]
  rfl

theorem Store.attribute?_path_file : s.attribute? v "path" = f.naming.map Naming.path := by
  obtain ⟨r, rfl⟩ := exists_ref hf
  simp only [attribute?, hf, if_true]

/-- **A file passes for a URL** once it has got a scheme. -/
theorem Store.isUrl_file : s.isUrl v = ((f.extra.lookup "scheme").isSome && f.naming.isSome) := by
  rw [isUrl, hasAttribute, hasAttribute, attribute?_scheme_file hf, attribute?_path_file hf,
    Option.isSome_map]

theorem Maker.shapeOf_file (hurl : s.isUrl v = false) : shapeOf s v = .file := by
  obtain ⟨r, rfl⟩ := Store.exists_ref hf
  simp [shapeOf, hf, Store.bytes?, hurl, Store.isPathLike]

end Shape

theorem Maker.outcome_make {m : Maker} {w : World} {v : Value} (hv : w.store.options? v = none) :
    (m.make v).outcome w = (do
      let o ← optionsOfShape v (shapeOf w.store v)
      Action.note (.resolved (shapeOf w.store v))
      m.ofOptions o).outcome w := by
  rw [make, Action.outcome_bind, outcome_resolve hv, ← Action.outcome_bind]
  simp only [bind_assoc, pure_bind]

theorem Maker.outcome_make_file {m : Maker} {w : World} {v : Value} {f : File}
    (hf : w.store.cell? v = some (.file f)) (hurl : w.store.isUrl v = false) :
    (m.make v).outcome w = (do
      let o ← Action.optionsOfFile v
      Action.note (.resolved .file)
      m.ofOptions o).outcome w := by
  have hoptions : w.store.options? v = none := by simp [Store.options?, hf]
  rw [outcome_make hoptions, shapeOf_file hf hurl, optionsOfShape]

namespace Construction
variable {m : Maker} {w : World} {file : Value} {f : File}

theorem exists_finish (hf : w.store.cell? file = some (.file f)) {k : Construction}
    (hk : k = .file file ∨ k = .any file ∧ f.extra.lookup "scheme" = none) :
    ∃ finish, Makes finish ∧
      (k.run m).outcome w = (Action.optionsOfFile file >>= finish).outcome w := by
  obtain rfl | ⟨rfl, hscheme⟩ := hk
  · exact ⟨m.ofOptions, m.makes_ofOptions, rfl⟩
  · refine ⟨fun o => do Action.note (.resolved .file); m.ofOptions o,
      fun w v o c ho hholds hfacets => ?_, ?_⟩
    · exact m.makes_ofOptions
        { w with journal := w.journal ++ [.resolved .file] } v o c ho hholds hfacets
    · exact Maker.outcome_make_file hf (by rw [Store.isUrl_file hf, hscheme]; rfl)

/-- However a file is made and used, it stays a file, and gets a scheme only by an assignment. -/
theorem exists_used {k : Construction} {w₀ w₁ : World}
    (hmade : (k.run m).outcome w₀ = (.ok file, w₁)) (us : List Use) :
    ∃ f, (used file w₁ us).store.file? file = some f ∧
      ((∀ new, .assign "scheme" new ∉ us) → f.extra.lookup "scheme" = none) := by
  obtain ⟨f₀, log, hf₀, -⟩ := (k.ends_logs m w₀).of_ok hmade
  refine file?_used
    (P := fun f => (∀ new, .assign "scheme" new ∉ us) → f.extra.lookup "scheme" = none) ?_ ?_
    (Store.file?_of_cell? hf₀.file) fun _ => ?_
  · rintro f f' h ⟨n, p, -, -, rfl⟩ hus
    exact h hus
  · intro name new hmem f h hus
    have hne : "scheme" ≠ name := by
      rintro rfl
      exact hus new hmem
    exact (File.lookup_extra_assign hne new).trans (h hus)
  · rw [hf₀.extra]
    rfl

/-- **Which files can be copied.** However a file is made and whatever use is made of it, both ways
to copy it give a file or are refused with a fault that is not of the library's own family. While
the file has its own containers, it is copied if and only if all that the check looks at has its
shape, and else refused with the faults of the check. -/
theorem copy_iff {m : Maker} (m' : Maker) {k : Construction} {w₀ w₁ : World}
    (hmade : (k.run m).outcome w₀ = (.ok file, w₁)) {us : List Use} {copying : Construction}
    (hcopying : copying = .file file ∨ copying = .any file ∧ ∀ new, .assign "scheme" new ∉ us) :
    ∃ f, (used file w₁ us).store.file? file = some f ∧
      let s := (used file w₁ us).store
      let outcome := (copying.run m').outcome (used file w₁ us)
      (∀ copy, outcome.1 = .ok copy → (outcome.2.store.file? copy).isSome) ∧
      (∀ e, outcome.1 = .error e → e.kind.isFileError = false) ∧
      (f.Intact s → ∀ n d as, f.naming = some n → s.dict? f.data = some d →
        s.dict? f.attributes = some as →
        ((∃ copy, outcome.1 = .ok copy) ↔ f.Copyable s n.history d as) ∧
        (¬ f.Copyable s n.history d as →
          ∃ faults, faults ≠ [] ∧ outcome.1 = .error (.invalid .options faults))) := by
  obtain ⟨f, hf, hscheme⟩ := exists_used hmade us
  have hcell := Store.cell?_eq_of_file? hf
  obtain ⟨finish, hfinish, hrun⟩ := exists_finish (m := m') (k := copying) hcell
    (hcopying.imp_right fun h => ⟨h.1, hscheme h.2⟩)
  refine ⟨f, hf, ?_⟩
  rw [hrun]
  obtain ⟨e, w', ho, hkind, hnot⟩ |
    ⟨n, d, as, hn, hd, has, ⟨hcopyable, copy, w', ho, hfile⟩ | ⟨hnot, faults, w', hne, ho⟩⟩ :=
    copy_cases hcell hfinish
  all_goals rw [ho]
  · exact ⟨fun _ h => absurd h (by simp), fun e' h => Except.error.inj h ▸ hkind,
      fun h => absurd h hnot⟩
  · refine ⟨fun copy' h => Except.ok.inj h ▸ hfile, fun _ h => absurd h (by simp),
      fun _ n' d' as' hn' hd' has' => ?_⟩
    obtain rfl := Option.some.inj (hn.symm.trans hn')
    obtain rfl := hd d' hd'
    obtain rfl := has as' has'
    exact ⟨iff_of_true ⟨copy, rfl⟩ hcopyable, fun h => absurd hcopyable h⟩
  · refine ⟨fun _ h => absurd h (by simp), fun e' h => Except.error.inj h ▸ rfl,
      fun _ n' d' as' hn' hd' has' => ?_⟩
    obtain rfl := Option.some.inj (hn.symm.trans hn')
    obtain rfl := hd d' hd'
    obtain rfl := has as' has'
    exact ⟨iff_of_false (by simp) hnot, fun _ => ⟨faults, hne, rfl⟩⟩

/-- The world with an empty file, made as the settings say by default. -/
def emptied : World := (((Construction.any .null).run (Maker.ofSettings {})).outcome {}).2

/-- Bytes as a key, and a word for a truth value. -/
def oddities : List Use :=
  [.put "data" (.bytes [0x6B]) (.int 1), .assign "stored" (.ofString "yes")]

/-- Bytes that encode a text pass as a key, and the word as a truth value. -/
theorem copy_iff_emptied : ∃ copy, (((Construction.any (.ref 7)).run (Maker.ofSettings {})).outcome
    (used (.ref 7) emptied oddities)).1 = .ok copy := by
  have hmade : ((Construction.any .null).run (Maker.ofSettings {})).outcome {} =
      (.ok (.ref 7), emptied) := by
    rw [emptied]
    exact Action.outcome_of_fst (by decide +kernel)
  have hcopying : Construction.any (.ref 7) = .file (.ref 7) ∨
      Construction.any (.ref 7) = .any (.ref 7) ∧ ∀ new, .assign "scheme" new ∉ oddities :=
    .inr ⟨rfl, by simp [oddities]⟩
  obtain ⟨f, hf, -, -, hcopy⟩ := copy_iff (Maker.ofSettings {}) hmade hcopying
  have hfile : (used (.ref 7) emptied oddities).store.file? (.ref 7) = some {
      naming := some ⟨.posix, []⟩, cwd := .ofString "/", value := .text [], data := .ref 4,
      messages := .ref 5
      stored := .ofString "yes", result := .null, map := .null, attributes := .ref 6
      encoding := .ofString "utf-8" } := by decide +kernel
  have hdata : (used (.ref 7) emptied oddities).store.dict? (.ref 4) =
      some [(.bytes [0x6B], .int 1)] := by
    decide +kernel
  have hmessages : ((used (.ref 7) emptied oddities).store.list? (.ref 5)).isSome := by
    decide +kernel
  have hattributes : (used (.ref 7) emptied oddities).store.dict? (.ref 6) = some [] := by
    decide +kernel
  obtain rfl := Option.some.inj (hfile.symm.trans hf)
  -- nothing else has to be known of the world
  generalize used (.ref 7) emptied oddities = w at *
  refine (hcopy ⟨rfl, by simp [hdata], hmessages, by simp [hattributes]⟩
    _ _ _ rfl hdata hattributes).1.mpr
    ⟨.inr ⟨_, rfl⟩, by simp, ?_, by simp, true, by decide +kernel⟩
  simp only [List.forall_mem_singleton]
  exact ⟨['k'], rfl⟩

/-- **A key that is no text** cannot be copied: the faults of the
check are not turned into a fault of options. -/
theorem make_numberedData : ∃ file w faults,
    ((Maker.ofSettings {}).make .null).outcome {} = (.ok file, w) ∧
    (((Maker.ofSettings {}).make file).outcome
      (used file w [.put "data" (.int 1) (.ofString "x")])).1 = .error (.invalid .options faults) ∧
    (Fault.invalid .options faults).kind.isFileError = false := by
  refine ⟨.ref 7, _, [⟨[.name "data".toList, .index 1, .name "[key]".toList], .text⟩],
    Action.outcome_of_fst ?_, ?_, rfl⟩
  · decide +kernel
  · decide +kernel

end Construction

end VirtualFile
