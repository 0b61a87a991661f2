import VirtualFile.Proofs.Naming.LastWrite
import VirtualFile.Proofs.Options.Record
/-!
# Options about the path

Of the options for a file, the history, the path and its four facets are about where it is. A
dictionary with these options and no others always passes the check (`PathOptions.check_of_listed`).

* `PathOptions`: a path and which of its facets are set beside it.
* `PathOptions.writes`: the facets as writes, from the general to the specific.
* `PathOptions.GivenBy`, `PathOptions.ListedIn`: the options among
  checked fields and in a dictionary.
-/

namespace VirtualFile
open VirtualFile.Path (Style)
open VirtualFile.Naming (Write)

/-- A path and the facets that are set beside it. -/
structure PathOptions where
  path : Text
  basename : Option Text := none
  stem : Option Text := none
  extname : Option Text := none
  dirname : Option Text := none
  deriving DecidableEq, Repr

namespace PathOptions

/-- The facets that are given, as writes in the order of the options. -/
def writes (o : PathOptions) : List Write :=
  (o.basename.map .basename).toList ++ (o.stem.map .stem).toList ++
    (o.extname.map .extension).toList ++ (o.dirname.map fun d => .directory (some d)).toList

/-- A path with an extension and facets that it takes. -/
structure Sound (o : PathOptions) : Prop where
  path : o.path ≠ []
  extension : Style.posix.extension o.path ≠ []
  writes : ∀ w ∈ o.writes, w.Sound

/-- The options among the checked fields. -/
structure GivenBy (o : PathOptions) (h : List Text) (c : Checked) : Prop where
  history : c.history.getD [] = h.map .text
  path : c.path = .text o.path
  basename : c.basename = .ofText? o.basename
  stem : c.stem = .ofText? o.stem
  extname : c.extname = .ofText? o.extname
  dirname : c.dirname = .ofText? o.dirname

/-- The keys of the options about the path. -/
def keys : List String := ["history", "path", "basename", "stem", "extname", "dirname"]

/-- The options as the entries of a dictionary that has no others. A
facet that is not given is missing or null. -/
structure ListedIn (o : PathOptions) (h : List Text) (s : Store) (es : Entries) : Prop where
  only : ∀ e ∈ es, ∃ name ∈ keys, e.1 = .ofString name
  history : ∃ hs, s.HoldsList ((Store.entryNamed? "history" es).getD .null) hs ∧
  hs.getD [] = h.map .text
  path : (Store.entryNamed? "path" es).getD .null = .text o.path
  basename : (Store.entryNamed? "basename" es).getD .null = .ofText? o.basename
  stem : (Store.entryNamed? "stem" es).getD .null = .ofText? o.stem
  extname : (Store.entryNamed? "extname" es).getD .null = .ofText? o.extname
  dirname : (Store.entryNamed? "dirname" es).getD .null = .ofText? o.dirname

end PathOptions

/-! ### The outcome in closed form -/

namespace PathOptions
variable (o : PathOptions)

/-- The directory of the path, in normal form. -/
def folder : Text := Style.posix.normalize (Style.posix.parent o.path)

/-- The stem once the basename has been set, if it is given. -/
def baseStem : Text :=
  let p := o.basename.getD o.path
  Style.posix.nameWithout p (Style.posix.extension p)

/-- The extension once the basename has been set, if it is given. -/
def baseExtension : Text := Style.posix.extension (o.basename.getD o.path)

/-- The stem: the one given, or else that of the basename, or else that of the path. -/
def finalStem : Text := o.stem.getD o.baseStem

/-- The extension: the one given, or else that of the basename, or else that of the path. -/
def finalExtension : Text := o.extname.getD o.baseExtension

/-- The directory: the one given, or else that of the path; in normal
form if anything is set beside the path. -/
def finalDirectory : Text :=
  match o.dirname with
  | some d => Style.posix.normalize d
  | none =>
    if o.basename = none ∧ o.stem = none ∧ o.extname = none then Style.posix.parent o.path
      else o.folder

/-- **The paths one after the other**: the path itself, then the one
after each facet that is given. -/
def trail : List Text :=
  o.path ::
    ((o.basename.map fun b => Style.posix.join [o.folder, b]).toList ++
      (o.stem.map fun s => Style.posix.join [o.folder, s ++ o.baseExtension]).toList ++
      (o.extname.map fun e => Style.posix.join [o.folder, o.finalStem ++ e]).toList ++
      (o.dirname.map fun d =>
        Style.posix.join [Style.posix.normalize d, o.finalStem ++ o.finalExtension]).toList)

end PathOptions

/-! ### Reading the fields -/

namespace Options
variable {s : Store} {es : Entries}

theorem optionalText_ofText? {name : String} {t : Option Text}
    (h : (Store.entryNamed? name es).getD .null = .ofText? t) :
    optionalText s name es = (.ofText? t, []) := by
  rw [optionalText, h]
  cases t <;> rfl

theorem textsFrom_texts (s : Store) (name : String) (h : List Text) (i : Nat) :
    textsFrom s name i (h.map .text) = (h.map .text, []) := by
  induction h generalizing i with
  | nil => rfl
  | cons t h ih =>
    rw [List.map_cons, textsFrom, ih]
    rfl

theorem historyField_texts {h : List Text} {hs : Option (List Value)}
    (hv : s.HoldsList ((Store.entryNamed? "history" es).getD .null) hs)
    (hhs : hs.getD [] = h.map .text) : historyField s es = (hs, []) := by
  rw [historyField]
  cases hs with
  | none =>
    rw [hv]
  | some vs =>
    obtain rfl : vs = h.map .text := hhs
    have hc : s.cell? ((Store.entryNamed? "history" es).getD .null) = some (.list (h.map .text)) :=
      hv
    obtain ⟨r, hr⟩ := Store.exists_ref hc
    rw [hr] at hc ⊢
    simp only [asList, hc, textsFrom_texts]

theorem entryNamed?_eq_none {names : List String}
    (h : ∀ e ∈ es, ∃ name ∈ names, e.1 = .ofString name) {name : String} (hname : name ∉ names) :
    Store.entryNamed? name es = none := by
  rw [Store.entryNamed?, Option.map_eq_none_iff, List.find?_eq_none]
  intro e he heq
  obtain ⟨k, hk, hek⟩ := h e he
  rw [hek, beq_iff_eq] at heq
  exact hname (String.toList_injective (Value.text.inj heq) ▸ hk)

theorem extraEntries_fields {names : List String} (hnames : ∀ name ∈ names, name ∈ reserved)
    (h : ∀ e ∈ es, ∃ name ∈ names, e.1 = .ofString name) : extraEntries es = ([], []) := by
  induction es with
  | nil => rfl
  | cons e es ih =>
    obtain ⟨⟨name, hname, hkey⟩, hes⟩ := List.forall_mem_cons.mp h
    obtain ⟨k, v⟩ := e
    obtain rfl : k = .text name.toList := hkey
    have hfield : Text.isOneOf name.toList reserved = true :=
      List.any_eq_true.mpr ⟨name, hnames name hname, by simp⟩
    simp only [extraEntries, ih hes, hfield, if_true]

end Options

/-! ### Dictionaries of path options -/

/-- **A dictionary of path options passes the check.** -/
theorem PathOptions.check_of_listed {o : PathOptions} {h : List Text} {s : Store} {es : Entries}
    (hes : o.ListedIn h s es) : ∃ c, Options.check s es = .ok c ∧ o.GivenBy h c := by
  obtain ⟨hs, hlist, hhs⟩ := hes.history
  have hnone : ∀ {name}, name ∉ keys → Store.entryNamed? name es = none :=
    Options.entryNamed?_eq_none hes.only
  have hcwd : Options.optionalText s "cwd" es = (.null, []) := by
    rw [Options.optionalText, hnone (by decide)]
    rfl
  have hdata : Options.dataField s es = (none, []) := by
    rw [Options.dataField, hnone (by decide)]
    rfl
  have hmessages : Options.messagesField s es = (none, []) := by
    rw [Options.messagesField, hnone (by decide)]
    rfl
  have hattributes : Options.attributesField s es = ([], []) := by
    rw [Options.attributesField, hnone (by decide)]
  have hstored : Options.storedField es = (false, []) := by
    rw [Options.storedField, hnone (by decide)]
  have hextra : Options.extraEntries es = ([], []) :=
    Options.extraEntries_fields (by decide) hes.only
  refine ⟨{
    history := hs, path := .text o.path, basename := .ofText? o.basename, stem := .ofText? o.stem,
    extname := .ofText? o.extname, dirname := .ofText? o.dirname }, ?_, hhs, rfl, rfl, rfl,
    rfl, rfl⟩
  rw [Options.check]
  simp only [hcwd, Options.historyField_texts hlist hhs, Options.optionalText_ofText? hes.basename,
    Options.optionalText_ofText? hes.stem, Options.optionalText_ofText? hes.extname,
    Options.optionalText_ofText? hes.dirname, hdata, hmessages, hstored, hattributes, hextra,
    hes.path]
  simp [hnone (show "value" ∉ keys by decide), hnone (show "result" ∉ keys by decide),
    hnone (show "map" ∉ keys by decide)]

end VirtualFile
