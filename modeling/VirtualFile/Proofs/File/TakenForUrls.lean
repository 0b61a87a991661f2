import VirtualFile.Proofs.File.Copying
import VirtualFile.Proofs.File.Siblings
import VirtualFile.Proofs.Naming.PathValues
/-!
# Files that pass for URLs

A file can be copied as such, or it can be handed in like any other input. What an input is taken
for is told by its attributes first: what has a scheme and a path is a URL. Every file has a path,
so once a caller has given it a scheme it is taken for a URL. What is made then is no copy but an
empty file at a path, if anything. As long as a file has no scheme, both ways to copy it agree, on
the copy or on the fault with which it is refused (`Construction.copies_agree`).

* `Agree`: outcomes that agree.
* `Maker.filed`, `Maker.pristine`: the snapshots of new files.
* `Use.IsFurther`: uses that assign no field of a file.
* `Maker.makesAt_make`: what is made of a file that passes for a URL.
-/

namespace VirtualFile

/-! ### Outcomes that agree -/

/-- **Two outcomes agree**: both are refused with the same fault, or
both are files with the same snapshot. -/
def Agree (a b : Except Fault Value × World) : Prop :=
  (∃ e, a.1 = .error e ∧ b.1 = .error e) ∨
    ∃ v u x, a.1 = .ok v ∧ b.1 = .ok u ∧ a.2.store.snapshot? v = some x ∧
    b.2.store.snapshot? u = some x

theorem not_agree_of_error {a b : Except Fault Value × World} {e : Fault} {v : Value}
    (ha : a.1 = .error e) (hb : b.1 = .ok v) : ¬ Agree a b := by
  rintro (⟨e', -, hb'⟩ | ⟨u, -, -, ha', -⟩)
  · exact absurd (hb.symm.trans hb') (by simp)
  · exact absurd (ha.symm.trans ha') (by simp)

namespace Action
variable {α : Type} {w w' : World}

/-- **Two ways to go on from one action** agree if they agree after whatever it returns. -/
theorem Ends.agree {a : Action α} {g g' : α → Action Value} {P : α → World → Prop}
    (ha : a.Ends w P fun _ _ => True)
    (h : ∀ x w', P x w' → Agree ((g x).outcome w') ((g' x).outcome w')) :
    Agree ((a >>= g).outcome w) ((a >>= g').outcome w) := by
  rw [outcome_bind, outcome_bind]
  rcases hx : a.outcome w with ⟨e | x, w₁⟩
  · exact .inl ⟨e, rfl, rfl⟩
  · exact h x w₁ (ha.of_ok hx)

theorem Returns.agree_iff {a b : Action Value} {x y : Snapshot}
    (ha : a.Returns w fun v w₁ => w₁.store.snapshot? v = some x)
    (hb : b.Returns w' fun v w₁ => w₁.store.snapshot? v = some y) :
    Agree (a.outcome w) (b.outcome w') ↔ x = y := by
  obtain ⟨v, w₁, hv, hx⟩ := ha
  obtain ⟨u, w₂, hu, hy⟩ := hb
  rw [hv, hu]
  constructor
  · rintro (⟨e, he, -⟩ | ⟨v', u', z, hv', hu', hz, hz'⟩)
    · exact absurd he (by simp)
    · obtain rfl := Except.ok.inj hv'
      obtain rfl := Except.ok.inj hu'
      exact Option.some.inj ((hx.symm.trans hz).trans (hy.symm.trans hz').symm)
  · rintro rfl
    exact .inr ⟨v, u, x, rfl, rfl, hx, hy⟩

end Action

/-! ### New files -/

namespace Maker
variable {m : Maker} {w : World} {v : Value} {o : Options} {c : Checked}

/-- **The snapshot of a new file** for what was checked, before any facet is set. -/
def filed (m : Maker) (c : Checked) (attributes : Entries) : Snapshot where
  history := c.history.getD []
  cwd := if c.cwd = .null then m.directory.path else c.cwd
  value := if c.value = .null then .text [] else c.value
  data := c.data.getD []
  messages := c.messages.getD []
  stored := .bool c.stored
  result := c.result
  map := c.map
  attributes := attributes

/-- The snapshot of a file with nothing but a path. -/
def pristine (m : Maker) (p : Text) : Snapshot := { m.filed {} [] with history := [.text p] }

theorem succeeds_blank_filed (m : Maker) (hr : o.Holds w.store c) {es : Entries}
    (hes : Options.extras w.store o = .ok es) :
    (m.blank o).Succeeds w fun file w' => ∃ f,
      w'.store.HoldsFile file f (c.data.getD []) (c.messages.getD []) es ∧
      f.naming = some ⟨m.style, c.history.getD []⟩ ∧
      w'.store.snapshot? file = some (m.filed c es) := by
  refine (succeeds_blank m hr).mono fun file w' ⟨f, es', hes', hf, hfields, _⟩ => ⟨f, ?_⟩
  obtain rfl := Except.ok.inj (hes.symm.trans hes')
  have hn : f.naming = some ⟨m.style, c.history.getD []⟩ := by rw [hfields]
  refine ⟨hf, hn, ?_⟩
  rw [hf.snapshot hn, hfields]
  rfl

theorem returns_ofOptions_unplaced (m : Maker) (hv : w.store.options? v = some o)
    (hr : o.Holds w.store c) (hfacets : facets o = []) {es : Entries}
    (hes : Options.extras w.store o = .ok es) :
    (m.ofOptions v).Returns w fun file w' => w'.store.snapshot? file = some (m.filed c es) := by
  obtain ⟨file, w', hblank, -, f, -, -, hsnapshot⟩ := m.succeeds_blank_filed hr hes
  exact ⟨file, w', (outcome_ofOptions_unplaced hv hfacets).trans hblank, hsnapshot⟩

end Maker

/-! ### Files that are taken for files -/

section File
variable {w : World} {v : Value} {f : File}

theorem ends_optionsOfFile_unplaced (hf : w.store.cell? v = some (.file f)) :
    (Action.optionsOfFile v).Ends w (fun record w' => ∃ o c, w'.store.options? record = some o ∧
      o.Holds w'.store c ∧ Maker.facets o = []) fun _ _ => True := by
  rw [Action.optionsOfFile_eq]
  refine (Action.ends_readCopy hf).forget.bind fun es w₁ hread => ?_
  obtain ⟨-, n, history, data, messages, attributes, -, -, -, -, rfl, -⟩ := hread
  have hnone := Options.entryNamed?_copyFields f history data messages attributes
  generalize Action.entriesOf (Options.copyFields f history data messages attributes) = es at hnone
  cases hcheck : Options.check w₁.store es with
  | error faults =>
    rw [Action.checkOptions]
    refine Action.ends_store_bind ?_
    rw [hcheck]
    exact Action.ends_throw trivial
  | ok c =>
    refine ((returns_checkOptions_unplaced hcheck hnone).mono fun record w₂ hrecord => ?_).ends
    obtain ⟨o, ho⟩ := hrecord
    exact ⟨o, c, ho⟩

/-- **A file that is taken for a file** is copied as such. -/
theorem Maker.agree_of_file {m : Maker} (hf : w.store.cell? v = some (.file f))
    (hurl : w.store.isUrl v = false) : Agree ((m.make v).outcome w) ((m.ofFile v).outcome w) := by
  rw [outcome_make_file hf hurl, ofFile, optionsOfShape]
  refine (ends_optionsOfFile_unplaced hf).agree fun record w₁ hrecord => ?_
  obtain ⟨o, c, ho, hr, hfacets⟩ := hrecord
  obtain ⟨es, hes⟩ := Options.exists_extras hr
  rw [Action.outcome_bind_ok _ (Action.outcome_note _ w₁)]
  -- the entry in the journal makes no difference to the file
  have hmade : ∀ w₂ : World, w₂.store = w₁.store → (m.ofOptions record).Returns w₂ fun file w' =>
      w'.store.snapshot? file = some (m.filed c es) := by
    intro w₂ hw₂
    rw [← hw₂] at ho hr hes
    exact m.returns_ofOptions_unplaced ho hr hfacets hes
  have hnoted := hmade { w₁ with journal := w₁.journal ++ [.resolved .file] } rfl
  exact (Action.Returns.agree_iff hnoted (hmade w₁ rfl)).mpr rfl

end File

/-! ### Files that are taken for URLs -/

theorem Options.check_path (s : Store) (v : Value) :
    check s (Action.entriesOf [("path", v)]) = .ok { path := v } := by
  generalize hes : Action.entriesOf [("path", v)] = es
  have hentry : ∀ name, Store.entryNamed? name es = [("path", v)].lookup name := fun name => by
    rw [← hes, entryNamed?_entriesOf]
  have hnone : ∀ name, name ≠ "path" → Store.entryNamed? name es = none := fun name hname => by
    rw [hentry, List.lookup_cons, beq_false_of_ne hname]
    rfl
  have honly : ∀ e ∈ es, ∃ name ∈ ["path"], e.1 = .ofString name := by
    rw [← hes]
    simp [Action.entriesOf]
  have hextra := extraEntries_fields (by decide) honly
  rw [check]
  simp only [optionalText, historyField, dataField, messagesField, storedField, attributesField,
    hextra, hentry "path"]
  simp [hnone]

namespace Store
variable {s s' : Store} {v : Value} {f : File}

/-- **A file that passes for a URL.** If an attribute that is read off
a URL refers to a cell, the cell is there. -/
structure PassesForUrl (s : Store) (v : Value) : Prop where
  file : ∃ f, s.cell? v = some (.file f)
  url : s.isUrl v = true
  live : ∀ name ∈ urlAttributes, ∀ x, s.attribute? v name = some x → s.Live x

theorem attribute?_extend_file (hf : s.cell? v = some (.file f)) (hle : s.Extends s')
    (name : String) : s'.attribute? v name = s.attribute? v name := by
  obtain ⟨r, rfl⟩ := exists_ref hf
  simp only [attribute?, hf, hle _ _ hf]

theorem PassesForUrl.extend (h : s.PassesForUrl v) (hle : s.Extends s') :
    s'.PassesForUrl v ∧ ∀ st, s'.urlPath st v = s.urlPath st v := by
  obtain ⟨f, hf⟩ := h.file
  have hattr := attribute?_extend_file hf hle
  refine ⟨⟨⟨f, hle _ _ hf⟩, ?_, fun name hname x hx => ?_⟩,
    fun st => urlPath_congr hattr h.live hle⟩
  · rw [isUrl, hasAttribute, hasAttribute, hattr, hattr]
    exact h.url
  · rw [hattr] at hx
    exact (h.live name hname x hx).extend hle

theorem HoldsFile.snapshot_renamed {w : World} {r : Ref} {data attributes : Entries}
    {messages : List Value} {n : Naming} {x : Snapshot}
    (hf : w.store.HoldsFile (.ref r) f data messages attributes) (hn : f.naming = some n)
    (hx : w.store.snapshot? (.ref r) = some x) (m : Naming × List Renaming) :
    (Action.renamed w r f m).store.snapshot? (.ref r) = some { x with history := m.1.history } := by
  obtain rfl := Option.some.inj ((hf.snapshot hn).symm.trans hx)
  have hrenamed : (Action.renamed w r f m).store.HoldsFile (.ref r)
      { f with naming := some m.1 } data messages
      attributes := hf.write_file rfl rfl
  exact hrenamed.snapshot rfl

end Store

namespace Maker
variable {m : Maker} {w : World} {v : Value}

/-- **An action that makes a file at the path in a URL**: the file has nothing else, and if there is
no path in the URL, the action is refused. -/
def MakesAt (m : Maker) (v : Value) (a : Action Value) (w : World) : Prop :=
  (∃ p, p ≠ [] ∧ w.store.urlPath m.style v = .ok p ∧
    a.Returns w fun file w' => w'.store.snapshot? file = some (m.pristine p)) ∨
  (∀ p, p ≠ [] → w.store.urlPath m.style v ≠ .ok p) ∧ ∃ e w', a.outcome w = (.error e, w')

theorem makesAt_ofOptions (m : Maker) {record : Value} {o : Options}
    (ho : w.store.options? record = some o) (hr : o.Holds w.store { path := v })
    (hv : w.store.PassesForUrl v) : m.MakesAt v (m.ofOptions record) w := by
  have hfacets : facets o = [(.path, v)] := by
    obtain ⟨f, hf⟩ := hv.file
    obtain ⟨r, rfl⟩ := Store.exists_ref hf
    rw [facets, hr.fields]
    rfl
  have hes : Options.extras w.store o = .ok [] := by
    rw [Options.extras, hr.attributes, hr.extra]
    rfl
  obtain ⟨file, w₁, hblank, hle, f, hf, hn, hsnapshot⟩ := m.succeeds_blank_filed hr hes
  obtain ⟨r, rfl⟩ := Store.exists_ref hf.file
  have hn : f.naming = some ⟨m.style, []⟩ := hn
  have hmade : (m.ofOptions record).outcome w = (do
      Action.setFacet (.ref r) .path v
      return .ref r : Action Value).outcome w₁ := by
    rw [ofOptions_record ho, ofRecord_eq, hfacets, Action.outcome_bind_ok _ hblank]
    simp only [List.forM_eq_forM, List.forM_cons, List.forM_nil, bind_assoc, pure_bind]
  have hset := Action.outcome_setFacet (Store.file?_of_cell? hf.file) hn .path v
  rw [Naming.set] at hset
  obtain ⟨hv₁, hpath⟩ := hv.extend hle
  rw [MakesAt, ← hpath]
  obtain ⟨p, hp, hpath, hsetPath⟩ | ⟨hnone, e, hsetPath⟩ := Naming.setPath_url ⟨m.style, []⟩ hv₁.url
  all_goals rw [hsetPath] at hset
  · refine .inl ⟨p, hp, hpath, .ref r, _, hmade.trans (Action.outcome_bind_ok _ hset), ?_⟩
    exact (hf.snapshot_renamed hn hsnapshot _).trans (by simp [Naming.rename, Naming.path,
      pristine, filed])
  · exact .inr ⟨hnone, e, w₁, hmade.trans (Action.outcome_bind_error _ hset)⟩

/-- **A file that passes for a URL** is not copied: a file is made at the path in the URL. -/
theorem makesAt_make (m : Maker) (hv : w.store.PassesForUrl v) : m.MakesAt v (m.make v) w := by
  obtain ⟨f, hf⟩ := hv.file
  have hoptions : w.store.options? v = none := by simp [Store.options?, hf]
  have hshape : shapeOf w.store v = .path := by
    obtain ⟨r, rfl⟩ := Store.exists_ref hf
    simp [shapeOf, hf, Store.bytes?, hv.url]
  obtain ⟨record, w₁, hrecord, hle, o, ho, hr, -⟩ :=
    Action.succeeds_checkOptions (Options.check_path w.store v)
  have hmade : (m.make v).outcome w =
      (m.ofOptions record).outcome { w₁ with journal := w₁.journal ++ [.resolved .path] } := by
    rw [outcome_make hoptions, hshape, optionsOfShape, Action.outcome_bind_ok _ hrecord,
      Action.outcome_bind_ok _ (Action.outcome_note _ w₁)]
  obtain ⟨hv₁, hpath⟩ := hv.extend hle
  have hmakes : m.MakesAt v (m.ofOptions record)
      { w₁ with journal := w₁.journal ++ [.resolved .path] } :=
    m.makesAt_ofOptions ho hr hv₁
  simpa only [MakesAt, Action.Returns, hmade, hpath] using hmakes

/-- A file that stands is always copied as such, so handing it in has to come to the same file. -/
theorem agree_iff_of_url {f : File} (hf : w.store.Stands v f) (hv : w.store.PassesForUrl v) :
    Agree ((m.make v).outcome w) ((m.ofFile v).outcome w) ↔
      ∃ p, p ≠ [] ∧ w.store.urlPath m.style v = .ok p ∧
        w.store.snapshot? v = some (m.pristine p) := by
  obtain ⟨data, messages, attributes, hholds, -⟩ := hf.holds
  obtain ⟨st, ts, hn⟩ := hf.sound.history
  obtain ⟨x, hx⟩ : ∃ x, w.store.snapshot? v = some x := ⟨_, hholds.snapshot hn⟩
  have hcopy := Action.Returns.mono (m.succeeds_ofFile hf) fun copy w' h => h.2.2.1.trans hx
  simp only [hx, Option.some.injEq]
  obtain ⟨p, hp, hpath, hmake⟩ | ⟨hnone, e, w', hmake⟩ := m.makesAt_make hv
  · rw [hmake.agree_iff hcopy]
    constructor
    · intro h
      exact ⟨p, hp, hpath, h.symm⟩
    · rintro ⟨q, -, hq, h⟩
      obtain rfl := Except.ok.inj (hpath.symm.trans hq)
      exact h.symm
  · obtain ⟨copy, w₂, hcopy, -⟩ := hcopy
    exact iff_of_false (not_agree_of_error (congrArg Prod.fst hmake) (congrArg Prod.fst hcopy))
      fun ⟨p, hp, hpath, _⟩ => hnone p hp hpath

end Maker

/-! ### Uses that assign no field -/

/-- The names under which a file keeps its own parts. -/
def File.ownNames : List String :=
  ["identity", "cwd", "value", "data", "messages", "stored", "result", "map", "attributes",
    "default_encoding"]

theorem File.assign_further (f : File) {name : String} (h : name ∉ ownNames) (v : Value) :
    f.assign name v = { f with extra := f.extra.assign name v } := by
  rw [File.assign.eq_def]
  split
  all_goals first
    | rfl
    | exact absurd (by decide) h

/-- **A use that assigns no field of a file**: a change, a value among
its messages, or a further attribute. -/
def Use.IsFurther : Use → Prop
  | .assign name _ => name ∉ File.ownNames
  | u => u.IsOwn

theorem edits_further {w : World} {v : Value} {f : File} (h : w.store.Stands v f) {u : Use}
    (hu : u.IsFurther) : (u.run v).Edits w v f := by
  cases u with
  | assign name new =>
    obtain ⟨data, messages, attributes, hf, -⟩ := h.holds
    obtain ⟨r, rfl⟩ := Store.exists_ref hf.file
    rw [Use.run, Action.assign]
    refine Action.ends_store_bind ?_
    simp only [hf.file]
    split
    · exact Action.edits_setFacet h _ new
    · split_ifs
      · exact Action.ends_throw h.edited
      · rw [f.assign_further hu new]
        refine Action.ends_of_after (I := fun w' => w.store.Edited w'.store (.ref r) f) ?_
        exact h.edited_file rfl ⟨h.sound.history, h.sound.cwd, h.sound.value, h.sound.stored⟩ rfl
  | edit e => exact edits_use h hu
  | append name new => exact edits_use h hu
  | _ => exact hu.elim

/-! ### Copies -/

namespace Construction
variable {m : Maker} {w₀ w₁ : World} {file : Value}

/-- **The two ways to copy a file agree** as long as it does not pass for a URL, however
it is made and whatever use is made of it; and it does not unless a scheme has been
assigned. A file that passes for a URL, and of which no field has been assigned, is always
copied as such. Handed in like any other input, it comes to the same only if it has
nothing but a path, and that is the path in the URL. -/
theorem copies_agree (m' : Maker) {k : Construction} (hmade : (k.run m).outcome w₀ = (.ok file, w₁))
    (us : List Use) :
    let w := used file w₁ us
    ((∀ new, .assign "scheme" new ∉ us) → w.store.isUrl file = false) ∧
    (w.store.isUrl file = false → Agree ((m'.make file).outcome w) ((m'.ofFile file).outcome w)) ∧
    ∀ t, m.directory.path = .text t → k.Sound w₀.store → (∀ u ∈ us, u.IsFurther) →
    w.store.PassesForUrl file →
      (Agree ((m'.make file).outcome w) ((m'.ofFile file).outcome w) ↔
        ∃ p, p ≠ [] ∧ w.store.urlPath m'.style file = .ok p ∧
          w.store.snapshot? file = some (m'.pristine p)) := by
  intro w
  obtain ⟨f, hf, hscheme⟩ := exists_used hmade us
  have hcell := Store.cell?_eq_of_file? hf
  refine ⟨fun hnot => ?_, Maker.agree_of_file hcell, fun t hdir hk hus hpasses => ?_⟩
  · rw [Store.isUrl_file hcell, hscheme hnot]
    rfl
  · obtain ⟨f₀, hf₀⟩ := (k.ends_run hdir hk).of_ok hmade
    obtain ⟨g, hg, -⟩ := edited_used_of hf₀ fun u hu _ _ hf => edits_further hf (hus u hu)
    exact Maker.agree_iff_of_url hg hpasses

/-- The world with a file at a path, made as the settings say by default. -/
def placed : World :=
  (((Construction.path (.ofString "/a.txt")).run (Maker.ofSettings {})).outcome {}).2

/-- A warning and a further attribute. -/
def remarks : List Use :=
  [.edit (.report .warning (.ofString "odd") .null .null), .assign "owner" (.ofString "me")]

/-- The scheme of local files. -/
def localScheme : List Use := [.assign "scheme" (.ofString "file")]

/-- The file with a warning and a further attribute is copied both ways. So is the file with nothing
but its path and the scheme of local files. -/
theorem copies_agree_placed :
    Agree (((Maker.ofSettings {}).make (.ref 7)).outcome (used (.ref 7) placed remarks))
      (((Maker.ofSettings {}).ofFile (.ref 7)).outcome (used (.ref 7) placed remarks)) ∧
    Agree (((Maker.ofSettings {}).make (.ref 7)).outcome (used (.ref 7) placed localScheme))
      (((Maker.ofSettings {}).ofFile (.ref 7)).outcome (used (.ref 7) placed localScheme)) := by
  have hmade : ((Construction.path (.ofString "/a.txt")).run (Maker.ofSettings {})).outcome {} =
      (.ok (.ref 7), placed) := by
    rw [placed]
    exact Action.outcome_of_fst (by decide +kernel)
  have hscheme : ∀ new, .assign "scheme" new ∉ remarks := by simp [remarks]
  have hfurther : ∀ u ∈ localScheme, u.IsFurther := by
    simp [localScheme, Use.IsFurther, File.ownNames]
  have hfile : (used (.ref 7) placed localScheme).store.cell? (.ref 7) = some (.file {
      naming := some ⟨.posix, [.ofString "/a.txt"]⟩, cwd := .ofString "/", value := .text [],
      data := .ref 4
      messages := .ref 5, stored := .bool false, result := .null, map := .null, attributes := .ref 6
      encoding := .ofString "utf-8", extra := [("scheme", .ofString "file")] }) := by decide +kernel
  have hpasses : (used (.ref 7) placed localScheme).store.PassesForUrl (.ref 7) := by
    refine ⟨⟨_, hfile⟩, by decide +kernel, ?_⟩
    -- no attribute of a URL refers to a cell
    simp [Store.urlAttributes, Store.attribute?, hfile, File.fields, Store.Live, Naming.path,
      List.lookup_cons, Value.ofString]
  have hsnapshot : (used (.ref 7) placed localScheme).store.snapshot? (.ref 7) =
      some ((Maker.ofSettings {}).pristine "/a.txt".toList) := by decide +kernel
  obtain ⟨hplain, hagree, -⟩ := copies_agree (Maker.ofSettings {}) hmade remarks
  obtain ⟨-, -, hiff⟩ := copies_agree (Maker.ofSettings {}) hmade localScheme
  exact ⟨hagree (hplain hscheme), (hiff _ rfl trivial hfurther hpasses).mpr
    ⟨"/a.txt".toList, by decide, by decide +kernel, hsnapshot⟩⟩

/-- A scheme of its own. -/
def ownScheme : List Use := [.assign "scheme" (.ofString "draft")]

/-- **A file with a scheme of its own** is refused as a URL, although it can be copied as a file. -/
theorem make_schemed : ∃ file w copy,
    ((Construction.path (.ofString "/a.txt")).run (Maker.ofSettings {})).outcome {} =
      (.ok file, w) ∧
    (((Maker.ofSettings {}).make file).outcome (used file w ownScheme)).1 = .error (.url .scheme) ∧
    (((Maker.ofSettings {}).ofFile file).outcome (used file w ownScheme)).1 = .ok copy ∧
    ¬ Agree (((Maker.ofSettings {}).make file).outcome (used file w ownScheme))
      (((Maker.ofSettings {}).ofFile file).outcome (used file w ownScheme)) := by
  have hmake : (((Maker.ofSettings {}).make (.ref 7)).outcome (used (.ref 7) placed ownScheme)).1 =
      .error (.url .scheme) := by decide +kernel
  have hcopy :
      (((Maker.ofSettings {}).ofFile (.ref 7)).outcome (used (.ref 7) placed ownScheme)).1 =
      .ok (.ref 22) := by decide +kernel
  refine ⟨.ref 7, placed, .ref 22, ?_, hmake, hcopy, not_agree_of_error hmake hcopy⟩
  rw [placed]
  exact Action.outcome_of_fst (by decide +kernel)

end Construction

end VirtualFile
