import VirtualFile.Proofs.Maker.Blank
import VirtualFile.Proofs.Naming.PathValues
import VirtualFile.Proofs.Options.Shapes
/-!
# Which error a dictionary of options leads to

Making a file from a dictionary ends in one of three ways. The dictionary does not pass
the check and all its faults are reported; or a setter refuses one of the facets, and the
error is that of the first facet that is refused; or the file is made (`Maker.make_dict`).
The error is one of the family, whatever the keys and the values are, with one exception:
an object that stands for a path but gives none (`Store.Misdirected`) is refused before
the setter looks at it (`Maker.make_misdirected`).

* `Naming.SoundCall`: the calls that options lead to.
* `Naming.FirstRefusal`, `Naming.run_eq_error`: the first call of a run that is refused.
* `Action.outcome_run`: the run on a file in a world, by induction on the calls.
-/

namespace VirtualFile
open VirtualFile.Naming (Write)

/-- A value is a file with a naming. -/
def Store.IsNamed (s : Store) (v : Value) (n : Naming) : Prop :=
  ∃ f, s.file? v = some f ∧ f.naming = some n

/-! ### Calls -/

namespace Naming
variable {s s' : Store} {n : Naming} {p : Option Text} {call : Facet × Value}
  {calls : List (Facet × Value)} {e : Fault}

/-- **A sound call** writes a text, or sets the path to a value of which the parts can be read. -/
def SoundCall (s : Store) (call : Facet × Value) : Prop :=
  (∃ w : Write, call = w.call) ∨ call.1 = .path ∧ s.Readable call.2

/-- A fault of the family, or that of a path that is misdirected. -/
def Refuses (s : Store) (call : Facet × Value) (e : Fault) : Prop :=
  e.IsNaming ∨ e = .mistyped ∧ call.1 = .path ∧ s.Misdirected call.2

theorem set_sound (hcall : SoundCall s call) (hp : n.path = .ofText? p) :
    (∃ q, n.set s call.1 call.2 = .ok (n.rename q)) ∨
      ∃ e, n.set s call.1 call.2 = .error e ∧ Refuses s call e := by
  obtain ⟨w, rfl⟩ | ⟨hpath, hread⟩ := hcall
  · rw [set_text s hp w]
    cases h : w.target n.style p with
    | ok x => exact .inl ⟨_, rfl⟩
    | error e => exact .inr ⟨e, rfl, .inl (Write.target_error h)⟩
  · obtain ⟨facet, v⟩ := call
    obtain rfl : facet = .path := hpath
    obtain hset | ⟨e, hset, hnaming | ⟨hmistyped, h⟩⟩ := setPath_readable n hread
    · exact .inl hset
    · exact .inr ⟨e, hset, .inl hnaming⟩
    · exact .inr ⟨e, hset, .inr ⟨hmistyped, rfl, h⟩⟩

theorem set_extend (hcall : SoundCall s call) (hp : n.path = .ofText? p) (hle : s.Extends s') :
    n.set s' call.1 call.2 = n.set s call.1 call.2 := by
  obtain ⟨w, rfl⟩ | ⟨hpath, hread⟩ := hcall
  · rw [set_text s' hp w, set_text s hp w]
  · obtain ⟨facet, v⟩ := call
    obtain rfl : facet = .path := hpath
    exact setPath_extend n hread hle

/-- **The first call of a run that is refused**, and its fault. -/
def FirstRefusal (s : Store) (n : Naming) (calls : List (Facet × Value)) (e : Fault) : Prop :=
  ∃ before facet new after n', calls = before ++ (facet, new) :: after ∧ n.run s before = .ok n' ∧
    n'.set s facet new = .error e

/-- **A run is refused by its first refusal.** -/
theorem run_eq_error : n.run s calls = .error e ↔ FirstRefusal s n calls e := by
  induction calls generalizing n with
  | nil => simp [run, FirstRefusal]
  | cons call calls ih =>
    obtain ⟨facet, new⟩ := call
    rw [run]
    constructor
    · intro h
      cases hset : n.set s facet new with
      | error e' =>
        rw [hset] at h
        exact ⟨[], facet, new, calls, n, rfl, rfl, hset.trans (congrArg _ (Except.error.inj h))⟩
      | ok m =>
        rw [hset] at h
        obtain ⟨before, facet', new', after, n', rfl, hrun, hrefused⟩ := ih.mp h
        refine ⟨(facet, new) :: before, facet', new', after, n', rfl, ?_, hrefused⟩
        rw [run, hset]
        exact hrun
    · rintro ⟨before, facet', new', after, n', hcalls, hrun, hrefused⟩
      cases before with
      | nil =>
        obtain ⟨⟨⟩, rfl⟩ := List.cons.inj hcalls
        obtain rfl := Except.ok.inj hrun
        rw [hrefused]
        rfl
      | cons first before =>
        obtain ⟨rfl, rfl⟩ := List.cons.inj hcalls
        rw [run] at hrun
        cases hset : n.set s facet new with
        | error e' =>
          rw [hset] at hrun
          exact absurd hrun (by simp)
        | ok m =>
          rw [hset] at hrun
          exact ih.mpr ⟨before, facet', new', after, n', rfl, hrun, hrefused⟩

theorem refuses_of_run (hcalls : ∀ call ∈ calls, SoundCall s call) (hp : n.path = .ofText? p)
    (h : n.run s calls = .error e) : ∃ call ∈ calls, Refuses s call e := by
  induction calls generalizing n p with
  | nil => exact absurd h (by simp [run])
  | cons call calls ih =>
    obtain ⟨hcall, hcalls⟩ := List.forall_mem_cons.mp hcalls
    rw [run] at h
    obtain ⟨q, hq⟩ | ⟨e', he', hrefuses⟩ := set_sound hcall hp
    · rw [hq] at h
      obtain ⟨call', hmem, hrefuses⟩ := ih hcalls (p := some q) (path_rename n q) h
      exact ⟨call', List.mem_cons_of_mem _ hmem, hrefuses⟩
    · rw [he'] at h
      exact ⟨call, List.mem_cons_self, Except.error.inj h ▸ hrefuses⟩

theorem run_extend (hcalls : ∀ call ∈ calls, SoundCall s call) (hp : n.path = .ofText? p)
    (hle : s.Extends s') : n.run s' calls = n.run s calls := by
  induction calls generalizing n p with
  | nil => rfl
  | cons call calls ih =>
    obtain ⟨hcall, hcalls⟩ := List.forall_mem_cons.mp hcalls
    rw [run, run, set_extend hcall hp hle]
    obtain ⟨q, hq⟩ | ⟨e, he, -⟩ := set_sound hcall hp
    · rw [hq]
      exact ih hcalls (p := some q) (path_rename n q)
    · rw [he]
      rfl

end Naming

/-! ### A run in a world -/

namespace Action
variable {s : Store} {w : World} {v : Value} {n : Naming} {p : Option Text}
  {calls : List (Facet × Value)}

/-- **A run of setters on a file** that is newer than a store ends as the run in that store does. -/
theorem outcome_run (hcalls : ∀ call ∈ calls, Naming.SoundCall s call) (hp : n.path = .ofText? p)
    (hv : w.store.IsNamed v n) (hnew : s.cell? v = none) (hle : s.Extends w.store) :
    match n.run s calls with
    | .ok n' => ∃ w', (calls.forM fun call => setFacet v call.1 call.2).outcome w = (.ok (), w') ∧
        w'.store.IsNamed v n'
    | .error e =>
      ∃ w', (calls.forM fun call => setFacet v call.1 call.2).outcome w = (.error e, w') := by
  induction calls generalizing w n p with
  | nil => exact ⟨w, rfl, hv⟩
  | cons call calls ih =>
    obtain ⟨hcall, hcalls⟩ := List.forall_mem_cons.mp hcalls
    obtain ⟨f, hf, hn⟩ := hv
    obtain ⟨r, rfl⟩ := Store.exists_ref (Store.cell?_eq_of_file? hf)
    have hset := outcome_setFacet hf hn call.1 call.2
    rw [Naming.set_extend hcall hp hle] at hset
    rw [Naming.run]
    obtain ⟨q, hq⟩ | ⟨e, he, -⟩ := Naming.set_sound hcall hp
    · -- the file has been renamed, and no cell of the old store has changed
      rw [hq] at hset ⊢
      have hrest :=
        ih (w := renamed w r f (n.rename q)) hcalls (p := some q) (Naming.path_rename n q)
          ⟨_, Store.file?_write _ hf, rfl⟩ (hle.write hnew _)
      simp only [bind, Except.bind]
      split
      · next n' hrun =>
        rw [hrun] at hrest
        obtain ⟨w', hout, hv'⟩ := hrest
        exact ⟨w', (outcome_bind_ok _ hset).trans hout, hv'⟩
      · next e hrun =>
        rw [hrun] at hrest
        obtain ⟨w', hout⟩ := hrest
        exact ⟨w', (outcome_bind_ok _ hset).trans hout⟩
    · rw [he] at hset ⊢
      exact ⟨w, outcome_bind_error _ hset⟩

end Action

/-! ### The facets of options -/

/-- The facets that checked options set, from the general to the specific. -/
def Checked.facets (c : Checked) : List (Facet × Value) :=
  [(.path, c.path), (.basename, c.basename), (.stem, c.stem), (.extname, c.extname),
   (.dirname, c.dirname)].filter (·.2 ≠ .null)

/-- **The facets of checked options** are the path, if there is one, and then writes. -/
theorem Checked.Sound.facets_eq {c : Checked} (hc : c.Sound) : ∃ ws : List Write,
    c.facets = [(Facet.path, c.path)].filter (·.2 ≠ .null) ++ ws.map Write.call := by
  -- a text that is not missing is written
  have hone : ∀ (facet : Facet) (write : Text → Write) {v : Value},
      (∀ u, (write u).call = (facet, .text u)) →
      (∃ t, v = .ofText? t) →
      ∃ ws : List Write, [(facet, v)].filter (·.2 ≠ .null) = ws.map Write.call := by
    rintro facet write _ hwrite ⟨_ | u, rfl⟩
    · exact ⟨[], rfl⟩
    · exact ⟨[write u], by rw [List.map_singleton, hwrite]; rfl⟩
  obtain ⟨bs, hbs⟩ := hone .basename .basename (fun _ => rfl) hc.basename
  obtain ⟨ts, hts⟩ := hone .stem .stem (fun _ => rfl) hc.stem
  obtain ⟨xs, hxs⟩ := hone .extname .extension (fun _ => rfl) hc.extname
  obtain ⟨ds, hds⟩ := hone .dirname (fun u => .directory (some u)) (fun _ => rfl) hc.dirname
  refine ⟨bs ++ (ts ++ (xs ++ ds)), ?_⟩
  rw [List.map_append, List.map_append, List.map_append, ← hbs, ← hts, ← hxs, ← hds]
  simp only [← List.filter_append]
  rfl

/-- **The facets of checked options are sound calls**: all but the path are texts. -/
theorem Checked.Sound.facets {c : Checked} (hc : c.Sound) {s : Store} (hpath : s.Readable c.path) :
    ∀ call ∈ c.facets, Naming.SoundCall s call := by
  intro call hcall
  obtain ⟨ws, hws⟩ := hc.facets_eq
  rw [hws, List.mem_append] at hcall
  obtain hmem | hmem := hcall
  · obtain rfl := List.mem_singleton.mp (List.mem_of_mem_filter hmem)
    exact .inr ⟨rfl, hpath⟩
  · obtain ⟨x, -, rfl⟩ := List.mem_map.mp hmem
    exact .inl ⟨x, rfl⟩

theorem Checked.Sound.path_history {c : Checked} (hc : c.Sound) (st : Path.Style) :
    ∃ p, Naming.path ⟨st, c.history.getD []⟩ = .ofText? p := by
  cases h : c.history with
  | none => exact ⟨none, rfl⟩
  | some vs =>
    obtain ⟨ts, rfl⟩ := hc.history vs h
    exact ⟨_, Naming.path_of_history ts⟩

section Misdirected
variable {c : Checked} {s : Store} {n : Naming}

/-- A misdirected path is the first facet, so that no other one is looked at. -/
theorem Checked.run_misdirected (h : s.Misdirected c.path) :
    n.run s c.facets = .error .mistyped := by
  have hnull : c.path ≠ .null := by
    rintro hnull
    obtain ⟨-, _, _, hc, -⟩ := h
    exact absurd hc (by simp [hnull, Store.cell?])
  rw [Checked.facets, List.filter_cons_of_pos (by simpa using hnull), Naming.run, Naming.set,
    Naming.setPath_misdirected n h]
  rfl

/-- **What the facets of checked options are refused with.** -/
theorem Checked.Sound.run_facets_error (hc : c.Sound) (hpath : s.Readable c.path) {p : Option Text}
    (hp : n.path = .ofText? p) {e : Fault} (h : n.run s c.facets = .error e) :
    e.IsNaming ∨ e = .mistyped ∧ s.Misdirected c.path := by
  obtain ⟨⟨facet, v⟩, hmem, hnaming | ⟨hmistyped, hfacet, hv⟩⟩ :=
    Naming.refuses_of_run (hc.facets hpath) hp h
  · exact .inl hnaming
  · -- the only path among the facets
    obtain rfl : facet = .path := hfacet
    obtain rfl : v = c.path := by simpa using List.mem_of_mem_filter hmem
    exact .inr ⟨hmistyped, hv⟩

end Misdirected

/-! ### Making the file -/

namespace Maker
variable {m : Maker} {w : World} {v : Value} {es : Entries} {c : Checked} {o : Options}

/-- What an action comes to that makes a file whose naming is given by a run of setters. -/
def Comes (a : Action Value) (w : World) : Except Fault Naming → Prop
  | .ok n => ∃ file w', a.outcome w = (.ok file, w') ∧ w'.store.IsNamed file n
  | .error e => ∃ w', a.outcome w = (.error e, w')

theorem Comes.error_iff {a : Action Value} {r : Except Fault Naming} {e : Fault} (h : Comes a w r) :
    (∃ w', a.outcome w = (.error e, w')) ↔ r = .error e := by
  cases r with
  | ok n =>
    obtain ⟨file, w₁, hout, -⟩ := h
    simp [hout]
  | error e' =>
    obtain ⟨w₁, hout⟩ := h
    simp [hout]

theorem Comes.of_outcome {a b : Action Value} {w w' : World} {r : Except Fault Naming}
    (hb : Comes b w' r) (h : a.outcome w = b.outcome w') : Comes a w r := by
  cases r with
  | ok n => rwa [Comes, h]
  | error e => rwa [Comes, h]

theorem facets_of_holds {s : Store} (hr : o.Holds s c) : facets o = c.facets := by
  rw [facets, hr.fields, Checked.facets]

theorem comes_ofRecord (hr : o.Holds w.store c) (hc : c.Sound) (hpath : w.store.Readable c.path) :
    Comes (m.ofRecord o) w (Naming.run w.store ⟨m.style, c.history.getD []⟩ c.facets) := by
  obtain ⟨p, hp⟩ := hc.path_history m.style
  obtain ⟨file, w₁, hblank, hle, f, es, -, hf, hfields, hnew, -⟩ := succeeds_blank m hr
  have hfile : w.store.cell? file = none :=
    hnew file (by simp [File.cells]) ((hle.holdsDict hr.data).ne_file hf.file)
  have hrun := Action.outcome_run (hc.facets hpath) hp
    ⟨f, Store.file?_of_cell? hf.file, by rw [hfields]⟩ hfile hle
  rw [ofRecord_eq, facets_of_holds hr]
  cases h : Naming.run w.store ⟨m.style, c.history.getD []⟩ c.facets with
  | ok n =>
    rw [h] at hrun
    obtain ⟨w₂, hout, hn⟩ := hrun
    refine ⟨file, w₂, ?_, hn⟩
    rw [Action.outcome_bind_ok _ hblank, Action.outcome_bind_ok _ hout]
    rfl
  | error e =>
    rw [h] at hrun
    obtain ⟨w₂, hout⟩ := hrun
    refine ⟨w₂, ?_⟩
    rw [Action.outcome_bind_ok _ hblank, Action.outcome_bind_error _ hout]

theorem resolve_dict (hv : w.store.dict? v = some es) : (resolve v).outcome w = (do
    let o ← Action.optionsOfEntries v
    Action.note (.resolved .options)
    return o).outcome w := by
  have hc := Store.dict?_eq_some.mp hv
  obtain ⟨r, rfl⟩ := Store.exists_ref hc
  have hoptions : w.store.options? (.ref r) = none := by simp [Store.options?, hc]
  have hshape : shapeOf w.store (.ref r) = .options := by
    simp [shapeOf, hc, Store.bytes?, Store.isUrl, Store.hasAttribute, Store.attribute?,
      Store.isPathLike]
  rw [outcome_resolve hoptions, hshape, optionsOfShape]

theorem resolve_refused {faults : List OptionFault} (hv : w.store.dict? v = some es)
    (h : Options.check w.store es = .error faults) :
    (resolve v).outcome w = (.error (.options faults), w) := by
  have hcheck : (Action.checkOptions es).outcome w = (.error (.invalid .options faults), w) := by
    rw [Action.checkOptions, Action.outcome_bind_ok _ (Action.outcome_store w), h]
    rfl
  have hentries : (Action.ofStore (·.entries v)).outcome w = (.ok es, w) := by
    rw [Action.outcome_ofStore, Store.entries_dict hv]
  have hread : (Action.optionsOfEntries v).outcome w = (.error (.options faults), w) := by
    rw [Action.optionsOfEntries, Action.outcome_bind_ok _ hentries]
    rw [Action.outcome_asOptionFault, hcheck]
  rw [resolve_dict hv]
  exact Action.outcome_bind_error _ hread

theorem succeeds_resolve (hv : w.store.dict? v = some es) (h : Options.check w.store es = .ok c) :
    (resolve v).Succeeds w fun v' w' => ∃ o,
      w'.store.options? v' = some o ∧ o.Holds w'.store c := by
  obtain ⟨v', w', hout, hle, hrecord⟩ := Action.succeeds_optionsOfEntries (Store.entries_dict hv) h
  refine ⟨v', { w' with journal := w'.journal ++ [.resolved .options] }, ?_, hle, hrecord⟩
  rw [resolve_dict hv, Action.outcome_bind_ok _ hout,
    Action.outcome_bind_ok _ (Action.outcome_note _ w')]
  rfl

theorem path_of_check {s : Store} (h : Options.check s es = .ok c) :
    c.path = (Store.entryNamed? "path" es).getD .null := by
  rw [Options.check] at h
  dsimp only at h
  split at h
  · obtain rfl := Except.ok.inj h
    rfl
  · exact absurd h (by simp)

theorem comes_make (hv : w.store.dict? v = some es) (h : Options.check w.store es = .ok c)
    (hpath : w.store.Readable ((Store.entryNamed? "path" es).getD .null)) :
    Comes (m.make v) w (Naming.run w.store ⟨m.style, c.history.getD []⟩ c.facets) := by
  have hc := Options.check_sound h
  rw [← path_of_check h] at hpath
  obtain ⟨v', w', hresolve, hle, o, ho, hholds⟩ := succeeds_resolve hv h
  have hcomes := comes_ofRecord (m := m) hholds hc (hpath.extend hle)
  obtain ⟨p, hp⟩ := hc.path_history m.style
  rw [Naming.run_extend (hc.facets hpath) hp hle] at hcomes
  have hmake : (m.make v).outcome w = (m.ofRecord o).outcome w' := by
    rw [make, Action.outcome_bind_ok _ hresolve, ofOptions_record ho]
  exact hcomes.of_outcome hmake

theorem make_refused {faults : List OptionFault} (hv : w.store.dict? v = some es)
    (h : Options.check w.store es = .error faults) :
    (m.make v).outcome w = (.error (.options faults), w) := by
  rw [make]
  exact Action.outcome_bind_error _ (resolve_refused hv h)

section Passed
variable (hv : w.store.dict? v = some es) (h : Options.check w.store es = .ok c)
  (hpath : w.store.Readable ((Store.entryNamed? "path" es).getD .null)) {e : Fault}
include hv h hpath

theorem make_error_iff : (∃ w', (m.make v).outcome w = (.error e, w')) ↔
    Naming.run w.store ⟨m.style, c.history.getD []⟩ c.facets = .error e :=
  (comes_make hv h hpath).error_iff

/-- **The errors once the check is passed**: one of a setter, or that of a misdirected path. -/
theorem make_error_cases (hout : ∃ w', (m.make v).outcome w = (.error e, w')) :
    e.IsNaming ∨
      e = .mistyped ∧ w.store.Misdirected ((Store.entryNamed? "path" es).getD .null) := by
  have hrun := (make_error_iff hv h hpath).mp hout
  have hc := Options.check_sound h
  obtain ⟨p, hp⟩ := hc.path_history m.style
  rw [← path_of_check h] at hpath ⊢
  exact hc.run_facets_error hpath hp hrun

theorem make_mistyped_iff : (∃ w', (m.make v).outcome w = (.error .mistyped, w')) ↔
    w.store.Misdirected ((Store.entryNamed? "path" es).getD .null) := by
  refine ⟨fun hout => ?_, fun hmisdirected => ?_⟩
  · obtain hnaming | ⟨-, hmisdirected⟩ := make_error_cases hv h hpath hout
    · exact absurd hnaming.1 (by decide)
    · exact hmisdirected
  · rw [← path_of_check h] at hmisdirected
    exact (make_error_iff hv h hpath).mpr (Checked.run_misdirected hmisdirected)

theorem make_ends :
    (∃ file w', (m.make v).outcome w = (.ok file, w') ∧ (w'.store.file? file).isSome) ∨
      ∃ e w', (m.make v).outcome w = (.error e, w') := by
  have hcomes := comes_make (m := m) hv h hpath
  cases hrun : Naming.run w.store ⟨m.style, c.history.getD []⟩ c.facets with
  | ok n =>
    rw [hrun] at hcomes
    obtain ⟨file, w', hout, f, hf, -⟩ := hcomes
    exact .inl ⟨file, w', hout, by rw [hf]; rfl⟩
  | error e => exact .inr ⟨e, hcomes.error_iff.mpr hrun⟩

end Passed

/-- **What every dictionary leads to.** A file is made, or there is an error: one of the
family, unless the dictionary passes the check and its path is misdirected. The error is
one of options if and only if the dictionary does not pass the check. If it passes, an
error is that of the first facet, from the path over the name, the stem and the extension
to the directory, that its setter refuses. -/
theorem make_dict (hv : w.store.dict? v = some es)
    (hpath : w.store.Readable ((Store.entryNamed? "path" es).getD .null)) :
    ((∃ file w', (m.make v).outcome w = (.ok file, w') ∧ (w'.store.file? file).isSome) ∨
      ∃ e w', (m.make v).outcome w = (.error e, w') ∧ (e.kind.isFileError = true ∨ e = .mistyped)) ∧
    ((∃ w', (m.make v).outcome w = (.error .mistyped, w')) ↔
      (∃ c, Options.check w.store es = .ok c) ∧
        w.store.Misdirected ((Store.entryNamed? "path" es).getD .null)) ∧
    ((∃ e w', (m.make v).outcome w = (.error e, w') ∧ e.kind = .invalidOptions) ↔
      ∃ faults, Options.check w.store es = .error faults) ∧
    ∀ c, Options.check w.store es = .ok c → ∀ e, (∃ w', (m.make v).outcome w = (.error e, w')) ↔
      Naming.FirstRefusal w.store ⟨m.style, c.history.getD []⟩ c.facets e := by
  cases h : Options.check w.store es with
  | error faults =>
    have hmake := make_refused (m := m) hv h
    refine ⟨.inr ⟨_, w, hmake, .inl rfl⟩, ⟨?_, fun ⟨⟨c, hc⟩, _⟩ => absurd hc (by simp)⟩,
      ⟨fun _ => ⟨faults, rfl⟩, fun _ => ⟨_, w, hmake, rfl⟩⟩, fun c hc => absurd hc (by simp)⟩
    rintro ⟨w', hout⟩
    exact absurd (hmake.symm.trans hout) (by simp)
  | ok c =>
    refine ⟨?_, ?_, ⟨?_, fun ⟨faults, hfaults⟩ => absurd hfaults (by simp)⟩, ?_⟩
    · refine (make_ends hv h hpath).imp_right fun ⟨e, w', hout⟩ => ⟨e, w', hout, ?_⟩
      exact (make_error_cases hv h hpath ⟨w', hout⟩).imp And.left And.left
    · exact (make_mistyped_iff hv h hpath).trans ⟨fun hm => ⟨⟨c, rfl⟩, hm⟩, And.right⟩
    · -- setters do not complain about options
      rintro ⟨e, w', hout, hkind⟩
      obtain hnaming | ⟨rfl, -⟩ := make_error_cases hv h hpath ⟨w', hout⟩
      · exact absurd hkind hnaming.2
      · exact absurd hkind (by decide)
    · intro c' hc' e
      obtain rfl := Except.ok.inj hc'
      exact (make_error_iff hv h hpath).trans Naming.run_eq_error

/-- A world with a dictionary whose path is a URL without a host, and
whose extension lacks its dot. -/
def dotless : World where
  store := { cells := #[
    .object [("scheme", .ofString "file"), ("host", .null), ("path", .ofString "/src/a%20b.c")] [],
    .dict [(.ofString "extname", .ofString "d"), (.ofString "path", .ref 0),
      (.ofString "tag", .int 1)]] }

/-- The path is set and the extension refused. -/
theorem make_dict_dotless : ∃ w',
    (make ⟨.posix, .ofString "utf-8", .fixed (.ofString "/")⟩ (.ref 1)).outcome dotless =
      (.error .noDot, w') := by
  have hread : dotless.store.Readable (.ref 0) := by
    refine ⟨?_, fun o ho => absurd ho (by simp [dotless, Store.options?, Store.cell?]), fun _ => ?_⟩
    · rintro _ ⟨⟩
      rfl
    · simp only [Store.urlAttributes, List.forall_mem_cons]
      exact ⟨⟨some "file".toList, rfl⟩, ⟨none, rfl⟩, ⟨none, rfl⟩, ⟨some "/src/a%20b.c".toList, rfl⟩,
        by simp⟩
  obtain ⟨-, -, -, h⟩ := make_dict (m := ⟨.posix, .ofString "utf-8", .fixed (.ofString "/")⟩)
    (w := dotless) (v := .ref 1) rfl hread
  exact (h _ rfl .noDot).mpr ⟨[(.path, .ref 0)], .extname, .ofString "d", [],
    ⟨.posix, [.ofString "/src/a b.c"]⟩, rfl, by decide +kernel, by decide +kernel⟩

/-- **A path that is misdirected.** An object that stands for a path
gives a number, and the error is none of the family. -/
theorem make_misdirected : ∃ e,
    ((make ⟨.posix, .ofString "utf-8", .fixed (.ofString "/")⟩ (.ref 1)).outcome
      { store := { cells := #[.pathLike (.int 1) [], .dict [(.ofString "path", .ref 0)]] } }).1 =
        .error e ∧
    e.kind.isFileError = false :=
  ⟨.mistyped, by decide +kernel, rfl⟩

end Maker

end VirtualFile
