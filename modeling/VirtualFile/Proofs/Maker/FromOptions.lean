import VirtualFile.Proofs.Naming.History
import VirtualFile.Proofs.Maker.Blank
import VirtualFile.Proofs.Options.PathOptions
/-!
# Files from options about the path

A file that is made from options has its path set first and the facets after it, each on top of
those before. Where it ends, and which paths it visits on the way, depends on the options alone and
is told in closed form (`Maker.ofOptions_path`).

* `Parts.trail`: the paths that a run of writes visits, which `PathOptions.trail` lists.
* `Action.returns_writes`: the run on a file in a world, by induction on the writes.
* `Maker.returns_ofRecord`: a file from a record of options.
* `PathOptions.Input`: the inputs, which are dictionaries and records.
-/

namespace VirtualFile
open VirtualFile.Path (Style Parted)
open VirtualFile.Naming (Write Parts)

/-! ### The paths of a run -/

namespace Naming

/-- The paths of a run of writes, one for each. -/
def Parts.trail : Parts → List Write → List Text
  | _, [] => []
  | x, w :: ws => (x.after [w]).path :: (x.after [w]).trail ws

namespace Parts
variable (x : Parts)

theorem trail_append (ws us : List Write) :
    x.trail (ws ++ us) = x.trail ws ++ (x.after ws).trail us := by
  induction ws generalizing x with
  | nil => rfl
  | cons w ws ih => rw [List.cons_append, trail, ih, trail, List.cons_append, x.after_cons w ws]

theorem getLast?_trail {ws : List Write} (hne : ws ≠ []) :
    (x.trail ws).getLast? = some (x.after ws).path := by
  obtain ⟨us, w, rfl⟩ := (List.eq_nil_or_concat' ws).resolve_left hne
  rw [trail_append, after_append]
  exact List.getLast?_concat

end Parts

end Naming

namespace PathOptions
variable (o : PathOptions)

/-! The parts once some of the facets have been set. -/

theorem after_basename : (Parts.ofPath o.path).after (o.basename.map Write.basename).toList =
    ⟨o.folder, o.baseStem, o.baseExtension⟩ := by
  obtain ⟨p, b, s, e, d⟩ := o
  cases b <;> rfl

theorem after_stem : (⟨o.folder, o.baseStem, o.baseExtension⟩ : Parts).after
    (o.stem.map Write.stem).toList = ⟨o.folder, o.finalStem, o.baseExtension⟩ := by
  obtain ⟨p, b, s, e, d⟩ := o
  cases s <;> rfl

theorem after_extension : (⟨o.folder, o.finalStem, o.baseExtension⟩ : Parts).after
    (o.extname.map Write.extension).toList = ⟨o.folder, o.finalStem, o.finalExtension⟩ := by
  obtain ⟨p, b, s, e, d⟩ := o
  cases e <;> rfl

theorem after_directory : (⟨o.folder, o.finalStem, o.finalExtension⟩ : Parts).after
    (o.dirname.map fun d => Write.directory (some d)).toList =
      ⟨(o.dirname.map Style.posix.normalize).getD o.folder, o.finalStem, o.finalExtension⟩ := by
  obtain ⟨p, b, s, e, d⟩ := o
  cases d <;> rfl

theorem after_writes : (Parts.ofPath o.path).after o.writes =
    ⟨(o.dirname.map Style.posix.normalize).getD o.folder, o.finalStem, o.finalExtension⟩ := by
  rw [writes, Parts.after_append, Parts.after_append, Parts.after_append, after_basename,
    after_stem, after_extension, after_directory]

theorem trail_option {α : Type} (x : Parts) (write : α → Write) (path : α → Text)
    (h : ∀ a, (x.after [write a]).path = path a) (a : Option α) :
    x.trail (a.map write).toList = (a.map path).toList := by
  cases a with
  | none => rfl
  | some a => exact congrArg (fun t => [t]) (h a)

theorem trail_eq (ho : o.Sound) : o.trail = o.path :: (Parts.ofPath o.path).trail o.writes := by
  -- a basename is written as it is, and it is its stem and its extension
  have hbase : (Parts.ofPath o.path).trail (o.basename.map Write.basename).toList =
      (o.basename.map fun b => Style.posix.join [o.folder, b]).toList := by
    cases hb : o.basename with
    | none => rfl
    | some b =>
      obtain ⟨hext, hsep⟩ := ho.writes (.basename b) (by simp [writes, hb])
      exact congrArg (fun t => [Style.posix.join [o.folder, t]])
        (Naming.parted_basename hext hsep).1.symm
  simp only [writes, Parts.trail_append, Parts.after_append, after_basename, after_stem,
    after_extension, hbase]
  rw [trail_option _ Write.stem _ fun _ => rfl, trail_option _ Write.extension _ fun _ => rfl,
    trail_option _ (fun d => Write.directory (some d)) _ fun _ => rfl]
  rfl

theorem writes_eq_nil : o.writes = [] ↔
    o.dirname = none ∧ o.basename = none ∧ o.stem = none ∧ o.extname = none := by
  obtain ⟨p, b, s, e, d⟩ := o
  cases b <;> cases s <;> cases e <;> cases d <;> simp [writes]

theorem facets_of_given {h : List Text} {c : Checked} {s : Store} {r : Options}
    (hr : r.Holds s c) (ho : o.GivenBy h c) :
    Maker.facets r = (.path, .text o.path) :: o.writes.map Write.call := by
  rw [Maker.facets, hr.fields]
  simp only [ho.path, ho.basename, ho.stem, ho.extname, ho.dirname]
  obtain ⟨p, b, s, e, d⟩ := o
  cases b <;> cases s <;> cases e <;> cases d <;> rfl

end PathOptions

/-! ### A run of writes in a world -/

namespace Action
variable {w : World} {v : Value} {st : Style} {h : List Text}

theorem returns_setFacet {facet : Facet} {new : Value} {p : Text} (hv : w.store.Named v st h)
    (hset : ∀ s, Naming.set s ⟨st, h.map .text⟩ facet new =
      .ok (Naming.rename ⟨st, h.map .text⟩ p)) :
    (setFacet v facet new).Returns w fun _ w' => w'.store.Named v st (Naming.visit h p) := by
  obtain ⟨f, hf, hn⟩ := id hv
  obtain ⟨r, rfl⟩ := Store.exists_ref (Store.cell?_eq_of_file? hf)
  refine ⟨(), _, ?_, named_renamed hf p⟩
  rw [outcome_setFacet hf hn, hset]

theorem path_of_getLast? {p : Text} (hp : h.getLast? = some p) :
    Naming.path ⟨st, h.map .text⟩ = .text p := by
  rw [Naming.path_of_history, hp]
  rfl

theorem returns_writes {p : Text} {x : Parts} (hv : w.store.Named v .posix h)
    (hp : h.getLast? = some p) (hx : Parted p x.directory x.stem x.extension) {ws : List Write}
    (hws : ∀ u ∈ ws, u.Sound) :
    ((ws.map Write.call).forM fun c => setFacet v c.1 c.2).Returns w fun _ w' =>
      w'.store.Named v .posix ((x.trail ws).foldl Naming.visit h) := by
  induction ws generalizing w h p x with
  | nil => exact ⟨(), w, rfl, hv⟩
  | cons u ws ih =>
    have hu := hws u (by simp)
    have hset := Naming.set_write (n := ⟨.posix, h.map .text⟩) rfl (path_of_getLast? hp) hx hu
    refine (returns_setFacet hv hset).bind fun _ w' hv' => ?_
    exact ih hv' (Naming.getLast?_visit h _) (Naming.parted_write hx hu) fun u hu =>
      hws u (by simp [hu])

end Action

/-! ### From a record -/

namespace Maker
variable {m : Maker} {w : World} {r : Options} {c : Checked} {h : List Text} {o : PathOptions}

/-- **A file from a record** has visited the paths of the trail. -/
theorem returns_ofRecord (hm : m.style = .posix) (hr : r.Holds w.store c) (hc : o.GivenBy h c)
    (ho : o.Sound) : (m.ofRecord r).Returns w fun v w' =>
      w'.store.Named v .posix (o.trail.foldl Naming.visit h) := by
  have hpath : ∀ s, Naming.set s ⟨.posix, h.map .text⟩ .path (.text o.path) =
      .ok (Naming.rename ⟨.posix, h.map .text⟩ o.path) := fun s => Naming.setPath_text s _ ho.path
  rw [ofRecord_eq]
  refine Action.Returns.bind (succeeds_blank m hr) fun v w₁ ⟨_, f, es, _, hf, hfields, _⟩ => ?_
  have hv : w₁.store.Named v .posix h :=
    ⟨f, Store.file?_of_cell? hf.file, by rw [hfields, hm, hc.history]⟩
  refine Action.Returns.bind (P := fun _ w' =>
    w'.store.Named v .posix (o.trail.foldl Naming.visit h)) ?_
    fun _ w' hw' => ⟨v, w', rfl, hw'⟩
  rw [PathOptions.facets_of_given o hr hc, o.trail_eq ho]
  refine (Action.returns_setFacet hv hpath).bind fun _ w₂ hv₂ => ?_
  exact Action.returns_writes hv₂ (Naming.getLast?_visit h _)
    (Naming.parted_ofPath ho.extension) ho.writes

end Maker

/-! ### Where the trail ends -/

namespace PathOptions
variable {o : PathOptions} {n : Naming} {h : List Text}

theorem facets_of_no_writes (ho : o.Sound) (hw : o.writes = [])
    (hn : n = ⟨.posix, (o.trail.foldl Naming.visit h).map .text⟩) (s : Store) :
    n.basename s = .ok (some (o.finalStem ++ o.finalExtension)) ∧
      n.directory s = .ok (some o.finalDirectory) := by
  have hpath : n.path = .text o.path := by
    rw [hn, trail_eq o ho, hw]
    exact Action.path_of_getLast? (Naming.getLast?_visit h _)
  have hst : n.style = .posix := by rw [hn]
  obtain ⟨hd, hb, hs, he⟩ := (writes_eq_nil o).mp hw
  have hfinal := after_writes o
  rw [hw] at hfinal
  have hx := Naming.parted_ofPath ho.extension
  rw [show Parts.ofPath o.path = _ from hfinal] at hx
  refine ⟨Naming.basename_text s hst hpath hx, ?_⟩
  rw [Naming.directory_text s hst hpath, finalDirectory, hd]
  simp [hb, hs, he]

theorem facets_of_writes (ho : o.Sound) (hw : o.writes ≠ [])
    (hn : n = ⟨.posix, (o.trail.foldl Naming.visit h).map .text⟩) (s : Store) :
    n.basename s = .ok (some (o.finalStem ++ o.finalExtension)) ∧
      n.directory s = .ok (some o.finalDirectory) := by
  have hx := Naming.parted_after (Naming.parted_ofPath ho.extension) hw ho.writes
  have hpath : n.path = .text ((Parts.ofPath o.path).after o.writes).path := by
    rw [hn]
    refine Action.path_of_getLast? ?_
    rw [Naming.getLast?_foldl_visit, trail_eq o ho, List.getLast?_cons, Parts.getLast?_trail _ hw]
    rfl
  have hst : n.style = .posix := by rw [hn]
  have hparent := Naming.parent_path hx
  rw [after_writes] at hx hpath hparent
  refine ⟨Naming.basename_text s hst hpath hx, ?_⟩
  rw [Naming.directory_text s hst hpath, hparent, finalDirectory]
  cases hd : o.dirname with
  | some d => rfl
  | none =>
    have hfacets : ¬(o.basename = none ∧ o.stem = none ∧ o.extname = none) := fun hnone =>
      hw ((writes_eq_nil o).mpr ⟨hd, hnone⟩)
    simp only [Option.map_none, Option.getD_none, if_neg hfacets]

/-! ### Any input -/

/-- A value is a record with these options. -/
def RecordedIn (o : PathOptions) (h : List Text) (s : Store) (v : Value) : Prop :=
  ∃ r c, s.options? v = some r ∧ r.Holds s c ∧ o.GivenBy h c

/-- **An input with these options**: a dictionary that has no others, a dictionary or a sequence of
pairs that passes the check, or a record. -/
inductive Input (o : PathOptions) (h : List Text) (s : Store) (v : Value) : Prop
  | listed {es : Entries} (hv : s.dict? v = some es) (hes : o.ListedIn h s es)
  | checked {es : Entries} {c : Checked} (hv : s.options? v = none) (hes : s.entries v = .ok es)
    (hc : Options.check s es = .ok c) (ho : o.GivenBy h c)
  | record (hv : o.RecordedIn h s v)

end PathOptions

namespace Maker
variable {m : Maker} {w : World} {v : Value} {h : List Text} {o : PathOptions}

theorem succeeds_record_of_check {es : Entries} {c : Checked} (hv : w.store.options? v = none)
    (hes : w.store.entries v = .ok es) (hc : Options.check w.store es = .ok c)
    (ho : o.GivenBy h c) :
    (if (w.store.options? v).isSome then pure v else Action.optionsOfEntries v).Succeeds w
      fun v' w' => o.RecordedIn h w'.store v' := by
  rw [hv]
  refine (Action.succeeds_optionsOfEntries hes hc).mono fun v' w' ⟨r, hr, hholds⟩ => ?_
  exact ⟨r, c, hr, hholds, ho⟩

/-- Every input is a record with the options or becomes one. -/
theorem succeeds_record (hv : o.Input h w.store v) :
    (if (w.store.options? v).isSome then pure v else Action.optionsOfEntries v).Succeeds w
      fun v' w' => o.RecordedIn h w'.store v' := by
  cases hv with
  | listed hv hes =>
    obtain ⟨c, hc, ho⟩ := PathOptions.check_of_listed hes
    refine succeeds_record_of_check ?_ (Store.entries_dict hv) hc ho
    rw [Store.options?, Store.dict?_eq_some.mp hv]
  | checked hv hes hc ho => exact succeeds_record_of_check hv hes hc ho
  | record hrec =>
    obtain ⟨r, -, hr, -⟩ := id hrec
    rw [hr]
    refine (Action.succeeds_pure v w).mono fun v' w' h' => ?_
    obtain ⟨rfl, rfl⟩ := h'
    exact hrec

theorem returns_ofOptions (hm : m.style = .posix) (ho : o.Sound) (hv : o.Input h w.store v) :
    (m.ofOptions v).Returns w fun file w' =>
      w'.store.Named file .posix (o.trail.foldl Naming.visit h) := by
  rw [ofOptions]
  refine Action.returns_store_bind (Action.returns_ite_bind ?_)
  refine Action.Returns.bind (succeeds_record hv) fun v' w' hrecord => ?_
  obtain ⟨-, r, c, hv', hr, hc⟩ := hrecord
  refine Action.returns_store_bind ?_
  rw [hv']
  exact returns_ofRecord hm hr hc ho

/-- **The closed form of a file from options.** It is made whatever the options are, its name and
its directory are those of the options, and its history is that of the options and the paths of the
trail, without those that are no change. -/
theorem ofOptions_path (hm : m.style = .posix) (ho : o.Sound) (hv : o.Input h w.store v) :
    ∃ file w' f n, (m.ofOptions v).outcome w = (.ok file, w') ∧
      w'.store.file? file = some f ∧ f.naming = some n ∧
      n.basename w'.store = .ok (some (o.finalStem ++ o.finalExtension)) ∧
      n.directory w'.store = .ok (some o.finalDirectory) ∧
      n.history = (h ++ Naming.changes h.getLast? o.trail).map .text := by
  obtain ⟨file, w', hrun, f, hf, hn⟩ := returns_ofOptions hm ho hv
  refine ⟨file, w', f, _, hrun, hf, hn, ?_⟩
  rw [← and_assoc]
  refine ⟨?_, by rw [Naming.foldl_visit]⟩
  by_cases hw : o.writes = []
  · exact PathOptions.facets_of_no_writes ho hw rfl w'.store
  · exact PathOptions.facets_of_writes ho hw rfl w'.store

/-- A dictionary of path options with a name and an extension, and with no directory any more. -/
def archive : World where
  store := { cells := #[.list [.ofString "old"],
    .dict [(.ofString "dirname", .text []), (.ofString "path", .ofString "src//a.b.c"),
      (.ofString "basename", .ofString "x.tar.gz"), (.ofString "extname", .ofString ".z"),
      (.ofString "history", .ref 0)]] }

/-- All five paths on the way to an archive differ. -/
theorem ofOptions_path_archive : ∃ file w' f n,
    (ofOptions ⟨.posix, .ofString "utf-8", .fixed (.ofString "/")⟩ (.ref 1)).outcome archive =
      (.ok file, w') ∧ w'.store.file? file = some f ∧ f.naming = some n ∧
      n.basename w'.store = .ok (some "x.tar.z".toList) ∧ n.directory w'.store = .ok (some ['.']) ∧
      n.history = (["old", "src//a.b.c", "src/x.tar.gz", "src/x.tar.z",
        "x.tar.z"].map .ofString) := by
  have ho : PathOptions.Sound ⟨"src//a.b.c".toList, some "x.tar.gz".toList, none, some ".z".toList,
      some []⟩ := by
    refine ⟨by decide, by decide +kernel, ?_⟩
    change ∀ u ∈ [.basename "x.tar.gz".toList, .extension ".z".toList, .directory (some [])],
      Write.Sound u
    simp only [List.forall_mem_cons]
    exact ⟨⟨by decide +kernel, by decide⟩, ⟨⟨['z'], rfl, by decide⟩, by decide⟩, trivial, by simp⟩
  have hes : PathOptions.ListedIn ⟨"src//a.b.c".toList, some "x.tar.gz".toList, none,
      some ".z".toList, some []⟩ ["old".toList] archive.store
      [(.ofString "dirname", .text []), (.ofString "path", .ofString "src//a.b.c"),
        (.ofString "basename", .ofString "x.tar.gz"), (.ofString "extname", .ofString ".z"),
        (.ofString "history", .ref 0)] :=
    ⟨by decide +kernel, ⟨some [.ofString "old"], rfl, rfl⟩, by decide +kernel, by decide +kernel,
      by decide +kernel, by decide +kernel, by decide +kernel⟩
  obtain ⟨file, w', f, n, hrun, hf, hn, hname, hdir, hhistory⟩ :=
    ofOptions_path (m := ⟨.posix, .ofString "utf-8", .fixed (.ofString "/")⟩) rfl ho
      (.listed (v := .ref 1) rfl hes)
  exact ⟨file, w', f, n, hrun, hf, hn, hname.trans (by decide +kernel),
    hdir.trans (by decide +kernel), hhistory.trans (by decide +kernel)⟩

end Maker

end VirtualFile
