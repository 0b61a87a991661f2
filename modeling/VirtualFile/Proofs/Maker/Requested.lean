import VirtualFile.Proofs.Maker.Attributes
import VirtualFile.Proofs.Naming.Accepted
/-!
# The stem and the extension that options ask for

Options set the stem of a posix file first and the extension after it, each on the path as it is by
then. The extension is the one that they ask for. So is the stem if the name that it is set on has
an extension; if it has none, what the stem has from its last dot on is taken for one, and replaced
(`Maker.ofOptions_requested`).

* `Store.Asks`: options of an input, checked or in a record.
* `Checked.Base`: the naming that the stem is set on.
-/

namespace VirtualFile
open VirtualFile.Path (Style IsStem IsSplit)

/-- **An input that asks for options**: a dictionary or a sequence of
pairs that passes the check, or a record. -/
inductive Store.Asks (s : Store) (v : Value) (c : Checked) : Prop
  | checked {es : Entries} (hv : s.options? v = none) (hes : s.entries v = .ok es)
      (hc : Options.check s es = .ok c)
  | record {o : Options} (hv : s.options? v = some o) (hr : o.Holds s c)

namespace Checked

/-- The facets that are set before the stem. -/
def general (c : Checked) : List (Facet × Value) :=
  [(.path, c.path), (.basename, c.basename)].filter (·.2 ≠ .null)

/-- **What the stem is set on**: the naming that the history, the path and the basename lead to. The
path is read when the file has been made, so in a store with more cells. -/
def Base (c : Checked) (s : Store) (st : Style) (n : Naming) : Prop :=
  ∃ s', s.Extends s' ∧ Naming.run s' ⟨st, c.history.getD []⟩ c.general = .ok n

theorem facets_eq_general {c : Checked} {t e : Text} (ht : c.stem = .text t)
    (he : c.extname = .text e) : c.facets = c.general ++ (.stem, .text t) :: (.extname, .text e) ::
      [(Facet.dirname, c.dirname)].filter (·.2 ≠ .null) := by
  rw [facets, general, ht, he]
  by_cases hpath : c.path = .null <;> by_cases hname : c.basename = .null <;> simp [hpath, hname]

end Checked

/-! ### Facets that are set -/

namespace Action
variable {w : World} {v : Value} {n : Naming} {c : Checked} {t e a b : Text}

/-- **A facet that is set** was accepted, and the file is named so. -/
theorem ends_set (hv : w.store.IsNamed v n) (facet : Facet) (new : Value) :
    (setFacet v facet new).Ends w (fun _ w' => ∃ q, n.set w.store facet new = .ok (n.rename q) ∧
      w'.store.IsNamed v (n.rename q).1) fun _ _ => True := by
  obtain ⟨f, hf, hn⟩ := hv
  refine (ends_setFacet hf hn facet new).forget.mono (fun _ w' h => ?_) fun _ _ h => h
  obtain ⟨q, hq, -, hf'⟩ := h
  exact ⟨q, hq, _, hf', rfl⟩

theorem ends_general (hv : w.store.IsNamed v n) :
    (c.general.forM fun call => setFacet v call.1 call.2).Ends w
      (fun _ w' => ∃ base, n.run w.store c.general = .ok base ∧ base.style = n.style ∧
        w'.store.IsNamed v base)
      fun _ _ => True := by
  have hname : ∀ {w : World} {n : Naming}, w.store.IsNamed v n →
      (([(Facet.basename, c.basename)].filter (·.2 ≠ .null)).forM fun call =>
        setFacet v call.1 call.2).Ends w
        (fun _ w' => ∃ base, (∀ s,
          n.run s ([(Facet.basename, c.basename)].filter (·.2 ≠ .null)) = .ok base) ∧
          base.style = n.style ∧ w'.store.IsNamed v base) fun _ _ => True := by
    intro w n hv
    rw [List.filter_cons]
    split_ifs
    · refine (ends_set hv .basename c.basename).bind fun _ w' hset => ?_
      obtain ⟨q, hq, hv'⟩ := hset
      refine ends_pure ⟨_, fun s => ?_, Naming.style_rename n q, hv'⟩
      rw [Naming.run, Naming.setBasename_store hq s]
      rfl
    · exact ends_pure ⟨n, fun _ => rfl, rfl, hv⟩
  rw [Checked.general, List.filter_cons]
  split_ifs
  · refine (ends_set hv .path c.path).bind fun _ w₁ hset => ?_
    obtain ⟨q, hq, hv₁⟩ := hset
    refine (hname hv₁).mono (fun _ w₂ h => ?_) fun _ _ h => h
    obtain ⟨base, hrun, hst, hbase⟩ := h
    refine ⟨base, ?_, hst.trans (Naming.style_rename n q), hbase⟩
    rw [Naming.run, hq]
    exact hrun w.store
  · refine (hname hv).mono (fun _ w₁ h => ?_) fun _ _ h => h
    obtain ⟨base, hrun, hst, hbase⟩ := h
    exact ⟨base, hrun w.store, hst, hbase⟩

/-- **The stem, the extension and the directory** after them. -/
theorem ends_specific (hv : w.store.IsNamed v n) (hst : n.style = .posix) (ht : IsStem t)
    (hsplit : IsSplit t a b) (he : e ≠ []) :
    (((.stem, .text t) :: (.extname, .text e) ::
      [(Facet.dirname, c.dirname)].filter (·.2 ≠ .null)).forM
        fun call => setFacet v call.1 call.2).Ends w
      (fun _ w' => ∃ p n', n.path = .text p ∧
        n'.IsParted (if Style.posix.extension p = [] then a else t) e ∧ w'.store.IsNamed v n')
      fun _ _ => True := by
  refine (ends_set hv .stem (.text t)).bind fun _ w₁ hset => ?_
  obtain ⟨q₁, hq₁, hv₁⟩ := hset
  refine (ends_set hv₁ .extname (.text e)).bind fun _ w₂ hset => ?_
  obtain ⟨q₂, hq₂, hv₂⟩ := hset
  obtain ⟨p, hp, hparted⟩ := Naming.parted_of_set hst ht hsplit he hq₁ hq₂
  rw [List.filter_cons]
  split_ifs
  · refine (ends_set hv₂ .dirname c.dirname).bind fun _ w₃ hset => ?_
    obtain ⟨q₃, hq₃, hv₃⟩ := hset
    exact ends_pure ⟨p, _, hp, hparted.setDirectory hq₃, hv₃⟩
  · exact ends_pure ⟨p, _, hp, hparted, hv₂⟩

/-- **All facets of options** that ask for a stem and an extension. -/
theorem ends_facets_requested (hv : w.store.IsNamed v n) (hst : n.style = .posix)
    (hstem : c.stem = .text t) (ht : IsStem t) (hsplit : IsSplit t a b) (hext : c.extname = .text e)
    (he : e ≠ []) :
    (c.facets.forM fun call => setFacet v call.1 call.2).Ends w
      (fun _ w' => ∃ base p n',
        n.run w.store c.general = .ok base ∧ base.style = .posix ∧ base.path = .text p ∧
        n'.IsParted (if Style.posix.extension p = [] then a else t) e ∧ w'.store.IsNamed v n')
      fun _ _ => True := by
  rw [Checked.facets_eq_general hstem hext, List.forM_eq_forM, List.forM_append]
  refine (ends_general hv).bind fun _ w₁ hgeneral => ?_
  obtain ⟨base, hrun, hbase, hv₁⟩ := hgeneral
  refine (ends_specific hv₁ (hbase.trans hst) ht hsplit he).mono (fun _ w₂ hspecific => ?_)
    fun _ _ h => h
  obtain ⟨p, n', hp, hparted, hv₂⟩ := hspecific
  exact ⟨base, p, n', hrun, hbase.trans hst, hp, hparted, hv₂⟩

end Action

/-! ### The file -/

namespace Maker
variable {m : Maker} {w : World} {v file : Value} {o : Options} {c : Checked} {t e a b : Text}

/-- **The file that a record leads to**, told by what its stem was set on. -/
def Requested (c : Checked) (s : Store) (t a e : Text) (file : Value) (w : World) : Prop :=
  ∃ base p n, c.Base s .posix base ∧ base.style = .posix ∧ base.path = .text p ∧
    n.IsParted (if Style.posix.extension p = [] then a else t) e ∧ w.store.IsNamed file n

theorem ends_ofRecord_requested (hm : m.style = .posix) (hr : o.Holds w.store c)
    (hstem : c.stem = .text t) (ht : IsStem t) (hsplit : IsSplit t a b) (hext : c.extname = .text e)
    (he : e ≠ []) : (m.ofRecord o).Ends w (Requested c w.store t a e) fun _ _ => True := by
  rw [ofRecord_eq, facets_of_holds hr]
  refine (Action.Returns.ends (succeeds_blank m hr)).bind fun file w₁ hblank => ?_
  obtain ⟨hle, f, es, -, hf, hfields, -⟩ := hblank
  have hv : w₁.store.IsNamed file ⟨.posix, c.history.getD []⟩ :=
    ⟨f, Store.file?_of_cell? hf.file, by rw [hfields, hm]⟩
  refine (Action.ends_facets_requested hv rfl hstem ht hsplit hext he).bind fun _ w₂ hset => ?_
  obtain ⟨base, p, n, hrun, hst, hp, hparted, hn⟩ := hset
  exact Action.ends_pure ⟨base, p, n, ⟨w₁.store, hle, hrun⟩, hst, hp, hparted, hn⟩

theorem ends_ofOptions_requested (hm : m.style = .posix) (hv : w.store.Asks v c)
    (hstem : c.stem = .text t) (ht : IsStem t) (hsplit : IsSplit t a b) (hext : c.extname = .text e)
    (he : e ≠ []) : (m.ofOptions v).Ends w (Requested c w.store t a e) fun _ _ => True := by
  have hrecord :
      (if (w.store.options? v).isSome then pure v else Action.optionsOfEntries v).Succeeds w
        fun v' w' => ∃ o, w'.store.options? v' = some o ∧ o.Holds w'.store c := by
    cases hv with
    | checked hv hes hc =>
      rw [hv]
      exact Action.succeeds_optionsOfEntries hes hc
    | @record o hv hr =>
      rw [hv]
      refine (Action.succeeds_pure v w).mono fun v' w' h => ?_
      obtain ⟨rfl, rfl⟩ := h
      exact ⟨o, hv, hr⟩
  rw [ofOptions]
  refine Action.ends_store_bind (Action.ends_ite_bind ?_)
  refine (Action.Returns.ends hrecord).bind fun v' w₁ h => ?_
  obtain ⟨hle, o, ho, hr⟩ := h
  refine Action.ends_store_bind ?_
  rw [ho]
  refine (ends_ofRecord_requested hm hr hstem ht hsplit hext he).mono (fun file w₂ h => ?_)
    fun _ _ h => h
  obtain ⟨base, p, n, ⟨s, hs, hrun⟩, hrest⟩ := h
  exact ⟨base, p, n, ⟨s, hle.trans hs, hrun⟩, hrest⟩

/-- **The stem and the extension that options ask for.** If a posix file can be made from
options with a stem that is not only dots and an extension that is not empty, then it has
that extension. It has that stem if there is an extension in the name that the history,
the path and the basename lead to. If there is none, it has the stem of the stem: what
that has from its last dot on has been taken for the extension. -/
theorem ofOptions_requested (hm : m.style = .posix) (hv : w.store.Asks v c)
    (hstem : c.stem = .text t) (ht : IsStem t) (hsplit : IsSplit t a b) (hext : c.extname = .text e)
    (he : e ≠ []) {w' : World} (hout : (m.ofOptions v).outcome w = (.ok file, w')) :
    ∃ base x n, c.Base w.store .posix base ∧ base.extension w'.store = .ok (some x) ∧
      w'.store.IsNamed file n ∧
      n.extension w'.store = .ok (some e) ∧
      n.stem w'.store = .ok (some (if x = [] then a else t)) := by
  obtain ⟨base, p, n, hbase, hst, hp, hparted, hn⟩ :=
    (ends_ofOptions_requested hm hv hstem ht hsplit hext he).of_ok hout
  refine ⟨base, Style.posix.extension p, n, hbase, ?_, hn, hparted.extension_eq _,
    hparted.stem_eq _⟩
  rw [Naming.extension, Naming.facet_text _ hp, hst]

/-- Two dictionaries that ask for a stem with a dot in it, for a path
with an extension and for one without. -/
def dotted : World where
  store := { cells := #[
    .dict [(.ofString "path", .ofString "/x/y.z"), (.ofString "stem", .ofString "a.b"),
      (.ofString "extname", .ofString ".c"), (.ofString "dirname", .ofString "q//")],
    .dict [(.ofString "path", .ofString "/x/y"), (.ofString "stem", .ofString "a.b"),
      (.ofString "extname", .ofString ".c")]] }

/-- The stem that the first asks for is there, dot and all. -/
theorem ofOptions_requested_dotted : ∃ file w' n,
    (ofOptions ⟨.posix, .ofString "utf-8", .fixed (.ofString "/")⟩ (.ref 0)).outcome dotted =
      (.ok file, w') ∧
      w'.store.IsNamed file n ∧ n.extension w'.store = .ok (some ".c".toList) ∧
      n.stem w'.store = .ok (some "a.b".toList) := by
  have hc : Options.check dotted.store [(.ofString "path", .ofString "/x/y.z"),
      (.ofString "stem", .ofString "a.b"), (.ofString "extname", .ofString ".c"),
      (.ofString "dirname", .ofString "q//")] = .ok {
        path := .ofString "/x/y.z", stem := .ofString "a.b", extname := .ofString ".c",
        dirname := .ofString "q//" } := by decide +kernel
  have hout :
      (ofOptions ⟨.posix, .ofString "utf-8", .fixed (.ofString "/")⟩ (.ref 0)).outcome dotted =
        (.ok (.ref 9), _) := Action.outcome_of_fst (by decide +kernel)
  obtain ⟨base, x, n, ⟨s, -, hrun⟩, hx, hn, hext, hstem⟩ :=
    ofOptions_requested (e := ".c".toList) rfl (.checked rfl rfl hc) rfl ⟨'a', by decide, by decide⟩
      (Path.isSplit_splitExtension "a.b".toList) rfl (by decide) hout
  -- the name that the stem is set on is that of the path
  have hpath : Naming.run s ⟨.posix, []⟩ [(.path, .ofString "/x/y.z")] =
      .ok ⟨.posix, [.ofString "/x/y.z"]⟩ := by
    have hset : Naming.set s ⟨.posix, []⟩ .path (.ofString "/x/y.z") =
        .ok (Naming.rename ⟨.posix, []⟩ "/x/y.z".toList) := Naming.setPath_text s _ (by decide)
    rw [Naming.run, hset]
    rfl
  obtain rfl := Except.ok.inj (hpath.symm.trans hrun)
  obtain rfl : ".z".toList = x := by
    simpa using (show _ = Except.ok (some ".z".toList) by decide +kernel).symm.trans hx
  exact ⟨_, _, n, hout, hn, hext, hstem⟩

/-- **The extension replaces what the stem has from its last dot on**,
where the path has no extension. -/
theorem ofOptions_dottedStem : ∃ c, dotted.store.Asks (.ref 1) c ∧ c.stem = .ofString "a.b" ∧
    c.extname = .ofString ".c" ∧ ∃ file w' n,
      (ofOptions ⟨.posix, .ofString "utf-8", .fixed (.ofString "/")⟩ (.ref 1)).outcome dotted =
        (.ok file, w') ∧ w'.store.IsNamed file n ∧ n.stem w'.store = .ok (some "a".toList) := by
  have hc : Options.check dotted.store [(.ofString "path", .ofString "/x/y"),
      (.ofString "stem", .ofString "a.b"), (.ofString "extname", .ofString ".c")] = .ok {
        path := .ofString "/x/y", stem := .ofString "a.b",
        extname := .ofString ".c" } := by decide +kernel
  refine ⟨_, .checked rfl rfl hc, rfl, rfl, .ref 9, _,
    ⟨.posix, ["/x/y", "/x/a.b", "/x/a.c"].map .ofString⟩, Action.outcome_of_fst (by decide +kernel),
    Option.bind_eq_some_iff.mp ?_, by decide +kernel⟩
  decide +kernel

end Maker

end VirtualFile
