import VirtualFile.Proofs.File.Fresh
/-!
# Files that are made for one record of options

Two files that are made for the same record have cells of their own, with one exception: if the
record has data, both files have the very dictionary of the record. So what a caller changes about
the one leaves the other and the record as they are, but items that are put into the data of the one
are in the data of the other and in those of the record as well (`Maker.ofOptions_siblings`).

* `Store.Validated`: a record as the check leaves it.
* `Store.MadeFor`, `Store.Siblings`: files for it.
* `Store.Spares`: what a run on one of two files leaves of the other.
-/

namespace VirtualFile

/-! ### Records -/

/-- The cells of a record but for its data. -/
def Options.cells (v : Value) (o : Options) : List Value :=
  [v, o.history, o.messages, o.attributes, o.extra]

namespace Store
variable {s s' : Store} {v : Value} {o : Options} {c : Checked}

theorem Validated.extend (h : s.Validated v o c) (hle : s.Extends s') : s'.Validated v o c :=
  ⟨options?_eq_some.mpr (hle _ _ (options?_eq_some.mp h.record)), h.holds.extend hle, h.sound,
    h.apart⟩

theorem Validated.data_not_mem (h : s.Validated v o c) (hdata : (s.dict? o.data).isSome) :
    o.data ∉ o.cells v := by
  obtain ⟨es, hes⟩ := Option.isSome_iff_exists.mp hdata
  have hc := dict?_eq_some.mp hes
  have hlist : ∀ {u vs}, s.HoldsList u vs → o.data ≠ u := by
    rintro u (_ | vs) hu hdata
    · exact absurd hc (by simp [hdata, show u = .null from hu, cell?])
    · exact absurd hc (by simp [hdata, show s.cell? u = _ from hu])
  simp only [Options.cells, List.mem_cons, List.not_mem_nil, or_false, not_or]
  refine ⟨?_, hlist h.holds.history, hlist h.holds.messages, h.apart⟩
  intro hv
  exact absurd hc (by simp [hv, options?_eq_some.mp h.record])

theorem Validated.isSome_cell? (h : s.Validated v o c) {x : Value} (hx : x ∈ o.cells v) :
    x = .null ∨ (s.cell? x).isSome := by
  have hlist : ∀ {u vs}, s.HoldsList u vs → u = .null ∨ (s.cell? u).isSome := by
    rintro u (_ | vs) hu
    · exact .inl hu
    · exact .inr (by simp [show s.cell? u = _ from hu])
  simp only [Options.cells, List.mem_cons, List.not_mem_nil, or_false] at hx
  rcases hx with rfl | rfl | rfl | rfl | rfl
  · exact .inr (by simp [options?_eq_some.mp h.record])
  · exact hlist h.holds.history
  · exact hlist h.holds.messages
  · exact .inr (by simp [dict?_eq_some.mp h.holds.attributes])
  · exact .inr (by simp [dict?_eq_some.mp h.holds.extra])

/-- **A change that keeps a record** but for the items in its data. -/
theorem Validated.keep (h : s.Validated v o c) {cs : List Value} (hk : s.Keeps s' cs)
    (hcs : ∀ x ∈ o.cells v, x ∉ cs) (data : Entries)
    (hdata : o.data ≠ .null → s'.dict? o.data = some data) :
    s'.options? v = some o ∧ o.Holds s' { c with data := c.data.map fun _ => data } := by
  have hlist : ∀ {u vs}, s.HoldsList u vs → u ∉ cs → s'.HoldsList u vs := by
    rintro u (_ | vs) hu hmem
    · exact hu
    · exact hk _ _ hu hmem
  simp only [Options.cells, List.forall_mem_cons] at hcs
  obtain ⟨hv, hhistory, hmessages, hattributes, hextra, -⟩ := hcs
  refine ⟨options?_eq_some.mpr (hk _ _ (options?_eq_some.mp h.record) hv), h.holds.fields,
    hlist h.holds.history hhistory, ?_, hlist h.holds.messages hmessages, ?_, ?_, h.holds.keys⟩
  · have hc := h.holds.data
    cases hd : c.data with
    | none => rwa [hd] at hc
    | some es =>
      rw [hd] at hc
      obtain ⟨r, hr⟩ := exists_ref (dict?_eq_some.mp hc)
      exact hdata (by simp [hr])
  · exact dict?_eq_some.mpr (hk _ _ (dict?_eq_some.mp h.holds.attributes) hattributes)
  · exact dict?_eq_some.mpr (hk _ _ (dict?_eq_some.mp h.holds.extra) hextra)

end Store

/-! ### Files -/

theorem File.data_of_cells {v : Value} {f f' : File} (h : f'.cells v = f.cells v) :
    f'.data = f.data := by
  simp only [File.cells, List.cons.injEq] at h
  exact h.2.1

namespace Maker
variable {m : Maker} {w w' : World} {v a : Value} {o : Options} {c : Checked} {f : File}

theorem keeps_facets (hf : w.store.file? v = some f) (calls : List (Facet × Value)) :
    (calls.forM fun call => Action.setFacet v call.1 call.2).Ends w
      (fun _ w' => w.store.Keeps w'.store [v])
      fun _ w' => w.store.Keeps w'.store [v] := by
  induction calls generalizing w f with
  | nil => exact Action.ends_pure ((Store.Extends.refl _).keeps _)
  | cons call calls ih =>
    have hset := Action.ends_of_after (a := Action.setFacet v call.1 call.2) (w := w)
      (I := fun w' => w.store.Keeps w'.store [v] ∧ ∃ f', w'.store.file? v = some f') <| by
        obtain ⟨f', hf', -⟩ := Action.file?_setFacet hf call.1 call.2
        exact ⟨Action.keeps_setFacet hf call.1 call.2, f', hf'⟩
    refine (hset.mono (fun _ _ h => h) fun _ _ h => h.1).bind fun _ w₁ ⟨hkeeps, f', hf'⟩ => ?_
    exact (ih hf').mono (fun _ _ h => hkeeps.trans h) fun _ _ h => hkeeps.trans h

/-- **A file for a record** stands in new cells but for the data,
which are those of the record if it has any. -/
theorem ofOptions_cells {t : Text} (hdir : m.directory.path = .text t)
    (hv : w.store.Validated v o c) (ha : (m.ofOptions v).outcome w = (.ok a, w')) :
    w.store.Extends w'.store ∧ ∃ f, w'.store.Stands a f ∧
      (∀ x ∈ f.cells a, x ≠ o.data → w.store.cell? x = none) ∧
      (o.data ≠ .null → f.data = o.data) := by
  obtain ⟨b, w₁, hblank, hle, f, es, -, hf, -, hnew, hgiven⟩ := succeeds_blank m hv.holds
  obtain ⟨b', w₁', hblank', f', hstands⟩ := returns_blank hdir hv.holds hv.sound
  obtain ⟨rfl, rfl⟩ : b = b' ∧ w₁ = w₁' := by simpa using hblank.symm.trans hblank'
  obtain ⟨data, messages, attributes, hf', -⟩ := hstands.holds
  obtain rfl : f = f' := by simpa using hf.file.symm.trans hf'.file
  rw [ofOptions_record hv.record, ofRecord_eq, Action.outcome_bind_ok _ hblank,
    Action.outcome_bind] at ha
  have hedited := (edits_facets hstands (facets o)).after
  have hkeeps := (keeps_facets (Store.file?_of_cell? hf.file) (facets o)).after
  rcases hfacets : ((facets o).forM fun call => Action.setFacet b call.1 call.2).outcome w₁
    with ⟨e | _, w₂⟩
  all_goals
    rw [hfacets] at hedited hkeeps
    rw [hfacets] at ha
  · exact absurd ha (by simp)
  obtain ⟨rfl, rfl⟩ : b = a ∧ w₂ = w' := by simpa using ha
  obtain ⟨f', hf', hcells, -⟩ := hedited
  -- the file was not there before, so no cell of the first world is changed
  have hb : w.store.cell? b = none :=
    hnew b (by simp [File.cells]) ((hle.holdsDict hv.holds.data).ne_file hf.file)
  refine ⟨fun x d hx => hkeeps x d (hle x d hx) ?_, f', hf', hcells ▸ hnew, fun hdata => ?_⟩
  · rw [List.mem_singleton]
    rintro rfl
    exact absurd hx (by simp [hb])
  · exact (File.data_of_cells hcells).trans (hgiven hdata)

end Maker

/-! ### Changes to one of two files -/

/-- Whether a use of a file changes its own cells alone: it is a
change, or a value is added to its messages. -/
def Use.IsOwn : Use → Prop
  | .edit _ => True
  | .append name _ => name = "messages"
  | _ => False

section Run
variable {w : World} {v : Value} {f : File}

theorem edits_use (h : w.store.Stands v f) {u : Use} (hu : u.IsOwn) : (u.run v).Edits w v f := by
  cases u with
  | edit e => exact edits_run h e
  | append name new =>
    obtain rfl : name = "messages" := hu
    obtain ⟨data, messages, attributes, hf, -⟩ := h.holds
    obtain ⟨r, hr⟩ := Store.exists_ref hf.messages
    refine Action.ends_bind_same
      (Action.outcome_readAttribute hf.file "messages" rfl rfl (by decide)) ?_
    rw [hr]
    exact ((Action.returns_push (hr ▸ hf.messages) new).mono fun _ w' hw' =>
      hw' ▸ h.edited_messages hr _).ends
  | _ => exact hu.elim

theorem edited_used (h : w.store.Stands v f) {us : List Use} (hus : ∀ u ∈ us, u.IsOwn) :
    w.store.Edited (used v w us).store v f :=
  edited_used_of h fun u hu _ _ hf => edits_use hf (hus u hu)

end Run

/-! ### Siblings -/

/-- **A file that is made for a record**: it has the data of the
record, if there are any, and no other cell of it. -/
structure Store.MadeFor (s : Store) (v : Value) (o : Options) (a : Value) (f : File) : Prop where
  stands : s.Stands a f
  data : o.data ≠ .null → f.data = o.data
  apart : ∀ x ∈ o.cells v, x ∉ f.cells a

/-- **Two files that are made for one record**: they have no cell in common but its data. -/
def Store.Siblings (s : Store) (v : Value) (o : Options) (a b : Value) : Prop :=
  ∃ f g, s.MadeFor v o a f ∧ s.MadeFor v o b g ∧ ∀ x ∈ f.cells a, x ∈ g.cells b → x = o.data

/-- **What a run on one of two files leaves**: of the other file all but the data, and of the record
all but the items in its data. If the record has no data, those of the other file stay as they are;
if it has, the same items are in the data of both files and of the record. -/
def Store.Spares (s s' : Store) (v : Value) (o : Options) (c : Checked) (a b : Value) : Prop :=
  ∃ x data, s.snapshot? b = some x ∧ s'.snapshot? b = some { x with data } ∧
    s'.options? v = some o ∧ o.Holds s' { c with data := c.data.map fun _ => data } ∧
    (c.data = none → data = x.data) ∧ (c.data ≠ none → (s'.snapshot? a).map (·.data) = some data)

namespace Store
variable {s : Store} {v a b : Value} {o : Options} {c : Checked}

theorem Siblings.symm (h : s.Siblings v o a b) : s.Siblings v o b a := by
  obtain ⟨f, g, hf, hg, hshared⟩ := h
  exact ⟨g, f, hg, hf, fun x hx hx' => hshared x hx' hx⟩

end Store

section Siblings
variable {w : World} {v a b : Value} {o : Options} {c : Checked}

theorem Store.Siblings.spares (hv : w.store.Validated v o c) (h : w.store.Siblings v o a b)
    {us : List Use} (hus : ∀ u ∈ us, u.IsOwn) : w.store.Spares (used a w us).store v o c a b := by
  obtain ⟨f, g, ⟨hf, hfdata, hfapart⟩, ⟨hg, hgdata, -⟩, hshared⟩ := h
  obtain ⟨f', hf', hcells, hkeeps⟩ := edited_used hf hus
  obtain ⟨data, messages, attributes, hb, -⟩ := hg.holds
  obtain ⟨data', messages', attributes', ha', -⟩ := hf'.holds
  obtain ⟨st, ts, hn⟩ := hg.sound.history
  obtain ⟨st', ts', hn'⟩ := hf'.sound.history
  have hholds := hv.holds.data
  by_cases hnull : o.data = .null
  · -- nothing is shared
    have hb' := hb.keep hkeeps fun x hx hx' => by
      have hthere := hb.isSome_cell? hx
      rw [hshared x hx' hx, hnull] at hthere
      exact absurd hthere (by simp [Store.cell?])
    obtain ⟨hrecord, hkept⟩ := hv.keep hkeeps hfapart data fun hne => absurd hnull hne
    refine ⟨_, data, hb.snapshot hn, hb'.snapshot hn, hrecord, hkept, fun _ => rfl, fun hne => ?_⟩
    obtain ⟨es, hes⟩ := Option.ne_none_iff_exists'.mp hne
    rw [hes, hnull] at hholds
    exact absurd (Store.dict?_eq_some.mp hholds) (by simp [Store.cell?])
  · have hgd := hgdata hnull
    have hdata : (used a w us).store.dict? o.data = some data' := by
      rw [← hfdata hnull, ← File.data_of_cells hcells]
      exact ha'.data
    -- the one cell in common is the dictionary
    have hown : ∀ x ∈ g.cells b, x ≠ g.data → x ∉ f.cells a := fun x hx hne hx' =>
      hne ((hshared x hx' hx).trans hgd.symm)
    have hb' : (used a w us).store.HoldsFile b g data' messages attributes :=
      ⟨hkeeps _ _ hb.file (hown _ (by simp [File.cells]) (hb.ne_dict hb.data).1), hgd ▸ hdata,
        hkeeps _ _ hb.messages (hown _ (by simp [File.cells]) (hb.ne_dict hb.data).2),
        Store.dict?_eq_some.mpr (hkeeps _ _ (Store.dict?_eq_some.mp hb.attributes)
          (hown _ (by simp [File.cells]) hb.apart.symm)), hb.apart⟩
    obtain ⟨hrecord, hkept⟩ := hv.keep hkeeps hfapart data' fun _ => hdata
    refine ⟨_, data', hb.snapshot hn, hb'.snapshot hn, hrecord, hkept, fun hnone => ?_, fun _ => ?_⟩
    · rw [hnone] at hholds
      exact absurd hholds hnull
    · rw [ha'.snapshot hn']
      rfl

end Siblings

/-! ### Making both -/

namespace Store
variable {s s' : Store} {v a : Value} {o : Options} {c : Checked} {f : File}

theorem MadeFor.extend (h : s.MadeFor v o a f) (hle : s.Extends s') : s'.MadeFor v o a f :=
  ⟨h.stands.extend hle, h.data, h.apart⟩

theorem Validated.madeFor (h : s.Validated v o c) (hf : s'.Stands a f)
    (hnew : ∀ x ∈ f.cells a, x ≠ o.data → s.cell? x = none)
    (hdata : o.data ≠ .null → f.data = o.data) : s'.MadeFor v o a f := by
  refine ⟨hf, hdata, fun x hx hx' => ?_⟩
  obtain ⟨data, messages, attributes, hcells, -⟩ := hf.holds
  have hne : x ≠ .null := by
    rintro rfl
    exact absurd (hcells.isSome_cell? hx') (by simp [cell?])
  have hthere := (h.isSome_cell? hx).resolve_left hne
  by_cases hxdata : x = o.data
  · have hholds := h.holds.data
    cases hd : c.data with
    | none =>
      rw [hd] at hholds
      exact hne (hxdata.trans hholds)
    | some es =>
      rw [hd] at hholds
      exact h.data_not_mem (by simp [show s.dict? o.data = _ from hholds]) (hxdata ▸ hx)
  · rw [hnew x hx' hxdata] at hthere
    exact absurd hthere (by simp)

end Store

/-- **Files that are made for one record.** Of two files that are made for a record, one after the
other, whatever is changed about the one leaves the other and the record as they are, but for items
that are put into their data: if the record has data, the dictionary is one for all three. -/
theorem Maker.ofOptions_siblings {m₁ m₂ : Maker} {t₁ t₂ : Text}
    (hdir₁ : m₁.directory.path = .text t₁) (hdir₂ : m₂.directory.path = .text t₂) {w₀ w₁ w₂ : World}
    {v a b : Value} {o : Options} {c : Checked} (hv : w₀.store.Validated v o c)
    (ha : (m₁.ofOptions v).outcome w₀ = (.ok a, w₁))
    (hb : (m₂.ofOptions v).outcome w₁ = (.ok b, w₂)) {us : List Use} (hus : ∀ u ∈ us, u.IsOwn) :
    w₂.store.Spares (used a w₂ us).store v o c a b ∧
    w₂.store.Spares (used b w₂ us).store v o c b a := by
  obtain ⟨hle₁, f, hf, hfnew, hfdata⟩ := ofOptions_cells hdir₁ hv ha
  have hv₁ := hv.extend hle₁
  obtain ⟨hle₂, g, hg, hgnew, hgdata⟩ := ofOptions_cells hdir₂ hv₁ hb
  have hv₂ := hv₁.extend hle₂
  have hsiblings : w₂.store.Siblings v o a b := by
    refine ⟨f, g, (hv.madeFor hf hfnew hfdata).extend hle₂, hv₁.madeFor hg hgnew hgdata,
      fun x hx hx' => ?_⟩
    -- the cells of the second file were not there when the first was made
    by_contra hne
    obtain ⟨data, messages, attributes, hcells, -⟩ := hf.holds
    have hthere := hcells.isSome_cell? hx
    rw [hgnew x hx' hne] at hthere
    exact absurd hthere (by simp)
  exact ⟨hsiblings.spares hv₂ hus, hsiblings.symm.spares hv₂ hus⟩

/-- The world with a record that has data. -/
def drafted : World :=
  ((Action.checkOptions [(.ofString "data", .ref 0)]).outcome
    { store := { cells := #[.dict [(.ofString "k", .int 1)]] } }).2

/-- A path, a value among the messages, and an item in the data. -/
def touches : List Use :=
  [.edit (.facet .path (.ofString "a.txt")), .append "messages" (.int 0),
    .edit (.data ['n'] (.int 2))]

/-- Two files for the record: the changes to the first leave the
second as it is but for its data. -/
theorem Maker.ofOptions_siblings_drafted : ∃ a w₁ b w₂ x data,
    ((ofSettings {}).ofOptions (.ref 4)).outcome drafted = (.ok a, w₁) ∧
    ((ofSettings {}).ofOptions (.ref 4)).outcome w₁ = (.ok b, w₂) ∧ w₂.store.snapshot? b = some x ∧
    (used a w₂ touches).store.snapshot? b = some { x with data } := by
  have hrecord : (Action.checkOptions [(.ofString "data", .ref 0)]).outcome
      { store := { cells := #[.dict [(.ofString "k", .int 1)]] } } = (.ok (.ref 4), drafted) := by
    rw [drafted]
    exact Action.outcome_of_fst (by decide +kernel)
  obtain ⟨o, c, hv⟩ := (Action.ends_checkOptions_validated [(.ofString "data", .ref 0)]
    { store := { cells := #[.dict [(.ofString "k", .int 1)]] } }).of_ok hrecord
  have ha : ((ofSettings {}).ofOptions (.ref 4)).outcome drafted = (.ok (.ref 8), _) :=
    Action.outcome_of_fst (by decide +kernel)
  have hb :
      ((ofSettings {}).ofOptions (.ref 4)).outcome
        (((ofSettings {}).ofOptions (.ref 4)).outcome drafted).2 =
      (.ok (.ref 12), _) := Action.outcome_of_fst (by decide +kernel)
  have hdir : (ofSettings {}).directory.path = .text "/".toList := rfl
  have htouches : ∀ u ∈ touches, u.IsOwn := by simp [touches, Use.IsOwn]
  obtain ⟨⟨x, data, hx, hx', -⟩, -⟩ := Maker.ofOptions_siblings hdir hdir hv ha hb htouches
  exact ⟨_, _, _, _, x, data, ha, hb, hx, hx'⟩

/-- Makes a record with data, and two files for it. -/
def makePair : Action (Value × Value × Value) := do
  let data ← Action.alloc (.dict [(.ofString "k", .int 1)])
  let record ← Action.checkOptions [(.ofString "data", data)]
  let a ← (Maker.ofSettings {}).ofOptions record
  return (record, a, ← (Maker.ofSettings {}).ofOptions record)

/-- **The data of a record are not copied** for its files: an item
that is put into those of the one is in those of the other. -/
theorem ofOptions_sharedData : ∃ record a b w, makePair.outcome {} = (.ok (record, a, b), w) ∧
    (w.store.snapshot? b).map (·.data) = some [(.ofString "k", .int 1)] ∧
    ((edited a w [.data ['n'] (.int 2)]).store.snapshot? b).map (·.data) =
      some [(.ofString "k", .int 1), (.ofString "n", .int 2)] := by
  refine ⟨.ref 4, .ref 8, .ref 12, _, Action.outcome_of_fst ?_, ?_, ?_⟩
  · decide +kernel
  · decide +kernel
  · decide +kernel

end VirtualFile
