import VirtualFile.Proofs.File.Cells
import VirtualFile.Proofs.Options.Record
/-!
# Files before any facet is set

A file for a record of options is made in two stages: the whole file with the history that is
listed, and then the facets of the path, each set on top of those before (`Maker.ofRecord_eq`). The
first stage always succeeds. Its file has what was checked, in new cells but for the data, which can
be those of the record (`Maker.succeeds_blank`).

* `Maker.blank`: the first stage.
* `Action.succeeds_newFile`: the new file and its cells.
-/

namespace VirtualFile

/-! ### A new file -/

namespace Action
variable {w : World}

theorem succeeds_newNaming (st : Path.Style) {v : Value} {hs : Option (List Value)}
    (hv : w.store.HoldsList v hs) :
    (newNaming st v).Succeeds w fun n w' => n = ⟨st, hs.getD []⟩ ∧ w' = w := by
  rw [newNaming]
  refine (succeeds_ownItems hv).bind fun vs w' _ ⟨hvs, hw'⟩ => ?_
  subst hw'
  refine (succeeds_pure _ w').mono fun n _ hn => ⟨?_, hn.2⟩
  rw [hn.1, hvs]

theorem succeeds_ownData {v : Value} {data : Option Entries} (hv : w.store.HoldsDict v data) :
    (if v = .null then alloc (.dict []) else pure v).Succeeds w fun v' w' =>
      w'.store.dict? v' = some (data.getD []) ∧ (v' ≠ v → w.store.cell? v' = none) ∧
      (v ≠ .null → v' = v) := by
  cases data with
  | none =>
    have hnull : v = .null := hv
    rw [if_pos hnull]
    exact (succeeds_alloc_new _ w).mono fun v' w' h =>
      ⟨Store.dict?_eq_some.mpr h.2, fun _ => h.1, fun hne => absurd hnull hne⟩
  | some es =>
    obtain ⟨r, rfl⟩ := Store.exists_ref (Store.dict?_eq_some.mp hv)
    rw [if_neg (by simp)]
    refine (succeeds_pure _ w).mono fun v w' ⟨hv', hw'⟩ =>
      ⟨?_, fun hne => absurd hv' hne, fun _ => hv'⟩
    rw [hv', hw']
    exact hv

/-- **A new file** has its parts. All its cells are new but for the data that it is given. -/
theorem succeeds_newFile {n : Naming} {parts : FileParts} {data : Option Entries}
    {messages : Option (List Value)} {attributes : Entries}
    (hdata : w.store.HoldsDict parts.data data)
    (hmessages : w.store.HoldsList parts.messages messages)
    (hattributes : w.store.dict? parts.attributes = some attributes) :
    (newFile n parts).Succeeds w fun v w' => ∃ f,
      w'.store.HoldsFile v f (data.getD []) (messages.getD []) attributes ∧
      f = {
        naming := some n, cwd := parts.cwd,
        value := if parts.value = .null then .text [] else parts.value, data := f.data,
        messages := f.messages, stored := parts.stored, result := parts.result, map := parts.map,
        attributes := f.attributes, encoding := parts.encoding } ∧
      (∀ x ∈ f.cells v, x ≠ parts.data → w.store.cell? x = none) ∧
      (parts.data ≠ .null → f.data = parts.data) := by
  rw [newFile]
  refine returns_ite_bind ((succeeds_ownData hdata).bind fun d w₁ h₁ ⟨hd, hown, hgiven⟩ => ?_)
  refine (succeeds_ownItems (h₁.holdsList hmessages)).bind fun items w₂ h₂ ⟨hitems, hw₂⟩ => ?_
  subst hitems hw₂
  refine (succeeds_alloc_new _ w₂).bind fun ms w₃ h₃ ⟨hnew₃, hms⟩ => ?_
  refine (succeeds_ownEntries ((h₁.trans h₃).dict? hattributes)).bind fun es w₄ h₄ ⟨hes, hw₄⟩ => ?_
  subst hes hw₄
  refine (succeeds_alloc_new _ w₄).bind fun as w₅ h₅ ⟨hnew₅, has⟩ => ?_
  refine (succeeds_alloc_new _ w₅).extends.mono fun v w₆ ⟨h₆, hnew, hv⟩ => ?_
  have hapart : d ≠ as := by
    -- the data were there before the attributes got their cell
    rintro rfl
    exact absurd (h₃ _ _ (Store.dict?_eq_some.mp hd)) (by simp [hnew₅])
  refine ⟨_, ⟨hv, (h₃.trans (h₅.trans h₆)).dict? hd, (h₅.trans h₆) _ _ hms,
    h₆.dict? (Store.dict?_eq_some.mpr has), hapart⟩, rfl, ?_, hgiven⟩
  simp only [File.cells, List.forall_mem_cons]
  exact ⟨fun _ => (h₁.trans (h₃.trans h₅)).cell?_eq_none hnew, hown,
    fun _ => h₁.cell?_eq_none hnew₃,
    fun _ => (h₁.trans h₃).cell?_eq_none hnew₅, by simp⟩

end Action

/-! ### The two stages -/

/-- The directory that is taken where options name none. -/
def Directory.path : Directory → Value
  | .fixed path => path
  | .provided path => path

namespace Maker
variable {m : Maker} {w : World} {o : Options} {c : Checked}

/-- The file for a record of options before any facet is set. -/
def blank (m : Maker) (o : Options) : Action Value := do
  let naming ← Action.newNaming m.style o.history
  let cwd ← if o.cwd = .null then m.workingDirectory else pure o.cwd
  let attributes ← Action.alloc (.dict (← Action.ofStore fun s => o.extras s))
  Action.newFile naming {
    cwd, value := o.value, data := o.data, messages := o.messages, stored := o.stored,
    result := o.result, map := o.map, attributes, encoding := m.encoding }

/-- **Two stages**: the file, then its facets. -/
theorem ofRecord_eq (m : Maker) (o : Options) : m.ofRecord o = do
    let file ← m.blank o
    (facets o).forM fun (facet, v) => Action.setFacet file facet v
    return file := by
  rw [ofRecord, blank]
  simp only [bind_assoc]
  split_ifs <;> simp only [bind_assoc]

theorem ofOptions_record {v : Value} (hv : w.store.options? v = some o) :
    (m.ofOptions v).outcome w = (m.ofRecord o).outcome w := by
  rw [ofOptions, Action.outcome_bind_ok _ (Action.outcome_store w)]
  simp only [hv, Option.isSome_some, if_true]
  rw [Action.outcome_bind_ok _ (Action.outcome_pure v w),
    Action.outcome_bind_ok _ (Action.outcome_store w)]
  simp only [hv]

/-- If a record sets no facet, the first stage is all. -/
theorem outcome_ofOptions_unplaced {v : Value} (hv : w.store.options? v = some o)
    (hfacets : facets o = []) : (m.ofOptions v).outcome w = (m.blank o).outcome w := by
  rw [ofOptions_record hv, ofRecord_eq, hfacets]
  simp only [List.forM_eq_forM, List.forM_nil, pure_bind, bind_pure]

theorem outcome_resolve {v : Value} (hv : w.store.options? v = none) : (resolve v).outcome w = (do
    let o ← optionsOfShape v (shapeOf w.store v)
    Action.note (.resolved (shapeOf w.store v))
    return o).outcome w := by
  rw [resolve, Action.outcome_bind_ok _ (Action.outcome_store w)]
  simp only [hv, Option.isSome_none, Bool.false_eq_true, if_false]

theorem succeeds_workingDirectory (m : Maker) (w : World) :
    m.workingDirectory.Succeeds w fun cwd w' => cwd = m.directory.path ∧ w'.store = w.store := by
  rw [workingDirectory]
  cases h : m.directory with
  | fixed path => exact (Action.succeeds_pure _ w).mono fun _ _ ⟨hcwd, hw⟩ => ⟨hcwd, by rw [hw]⟩
  | provided path => exact ⟨path, { w with asked := w.asked + 1 }, rfl, .refl _, rfl, rfl⟩

/-- **The first stage succeeds.** -/
theorem succeeds_blank (m : Maker) (hr : o.Holds w.store c) :
    (m.blank o).Succeeds w fun v w' => ∃ f es, Options.extras w.store o = .ok es ∧
    w'.store.HoldsFile v f (c.data.getD []) (c.messages.getD []) es ∧
    f = {
      naming := some ⟨m.style, c.history.getD []⟩,
      cwd := if c.cwd = .null then m.directory.path else c.cwd,
      value := if c.value = .null then .text [] else c.value, data := f.data,
      messages := f.messages, stored := .bool c.stored, result := c.result, map := c.map,
      attributes := f.attributes, encoding := m.encoding } ∧
    (∀ x ∈ f.cells v, x ≠ o.data → w.store.cell? x = none) ∧
    (o.data ≠ .null → f.data = o.data) := by
  have hcwd :
      ∀ w, (if o.cwd = .null then m.workingDirectory else pure o.cwd).Succeeds w fun cwd w' =>
      cwd = (if c.cwd = .null then m.directory.path else c.cwd) ∧ w'.store = w.store := by
    intro w
    rw [show o.cwd = c.cwd by rw [hr.fields]]
    split_ifs
    · exact succeeds_workingDirectory m w
    · exact (Action.succeeds_pure _ w).mono fun _ _ ⟨hv, hw⟩ => ⟨hv, by rw [hw]⟩
  obtain ⟨es, hes⟩ := Options.exists_extras hr
  rw [blank]
  refine (Action.succeeds_newNaming m.style hr.history).bind fun n w₁ _ ⟨hn, hw₁⟩ => ?_
  subst hn hw₁
  refine Action.returns_ite_bind ((hcwd w₁).bind fun cwd w₂ _ ⟨hcwd, hw₂⟩ => ?_)
  subst hcwd
  rw [← hw₂] at hr hes ⊢
  refine (Action.succeeds_ofStore hes).bind fun fs w₃ _ ⟨hfs, hw₃⟩ => ?_
  subst hfs hw₃
  refine (Action.succeeds_allocDict w₃).bind fun attributes w₄ h₄ hattributes => ?_
  have hr₄ := hr.extend h₄
  refine (Action.succeeds_newFile hr₄.data hr₄.messages hattributes).mono
    fun v w₅ ⟨f, hf, hfields, hnew, hgiven⟩ => ?_
  refine ⟨f, fs, hes, hf, ?_, fun x hx hne => h₄.cell?_eq_none (hnew x hx hne), hgiven⟩
  rw [hfields, hr.fields]

end Maker

end VirtualFile
