import VirtualFile.Proofs.Maker.Blank
import VirtualFile.Proofs.Maker.CopyFields
/-!
# Files that are made stand

However a file is made, it stands in its cells (`Construction.ends_run`), as long as the working
directory is a text and a record of options that is handed in still has what passed the check. Every
other input goes through the check first.

* `Store.Validated`, `Store.Recorded`: a record of options as the
  check leaves it, and one that holds what was checked.
* `Maker.returns_blank`, `Maker.ends_ofRecord`: the file for such a record.
* `Construction`: the ways to make a file.
-/

namespace VirtualFile

/-- **A record as the check leaves it**: it holds what was checked,
its data apart from its other dictionaries. -/
structure Store.Validated (s : Store) (v : Value) (o : Options) (c : Checked) : Prop where
  record : s.options? v = some o
  holds : o.Holds s c
  sound : c.Sound
  apart : o.data ≠ o.attributes ∧ o.data ≠ o.extra

/-- **A record that holds what was checked.** -/
def Store.Recorded (s : Store) (v : Value) : Prop :=
  ∃ o c, s.options? v = some o ∧ o.Holds s c ∧ c.Sound

/-! ### Records -/

namespace Action
variable {w : World} {v : Value}

/-- **Every record that is checked** is as the check leaves it. -/
theorem ends_checkOptions_validated (es : Entries) (w : World) :
    (checkOptions es).Ends w (fun v w' => ∃ o c, w'.store.Validated v o c) fun _ _ => True := by
  cases h : Options.check w.store es with
  | error faults =>
    rw [checkOptions]
    refine ends_store_bind ?_
    rw [h]
    exact ends_throw trivial
  | ok c =>
    refine (Returns.mono (succeeds_checkOptions h) fun v w' hv => ?_).ends
    obtain ⟨-, o, ho, hholds, -, hapart⟩ := hv
    exact ⟨o, c, ho, hholds, Options.check_sound h, hapart⟩

theorem ends_checkOptions (es : Entries) (w : World) :
    (checkOptions es).Ends w (fun v w' => w'.store.Recorded v) fun _ _ => True :=
  (ends_checkOptions_validated es w).mono
    (fun _ _ ⟨o, c, h⟩ => ⟨o, c, h.record, h.holds, h.sound⟩) fun _ _ h => h

theorem ends_optionsOfEntries (v : Value) (w : World) :
    (optionsOfEntries v).Ends w (fun v w' => w'.store.Recorded v) fun _ _ => True := by
  rw [optionsOfEntries]
  exact ends_then fun es w' => (ends_checkOptions es w').asOptionFault

theorem ends_optionsOfFile (v : Value) (w : World) :
    (optionsOfFile v).Ends w (fun v w' => w'.store.Recorded v) fun _ _ => True := by
  rw [optionsOfFile_eq]
  exact ends_then fun es w' => ends_checkOptions es w'

end Action

/-! ### Making the file -/

namespace Maker
variable {m : Maker} {w : World} {o : Options} {c : Checked} {v : Value}

theorem returns_blank {t : Text} (hdir : m.directory.path = .text t) (hr : o.Holds w.store c)
    (hc : c.Sound) : (m.blank o).Returns w fun v w' => ∃ f, w'.store.Stands v f := by
  refine Action.Returns.mono (succeeds_blank m hr) fun v w' ⟨_, f, es, hes, hf, hfields, _⟩ => ?_
  have hattributes : TextDict es := by
    obtain rfl := Except.ok.inj ((Options.extras_eq_putAll w.store hr hc).symm.trans hes)
    exact Options.textDict_putAll hc.attributes _
  have hdata : TextDict (c.data.getD []) := by
    cases h : c.data with
    | none => exact textDict_nil
    | some es => exact hc.data es h
  refine ⟨f, ⟨⟨m.style, ?_⟩, ?_, ?_, ⟨c.stored, by rw [hfields]⟩⟩, _, _, _, hf, hdata, hattributes⟩
  · rw [hfields]
    cases h : c.history with
    | none => exact ⟨[], rfl⟩
    | some vs =>
      obtain ⟨ts, rfl⟩ := hc.history vs h
      exact ⟨ts, rfl⟩
  · obtain ⟨u, hu⟩ := hc.cwd
    rw [hfields, hu, hdir]
    cases u with
    | none => exact ⟨t, rfl⟩
    | some u => exact ⟨u, rfl⟩
  · rw [hfields]
    dsimp only
    split_ifs with h
    · simp
    · exact h

theorem edits_facets {f : File} (h : w.store.Stands v f) (calls : List (Facet × Value)) :
    (calls.forM fun call => Action.setFacet v call.1 call.2).Edits w v f := by
  induction calls generalizing w f with
  | nil => exact Action.ends_pure h.edited
  | cons call calls ih =>
    exact (Action.edits_setFacet h call.1 call.2).bind fun _ w' f' hf' => ih hf'

theorem ends_ofRecord {t : Text} (hdir : m.directory.path = .text t) (hr : o.Holds w.store c)
    (hc : c.Sound) : (m.ofRecord o).Ends w (fun v w' => ∃ f, w'.store.Stands v f)
    fun _ _ => True := by
  rw [ofRecord_eq]
  refine (returns_blank hdir hr hc).ends.bind fun v w₁ ⟨f, hf⟩ => ?_
  refine (edits_facets hf (facets o)).forget.bind
    fun _ w₂ ⟨f', hf', _⟩ => ?_
  exact Action.ends_pure ⟨f', hf'⟩

theorem ends_ofOptions {t : Text} (hdir : m.directory.path = .text t)
    (hv : (w.store.options? v).isSome → w.store.Recorded v) :
    (m.ofOptions v).Ends w (fun v w' => ∃ f, w'.store.Stands v f) fun _ _ => True := by
  have hrecord : (if (w.store.options? v).isSome then pure v else Action.optionsOfEntries v).Ends w
      (fun v w' => w'.store.Recorded v) fun _ _ => True := by
    split_ifs with h
    · exact Action.ends_pure (hv h)
    · exact Action.ends_optionsOfEntries v w
  rw [ofOptions]
  refine Action.ends_store_bind (Action.ends_ite_bind ?_)
  refine hrecord.bind fun v' w' h => ?_
  obtain ⟨o, c, ho, hr, hc⟩ := h
  refine Action.ends_store_bind ?_
  rw [ho]
  exact ends_ofRecord hdir hr hc

theorem ends_optionsOfShape (v : Value) (shape : Shape) (w : World) :
    (optionsOfShape v shape).Ends w (fun v w' => w'.store.Recorded v) fun _ _ => True := by
  cases shape with rw [optionsOfShape]
  | empty => exact Action.ends_checkOptions _ w
  | value => exact Action.ends_checkOptions _ w
  | path => exact Action.ends_checkOptions _ w
  | file => exact Action.ends_optionsOfFile v w
  | options => exact Action.ends_optionsOfEntries v w

theorem ends_resolve (hv : (w.store.options? v).isSome → w.store.Recorded v) :
    (resolve v).Ends w (fun v w' => w'.store.Recorded v) fun _ _ => True := by
  rw [resolve]
  refine Action.ends_store_bind ?_
  split_ifs with h
  · exact Action.ends_pure (hv h)
  · refine (ends_optionsOfShape v _ w).bind fun o w₁ ho => ?_
    exact (Action.fixes_note _).ends_bind rfl (fun _ _ => trivial) fun _ w₂ hw₂ =>
      Action.ends_pure (hw₂ ▸ ho)

end Maker

/-! ### All ways to make a file -/

/-- **The ways to make a file**, each with its input. -/
inductive Construction
  | any (v : Value)
  | value (v : Value)
  | path (v : Value)
  | file (v : Value)
  | options (v : Value)
  deriving DecidableEq, Repr

namespace Construction

/-- Makes the file. -/
def run (m : Maker) : Construction → Action Value
  | .any v => m.make v
  | .value v => m.ofValue v
  | .path v => m.ofPath v
  | .file v => m.ofFile v
  | .options v => m.ofOptions v

/-- If a record of options is handed in, it holds what was checked. -/
def Sound (s : Store) : Construction → Prop
  | .any v | .options v => (s.options? v).isSome → s.Recorded v
  | .value _ | .path _ | .file _ => True

/-- **Every file that is made stands.** -/
theorem ends_run {m : Maker} {t : Text} (hdir : m.directory.path = .text t) {w : World}
    {k : Construction} (hk : k.Sound w.store) :
    (k.run m).Ends w (fun v w' => ∃ f, w'.store.Stands v f) fun _ _ => True := by
  have hshape : ∀ v shape, (do m.ofOptions (← Maker.optionsOfShape v shape)).Ends w
      (fun v w' => ∃ f, w'.store.Stands v f) fun _ _ => True := fun v shape =>
    (Maker.ends_optionsOfShape v shape w).bind fun o w' ho => Maker.ends_ofOptions hdir fun _ => ho
  cases k with rw [run]
  | any v =>
    rw [Maker.make]
    exact (Maker.ends_resolve hk).bind fun o w' ho => Maker.ends_ofOptions hdir fun _ => ho
  | value v =>
    rw [Maker.ofValue]
    exact hshape v .value
  | path v =>
    rw [Maker.ofPath]
    exact hshape v .path
  | file v =>
    rw [Maker.ofFile]
    exact hshape v .file
  | options v => exact Maker.ends_ofOptions hdir hk

end Construction

end VirtualFile
