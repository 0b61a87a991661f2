import VirtualFile.Proofs.File.Built
import VirtualFile.Proofs.File.Uses
/-!
# Files as they are made

Whatever a file is made from, and whether or not what it is made from has the documented shapes, the
new file has a naming, no further attributes, the encoding of its maker, and a list of messages of
its own (`Construction.ends_logs`).

* `Store.Logs`: a file with its messages.
-/

namespace VirtualFile

/-- **A file with its messages.** It has a naming, and no attributes but its fields. -/
structure Store.Logs (s : Store) (v : Value) (f : File) (log : List Value) : Prop where
  file : s.cell? v = some (.file f)
  messages : s.cell? f.messages = some (.list log)
  naming : f.naming.isSome
  extra : f.extra = []

namespace Store
variable {s s' : Store} {v : Value} {f f' : File} {log : List Value}

theorem Logs.extend (h : s.Logs v f log) (hle : s.Extends s') : s'.Logs v f log :=
  ⟨hle _ _ h.file, hle _ _ h.messages, h.naming, h.extra⟩

theorem Logs.ne_messages (h : s.Logs v f log) : v ≠ f.messages := by
  rintro rfl
  exact absurd h.file (by simp [h.messages])

theorem Logs.write_file {r : Ref} (h : s.Logs (.ref r) f log) (hf' : f.IsRenamed f') :
    (s.write r (.file f')).Logs (.ref r) f' log := by
  obtain ⟨n, p, -, -, rfl⟩ := hf'
  refine ⟨cell?_write_self _ h.file, ?_, rfl, h.extra⟩
  exact s.keeps_write_self r _ _ _ h.messages (by simpa using h.ne_messages.symm)

theorem Logs.write_messages {r : Ref} (h : s.Logs v f log) (hr : f.messages = .ref r)
    (vs : List Value) : (s.write r (.list vs)).Logs v f vs := by
  have hne := h.ne_messages
  rw [hr] at hne
  refine ⟨s.keeps_write_self r _ _ _ h.file (by simpa using hne), ?_, h.naming, h.extra⟩
  rw [hr]
  exact cell?_write_self _ (hr ▸ h.messages)

theorem Logs.keep (h : s.Logs v f log) {cs : List Value} (hk : s.Keeps s' cs) (hv : v ∉ cs)
    (hmessages : f.messages ∉ cs) : s'.Logs v f log :=
  ⟨hk _ _ h.file hv, hk _ _ h.messages hmessages, h.naming, h.extra⟩

end Store

namespace Action
variable {w : World} {v : Value} {f : File} {log : List Value}

theorem logs_setFacet (h : w.store.Logs v f log) (facet : Facet) (new : Value) : ∃ f',
    ((setFacet v facet new).outcome w).2.store.Logs v f' log ∧ (f' = f ∨ f.IsRenamed f') := by
  obtain hsame | ⟨r, f', rfl, hrenamed, hwrite⟩ :=
    store_setFacet (Store.file?_of_cell? h.file) facet new
  · exact ⟨f, hsame ▸ h, .inl rfl⟩
  · exact ⟨f', hwrite ▸ h.write_file hrenamed, .inr hrenamed⟩

theorem ends_newFile (n : Naming) (p : FileParts) (w : World) : (newFile n p).Ends w
    (fun v w' => ∃ f log, w'.store.Logs v f log ∧ f.encoding = p.encoding) fun _ _ => True := by
  rw [newFile]
  refine ends_ite_bind (ends_then fun data w₁ => ends_then fun items w₂ => ?_)
  refine (succeeds_alloc _ w₂).ends.bind fun messages w₃ h₃ => ?_
  -- the messages stay while the entries are read and get their cell
  refine Ends.bind ((fixes_ownEntries p.attributes).ends w₃).forget
    fun entries w₄ (h₄ : w₄.store = w₃.store) => ?_
  refine (succeeds_alloc _ w₄).ends.bind fun attributes w₅ h₅ => ?_
  refine (Returns.mono (succeeds_alloc _ w₅) fun v w₆ h₆ => ?_).ends
  exact ⟨_, items, ⟨h₆.2, h₆.1 _ _ (h₅.1 _ _ (h₄ ▸ h₃.2)), rfl, rfl⟩, rfl⟩

end Action

namespace Maker

theorem ends_facets {v : Value} {e : Value} (calls : List (Facet × Value)) {w : World}
    (h : ∃ f log, w.store.Logs v f log ∧ f.encoding = e) :
    (calls.forM fun call => Action.setFacet v call.1 call.2).Ends w
      (fun _ w' => ∃ f log, w'.store.Logs v f log ∧ f.encoding = e) fun _ _ => True := by
  induction calls generalizing w with
  | nil => exact Action.ends_pure h
  | cons call calls ih =>
    obtain ⟨f, log, hlogs, hencoding⟩ := h
    obtain ⟨f', hlogs', hleft⟩ := Action.logs_setFacet hlogs call.1 call.2
    have hencoding' : f'.encoding = e := by
      obtain rfl | ⟨n, p, -, -, rfl⟩ := hleft
      · exact hencoding
      · exact hencoding
    have hset :=
      Action.ends_of_after (I := fun w' => ∃ f log, w'.store.Logs v f log ∧ f.encoding = e)
        ⟨f', log, hlogs', hencoding'⟩
    exact hset.forget.bind fun _ w' h' => ih h'

theorem ends_ofRecord_logs (m : Maker) (o : Options) (w : World) : (m.ofRecord o).Ends w
    (fun v w' => ∃ f log, w'.store.Logs v f log ∧ f.encoding = m.encoding) fun _ _ => True := by
  rw [ofRecord]
  refine Action.ends_then fun naming w₁ => Action.ends_ite_bind (Action.ends_then fun cwd w₂ => ?_)
  refine Action.ends_then fun entries w₃ => Action.ends_then fun attributes w₄ => ?_
  refine (Action.ends_newFile naming _ w₄).bind fun v w₅ h₅ => ?_
  exact (ends_facets (facets o) h₅).bind fun _ w₆ h₆ => Action.ends_pure h₆

theorem ends_ofOptions_logs (m : Maker) (v : Value) (w : World) : (m.ofOptions v).Ends w
    (fun v w' => ∃ f log, w'.store.Logs v f log ∧ f.encoding = m.encoding) fun _ _ => True := by
  rw [ofOptions]
  refine Action.ends_then fun s w₁ => Action.ends_ite_bind (Action.ends_then fun v' w₂ => ?_)
  refine Action.ends_then fun s w₃ => ?_
  split
  · exact ends_ofRecord_logs m _ w₃
  · exact Action.ends_throw trivial

end Maker

/-- **Every new file** has a list of messages and the encoding of its maker. -/
theorem Construction.ends_logs (m : Maker) (k : Construction) (w : World) : (k.run m).Ends w
    (fun v w' => ∃ f log, w'.store.Logs v f log ∧ f.encoding = m.encoding) fun _ _ => True := by
  cases k with rw [run]
  | any v => exact Action.ends_then fun o w' => m.ends_ofOptions_logs o w'
  | value v => exact Action.ends_then fun o w' => m.ends_ofOptions_logs o w'
  | path v => exact Action.ends_then fun o w' => m.ends_ofOptions_logs o w'
  | file v => exact Action.ends_then fun o w' => m.ends_ofOptions_logs o w'
  | options v => exact m.ends_ofOptions_logs v w

end VirtualFile
