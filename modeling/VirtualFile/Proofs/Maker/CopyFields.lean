import VirtualFile.Proofs.File.Edits
import VirtualFile.Proofs.Value.Foreign
import VirtualFile.Proofs.World.Reading
/-!
# What is read off a file for a copy

The options for a copy are read off the file before they are checked (`Action.optionsOfFile_eq`):
plain fields as they are, lists and dictionaries in new cells. Reading is refused only for a file of
which a caller has replaced the naming, the messages, the data or the attributes by something else,
and never with a fault of the library's own family (`Action.ends_readCopy`).

* `Options.copyFields`, `Action.readCopy`: what is read.
* `File.Intact`: a file with its own containers.
* `Store.HoldsCopy`: what has been read.
-/

namespace VirtualFile

/-- What is read off a file for a copy of it. -/
def Options.copyFields (f : File) (history data messages attributes : Value) : Fields :=
  [("value", f.value), ("cwd", f.cwd), ("history", history), ("data", data), ("messages", messages),
   ("stored", f.stored), ("result", f.result), ("map", f.map), ("attributes", attributes)]

/-- **A file with its own containers**: a naming, a list of messages,
and dictionaries of data and attributes. -/
structure File.Intact (s : Store) (f : File) : Prop where
  naming : f.naming.isSome
  data : (s.dict? f.data).isSome
  messages : (s.list? f.messages).isSome
  attributes : (s.dict? f.attributes).isSome

/-- **What has been read off a file**: its plain fields, its history,
and the contents of its containers. -/
def Store.HoldsCopy (s s' : Store) (f : File) (es : Entries) : Prop :=
  ∃ n history data messages attributes, ∃ d as : Entries, ∃ ms : List Value, f.naming = some n ∧
    es = Action.entriesOf (Options.copyFields f history data messages attributes) ∧
    s'.cell? history = some (.list n.history) ∧
    (s'.dict? data = some d ∧ ∀ d', s.dict? f.data = some d' → d' = d) ∧
    (s'.cell? messages = some (.list ms) ∧ ∀ ms', s.cell? f.messages = some (.list ms') →
      ms' = ms) ∧
    s'.dict? attributes = some as ∧ ∀ as', s.dict? f.attributes = some as' → as' = as

namespace Action
variable {w : World} {v : Value} {f : File}

/-! ### Reading -/

/-- Reads the options for a copy off a file. -/
def readCopy (v : Value) : Action Entries := do
  let value ← readAttribute v "value"
  let cwd ← readAttribute v "cwd"
  let history ← copyItems (← readAttribute v "history")
  let data ← copyEntries (← readAttribute v "data")
  let messages ← copyItems (← readAttribute v "messages")
  let stored ← readAttribute v "stored"
  let result ← readAttribute v "result"
  let map ← readAttribute v "map"
  let attributes ← copyEntries (← readAttribute v "attributes")
  return entriesOf
    [("value", value), ("cwd", cwd), ("history", history), ("data", data), ("messages", messages),
     ("stored", stored), ("result", result), ("map", map), ("attributes", attributes)]

theorem optionsOfFile_eq (v : Value) : optionsOfFile v = readCopy v >>= checkOptions := by
  rw [optionsOfFile, readCopy]
  simp only [bind_assoc, pure_bind]

theorem fixes_readCopy {γ : Type} {part : World → γ}
    (halloc : ∀ c : Cell, c.isContainer → (alloc c).Fixes part) (v : Value) :
    (readCopy v).Fixes part := by
  have hread := fixes_readAttribute halloc v
  rw [readCopy]
  refine (hread "value").bind fun value => (hread "cwd").bind fun cwd => ?_
  refine (hread "history").bind fun x => (fixes_copyItems halloc x).bind fun history => ?_
  refine (hread "data").bind fun x => (fixes_copyEntries halloc x).bind fun data => ?_
  refine (hread "messages").bind fun x => (fixes_copyItems halloc x).bind fun messages => ?_
  refine (hread "stored").bind fun stored => (hread "result").bind fun result => ?_
  refine (hread "map").bind fun map => ?_
  refine (hread "attributes").bind fun x => (fixes_copyEntries halloc x).bind fun attributes => ?_
  exact fixes_pure _

theorem ends_copied {β : Type} {g : Store → Except Fault β} {put : β → Action Value} {I : Prop}
    {H : β → Store → Value → Prop} (hforeign : Foreign (g w.store)) (h : I → ∃ y, g w.store = .ok y)
    (hput : ∀ y, (put y).Succeeds w fun x w' => H y w'.store x) :
    (ofStore g >>= put).Ends w
      (fun x w' => w.store.Extends w'.store ∧ ∃ y, g w.store = .ok y ∧ H y w'.store x)
      fun e _ => e.kind.isFileError = false ∧ ¬ I := by
  refine ends_ofStore_bind (fun e he => ⟨hforeign e he, fun hI => ?_⟩) fun y hy => ?_
  · obtain ⟨y, hy⟩ := h hI
    exact absurd (he.symm.trans hy) (by simp)
  · exact (Returns.mono (hput y) fun x w' h => ⟨h.1, y, hy, h.2⟩).ends

theorem ends_copyItems {u : Value} {I : Prop} (h : I → ∃ vs, w.store.items u = .ok vs) :
    (copyItems u).Ends w
      (fun x w' => w.store.Extends w'.store ∧ ∃ vs, w.store.items u = .ok vs ∧
        w'.store.cell? x = some (.list vs))
      fun e _ => e.kind.isFileError = false ∧ ¬ I := by
  rw [copyItems]
  exact ends_copied (H := fun vs s x => s.cell? x = some (.list vs)) (w.store.foreign_items u) h
    fun _ => succeeds_alloc _ w

theorem ends_copyEntries {u : Value} {I : Prop} (h : I → ∃ es, w.store.entries u = .ok es) :
    (copyEntries u).Ends w
      (fun x w' => w.store.Extends w'.store ∧ ∃ es, w.store.entries u = .ok es ∧
        w'.store.dict? x = some es)
      fun e _ => e.kind.isFileError = false ∧ ¬ I := by
  rw [copyEntries]
  exact ends_copied (H := fun es s x => s.dict? x = some es) (w.store.foreign_entries u) h
    fun _ => succeeds_allocDict w

theorem ends_history (hf : w.store.cell? v = some (.file f)) : (readAttribute v "history").Ends w
    (fun u w' => w.store.Extends w'.store ∧ ∃ n, f.naming = some n ∧
      w'.store.items u = .ok n.history)
    fun e _ => e.kind.isFileError = false ∧ ¬ f.naming.isSome := by
  rw [readAttribute]
  refine ends_bind_same (outcome_store w) ?_
  have hfacet : Facet.ofLabel? "history" = none := by decide
  simp only [hf, hfacet, if_true, history, naming]
  cases hn : f.naming with
  | none => exact (ends_throw (P := fun _ _ => False) ⟨rfl, by simp⟩).bind fun _ _ h => h.elim
  | some n =>
    rw [pure_bind]
    refine (Returns.mono (succeeds_alloc _ w) fun u w' h => ⟨h.1, n, rfl, ?_⟩).ends
    obtain ⟨r, rfl⟩ := Store.exists_ref h.2
    simp [Store.items, h.2]

/-- **Reading a file for a copy** is refused only if a container has been replaced. -/
theorem ends_readCopy (hf : w.store.cell? v = some (.file f)) : (readCopy v).Ends w
    (fun es w' => w.store.Extends w'.store ∧ w.store.HoldsCopy w'.store f es)
    fun e _ => e.kind.isFileError = false ∧ ¬ f.Intact w.store := by
  -- a field is read without a change, in every world that has the cells of this one
  have hread : ∀ name x, f.fields.lookup name = some x → Facet.ofLabel? name = none →
      name ≠ "history" →
      ∀ w', w.store.Extends w'.store → (readAttribute v name).outcome w' = (.ok x, w') :=
    fun name x hx hfacet hname w' hle => outcome_readAttribute (hle _ _ hf) name hx hfacet hname
  rw [readCopy]
  refine ends_bind_same (hread "value" f.value rfl rfl (by decide) w (.refl _)) ?_
  refine ends_bind_same (hread "cwd" f.cwd rfl rfl (by decide) w (.refl _)) ?_
  refine ((ends_history hf).mono (fun _ _ h => h) fun e _ ⟨he, hn⟩ =>
    ⟨he, fun h => hn h.naming⟩).bind
    fun tuple w₁ ⟨h₁, n, hn, htuple⟩ => ?_
  refine (ends_copyItems fun _ => ⟨_, htuple⟩).bind fun history w₂ ⟨h₂, vs, hvs, hhistory⟩ => ?_
  obtain rfl : n.history = vs := Except.ok.inj (htuple.symm.trans hvs)
  have hle₂ := h₁.trans h₂
  have hdict : ∀ {u} {w' : World}, w.store.Extends w'.store → (w.store.dict? u).isSome →
      ∃ es, w'.store.entries u = .ok es := fun hle hu => by
    obtain ⟨es, hes⟩ := Option.isSome_iff_exists.mp hu
    exact ⟨es, Store.entries_dict (hle.dict? hes)⟩
  refine ends_bind_same (hread "data" f.data rfl rfl (by decide) w₂ hle₂) ?_
  refine (ends_copyEntries fun h => hdict hle₂ h.data).bind fun data w₃ ⟨h₃, d, hd, hdata⟩ => ?_
  have hle₃ := hle₂.trans h₃
  have hlist : f.Intact w.store → ∃ ms, w₃.store.items f.messages = .ok ms := fun h => by
    obtain ⟨ms, hms⟩ := Option.isSome_iff_exists.mp h.messages
    exact ⟨ms, Store.items_list (hle₃ _ _ (Store.list?_eq_some.mp hms))⟩
  refine ends_bind_same (hread "messages" f.messages rfl rfl (by decide) w₃ hle₃) ?_
  refine (ends_copyItems hlist).bind fun messages w₄ ⟨h₄, ms, hms, hmessages⟩ => ?_
  have hle₄ := hle₃.trans h₄
  refine ends_bind_same (hread "stored" f.stored rfl rfl (by decide) w₄ hle₄) ?_
  refine ends_bind_same (hread "result" f.result rfl rfl (by decide) w₄ hle₄) ?_
  refine ends_bind_same (hread "map" f.map rfl rfl (by decide) w₄ hle₄) ?_
  refine ends_bind_same (hread "attributes" f.attributes rfl rfl (by decide) w₄ hle₄) ?_
  refine (ends_copyEntries fun h => hdict hle₄ h.attributes).bind
    fun attributes w₅ ⟨h₅, as, has, hattributes⟩ => ?_
  refine ends_pure ⟨hle₄.trans h₅, n, history, data, messages, attributes, d, as, ms, hn, rfl,
    (h₃.trans (h₄.trans h₅)) _ _ hhistory, ⟨(h₄.trans h₅).dict? hdata, fun d' hd' => ?_⟩,
    ⟨h₅ _ _ hmessages, fun ms' hms' => ?_⟩, hattributes, fun as' has' => ?_⟩
  · exact Except.ok.inj ((Store.entries_dict (hle₂.dict? hd')).symm.trans hd)
  · exact Except.ok.inj ((Store.items_list (hle₃ _ _ hms')).symm.trans hms)
  · exact Except.ok.inj ((Store.entries_dict (hle₄.dict? has')).symm.trans has)

end Action

end VirtualFile
