import VirtualFile.Access
/-!
# Outcomes of actions

The outcome of an action in a world, read off its parts: of a sequence by `outcome_bind_ok` and
`outcome_bind_error`, of the primitive actions by a lemma each. Setting a facet of a file changes
its naming and nothing else; refused, it changes nothing (`outcome_setFacet`).

* `Store.file?_write`: a file that is changed.
* `Store.cell?_alloc_of_some`: the cells that were there before one is added.
-/

namespace VirtualFile

/-! ### Cells after a change -/

namespace Store
variable {s : Store} {r : Ref}

theorem cell?_eq_of_file? {v : Value} {f : File} (h : s.file? v = some f) :
    s.cell? v = some (.file f) := by
  rw [file?] at h
  split at h
  · next hc => rw [hc, Option.some.inj h]
  · exact absurd h (by simp)

theorem file?_of_cell? {v : Value} {f : File} (h : s.cell? v = some (.file f)) :
    s.file? v = some f := by
  rw [file?, h]

theorem exists_ref {v : Value} {c : Cell} (h : s.cell? v = some c) : ∃ r, v = .ref r := by
  cases v with
  | ref r => exact ⟨r, rfl⟩
  | _ => exact absurd h (by simp [cell?])

theorem lt_size_of_cell? {c : Cell} (h : s.cell? (.ref r) = some c) : r < s.cells.size :=
  (Array.getElem?_eq_some_iff.mp h).1

theorem cell?_write_self {c : Cell} (d : Cell) (h : s.cell? (.ref r) = some c) :
    (s.write r d).cell? (.ref r) = some d := by
  simp [write, cell?, Array.getElem?_setIfInBounds_self_of_lt (lt_size_of_cell? h)]

theorem file?_write {f : File} (g : File) (h : s.file? (.ref r) = some f) :
    (s.write r (.file g)).file? (.ref r) = some g :=
  file?_of_cell? (cell?_write_self _ (cell?_eq_of_file? h))

theorem cell?_alloc_of_some {v : Value} {c : Cell} (d : Cell) (h : s.cell? v = some c) :
    (s.alloc d).1.cell? v = some c := by
  obtain ⟨r, rfl⟩ := exists_ref h
  rwa [cell?_alloc_of_lt s d (lt_size_of_cell? h)]

end Store

/-! ### Sequences -/

namespace Action
variable {α β : Type} {w : World}

@[simp] theorem outcome_pure (x : α) (w : World) : outcome (pure x) w = (.ok x, w) := rfl

theorem outcome_bind_ok {a : Action α} {x : α} {w' : World} (f : α → Action β)
    (h : a.outcome w = (.ok x, w')) : (a >>= f).outcome w = (f x).outcome w' := by
  have h' : a w = (.ok x, w') := h
  simp only [outcome, ExceptT.run, bind, ExceptT.bind, ExceptT.mk, StateT.run, StateT.bind, h',
    ExceptT.bindCont]

theorem outcome_bind_error {a : Action α} {e : Fault} {w' : World} (f : α → Action β)
    (h : a.outcome w = (.error e, w')) : (a >>= f).outcome w = (.error e, w') := by
  have h' : a w = (.error e, w') := h
  simp only [outcome, ExceptT.run, bind, ExceptT.bind, ExceptT.mk, StateT.run, StateT.bind, h',
    ExceptT.bindCont]
  rfl

/-! ### Primitive actions -/

@[simp] theorem outcome_store (w : World) : outcome store w = (.ok w.store, w) := rfl

theorem outcome_ofStore (f : Store → Except Fault α) (w : World) :
    outcome (ofStore f) w = (f w.store, w) := by
  rw [ofStore, outcome_bind_ok _ (outcome_store w)]
  cases f w.store <;> rfl

@[simp] theorem outcome_alloc (c : Cell) (w : World) :
    outcome (alloc c) w = (.ok (w.store.alloc c).2, { w with store := (w.store.alloc c).1 }) := rfl

@[simp] theorem outcome_write (r : Ref) (c : Cell) (w : World) :
    outcome (write r c) w = (.ok (), { w with store := w.store.write r c }) := rfl

@[simp] theorem outcome_note (e : Entry) (w : World) :
    outcome (note e) w = (.ok (), { w with journal := w.journal ++ [e] }) := rfl

theorem outcome_notes (rs : List Renaming) (w : World) :
    outcome (rs.forM fun x => note (.renamed x)) w =
      (.ok (), { w with journal := w.journal ++ rs.map .renamed }) := by
  induction rs generalizing w with
  | nil => simp [List.forM]
  | cons x rs ih =>
    rw [List.forM_eq_forM, List.forM_cons, outcome_bind_ok _ (outcome_note _ w),
      ← List.forM_eq_forM, ih]
    simp

theorem outcome_file {r : Ref} {f : File} (h : w.store.file? (.ref r) = some f) :
    outcome (file (.ref r)) w = (.ok (r, f), w) := by
  rw [file, outcome_bind_ok _ (outcome_store w)]
  simp [h]

/-! ### Setting a facet -/

/-- A file under another naming. -/
def renamed (w : World) (r : Ref) (f : File) (m : Naming × List Renaming) : World :=
  { w with
    store := w.store.write r (.file { f with naming := some m.1 }),
    journal := w.journal ++ m.2.map .renamed }

/-- **Setting a facet** renames the file and does nothing else; refused, it does nothing at all. -/
theorem outcome_setFacet {r : Ref} {f : File} {n : Naming} (hf : w.store.file? (.ref r) = some f)
    (hn : f.naming = some n) (facet : Facet) (new : Value) :
    outcome (setFacet (.ref r) facet new) w =
      match n.set w.store facet new with
      | .ok m => (.ok (), renamed w r f m)
      | .error e => (.error e, w) := by
  have hnaming : outcome (naming f) w = (.ok n, w) := by
    rw [naming, hn]
    rfl
  rw [setFacet, outcome_bind_ok _ (outcome_file hf), outcome_bind_ok _ hnaming]
  have hset := outcome_ofStore (fun s => n.set s facet new) w
  cases h : n.set w.store facet new with
  | error e => exact outcome_bind_error _ (hset.trans (by rw [h]))
  | ok m =>
    rw [outcome_bind_ok _ (hset.trans (by rw [h])), outcome_bind_ok _ (outcome_write r _ w)]
    exact outcome_notes m.2 _

end Action

end VirtualFile
