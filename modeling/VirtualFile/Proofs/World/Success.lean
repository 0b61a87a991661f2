import VirtualFile.Maker
import VirtualFile.Proofs.Naming.Setting
import VirtualFile.Proofs.World.Outcome
/-!
# Actions that succeed

Making a file reads the store and adds cells to it. An action that does no more than that keeps
every cell where it is (`Store.Extends`), so what is known of a cell before stays known after it,
and a sequence of such actions succeeds if each of them does (`Action.Succeeds.bind`).

* `Action.succeeds_alloc`, `Action.succeeds_ofStore`: the two kinds of steps.
* `Store.HoldsList`, `Action.succeeds_ownItems`: lists that may be missing.
-/

namespace VirtualFile

/-! ### Stores that only grow -/

/-- Every cell of the first store is in the second. -/
def Store.Extends (s s' : Store) : Prop := ∀ v c, s.cell? v = some c → s'.cell? v = some c

theorem Store.Extends.refl (s : Store) : s.Extends s := fun _ _ h => h

theorem Store.Extends.trans {s s' s'' : Store} (h : s.Extends s') (h' : s'.Extends s'') :
    s.Extends s'' := fun v c hc => h' v c (h v c hc)

theorem Store.extends_alloc (s : Store) (c : Cell) : s.Extends (s.alloc c).1 :=
  fun _ _ h => cell?_alloc_of_some c h

theorem Store.Extends.cell?_eq_none {s s' : Store} (h : s.Extends s') {v : Value}
    (hv : s'.cell? v = none) : s.cell? v = none := by
  cases hc : s.cell? v with
  | none => rfl
  | some c => exact absurd (h v c hc) (by simp [hv])

theorem Store.dict?_eq_some {s : Store} {v : Value} {es : Entries} :
    s.dict? v = some es ↔ s.cell? v = some (.dict es) := by
  rw [dict?]
  split <;> simp_all

theorem Store.options?_eq_some {s : Store} {v : Value} {o : Options} :
    s.options? v = some o ↔ s.cell? v = some (.options o) := by
  rw [options?]
  split <;> simp_all

theorem Store.Extends.dict? {s s' : Store} (h : s.Extends s') {v : Value} {es : Entries}
    (hv : s.dict? v = some es) : s'.dict? v = some es :=
  Store.dict?_eq_some.mpr (h _ _ (Store.dict?_eq_some.mp hv))

/-! ### Success -/

namespace Action
variable {α β : Type} {w : World}

/-- An action returns something and leaves a world as described. -/
def Returns (a : Action α) (w : World) (P : α → World → Prop) : Prop :=
  ∃ x w', a.outcome w = (.ok x, w') ∧ P x w'

/-- **An action succeeds**: it returns something, keeps all cells, and
leaves a world as described. -/
def Succeeds (a : Action α) (w : World) (P : α → World → Prop) : Prop :=
  a.Returns w fun x w' => w.store.Extends w'.store ∧ P x w'

theorem Returns.bind {a : Action α} {f : α → Action β} {P : α → World → Prop} {Q : β → World → Prop}
    (ha : a.Returns w P) (hf : ∀ x w', P x w' → (f x).Returns w' Q) : (a >>= f).Returns w Q := by
  obtain ⟨x, w₁, hx, hP⟩ := ha
  obtain ⟨y, w₂, hy, hQ⟩ := hf x w₁ hP
  exact ⟨y, w₂, (outcome_bind_ok f hx).trans hy, hQ⟩

theorem Returns.mono {a : Action α} {P Q : α → World → Prop} (ha : a.Returns w P)
    (h : ∀ x w', P x w' → Q x w') : a.Returns w Q := by
  obtain ⟨x, w', hx, hP⟩ := ha
  exact ⟨x, w', hx, h x w' hP⟩

theorem Succeeds.bind {a : Action α} {f : α → Action β} {P : α → World → Prop}
    {Q : β → World → Prop} (ha : a.Succeeds w P)
    (hf : ∀ x w', w.store.Extends w'.store → P x w' → (f x).Succeeds w' Q) :
    (a >>= f).Succeeds w Q :=
  Returns.bind ha fun x w' h =>
    (hf x w' h.1 h.2).mono fun _ _ h' => ⟨h.1.trans h'.1, h'.2⟩

theorem Succeeds.mono {a : Action α} {P Q : α → World → Prop} (ha : a.Succeeds w P)
    (h : ∀ x w', P x w' → Q x w') : a.Succeeds w Q :=
  Returns.mono ha fun x w' hP => ⟨hP.1, h x w' hP.2⟩

theorem Succeeds.extends {a : Action α} {P : α → World → Prop} (ha : a.Succeeds w P) :
    a.Succeeds w fun x w' => w.store.Extends w'.store ∧ P x w' :=
  Returns.mono ha fun _ _ hP => ⟨hP.1, hP⟩

theorem succeeds_pure (x : α) (w : World) : (pure x : Action α).Succeeds w fun y w' => y = x ∧
    w' = w :=
  ⟨x, w, rfl, .refl _, rfl, rfl⟩

theorem succeeds_ofStore {f : Store → Except Fault α} {x : α} (h : f w.store = .ok x) :
    (ofStore f).Succeeds w fun y w' => y = x ∧ w' = w :=
  ⟨x, w, by rw [outcome_ofStore, h], .refl _, rfl, rfl⟩

/-- **A new cell** is none of those that were there. -/
theorem succeeds_alloc_new (c : Cell) (w : World) : (alloc c).Succeeds w fun v w' =>
    w.store.cell? v = none ∧ w'.store.cell? v = some c :=
  ⟨_, _, outcome_alloc c w, Store.extends_alloc _ c, by simp [Store.alloc, Store.cell?],
    Store.cell?_alloc _ c⟩

theorem succeeds_alloc (c : Cell) (w : World) :
    (alloc c).Succeeds w fun v w' => w'.store.cell? v = some c :=
  (succeeds_alloc_new c w).mono fun _ _ h => h.2

theorem returns_bind_same {a : Action α} {f : α → Action β} {x : α} {Q : β → World → Prop}
    (ha : a.outcome w = (.ok x, w)) (h : (f x).Returns w Q) : (a >>= f).Returns w Q := by
  obtain ⟨y, w', hy, hQ⟩ := h
  exact ⟨y, w', (outcome_bind_ok f ha).trans hy, hQ⟩

theorem returns_store_bind {f : Store → Action β} {Q : β → World → Prop}
    (h : (f w.store).Returns w Q) : (store >>= f).Returns w Q :=
  returns_bind_same (outcome_store w) h

theorem returns_ofStore_bind {f : Store → Except Fault α} {g : α → Action β} {x : α}
    {Q : β → World → Prop} (hx : f w.store = .ok x) (h : (g x).Returns w Q) :
    (ofStore f >>= g).Returns w Q :=
  returns_bind_same (by rw [outcome_ofStore, hx]) h

theorem returns_ite_bind {p : Prop} [Decidable p] {a b : Action α} {f : α → Action β}
    {Q : β → World → Prop} (h : ((if p then a else b) >>= f).Returns w Q) :
    (if p then a >>= f else b >>= f).Returns w Q := by
  split_ifs at h ⊢ <;> exact h

/-- **Faults of a record** are reported as one of options; nothing else changes. -/
theorem outcome_asOptionFault (a : Action α) (w : World) :
    (asOptionFault a).outcome w = match a.outcome w with
      | (.error (.invalid _ faults), w') => (.error (.options faults), w')
      | (x, w') => (x, w') := by
  rcases h : a.outcome w with ⟨e | x, w'⟩
  all_goals
    simp only [asOptionFault, outcome, tryCatch, tryCatchThe, MonadExceptOf.tryCatch,
      ExceptT.tryCatch, ExceptT.run, ExceptT.mk, StateT.run, bind, StateT.bind, show a w = _ from h]
  · cases e <;> rfl
  · rfl

theorem succeeds_asOptionFault {a : Action α} {P : α → World → Prop} (h : a.Succeeds w P) :
    (asOptionFault a).Succeeds w P := by
  obtain ⟨x, w', hx, hle, hP⟩ := h
  exact ⟨x, w', by rw [outcome_asOptionFault, hx], hle, hP⟩

end Action

/-! ### Lists that may be missing -/

/-- A value is the list with the given members, or null if there is none. -/
def Store.HoldsList (s : Store) (v : Value) : Option (List Value) → Prop
  | none => v = .null
  | some vs => s.cell? v = some (.list vs)

theorem Store.Extends.holdsList {s s' : Store} (h : s.Extends s') {v : Value}
    {vs : Option (List Value)} (hv : s.HoldsList v vs) : s'.HoldsList v vs := by
  cases vs with
  | none => exact hv
  | some vs => exact h _ _ hv

namespace Store
variable {s : Store} {v : Value}

theorem truthy_list {vs : List Value} (h : s.cell? v = some (.list vs)) :
    s.truthy v = (vs != []) := by
  obtain ⟨r, rfl⟩ := exists_ref h
  simp [truthy, h]

theorem items_list {vs : List Value} (h : s.cell? v = some (.list vs)) : s.items v = .ok vs := by
  obtain ⟨r, rfl⟩ := exists_ref h
  simp [items, h]

theorem truthy_dict {es : Entries} (h : s.dict? v = some es) : s.truthy v = (es != []) := by
  have hc := dict?_eq_some.mp h
  obtain ⟨r, rfl⟩ := exists_ref hc
  simp [truthy, hc]

theorem entries_dict {es : Entries} (h : s.dict? v = some es) : s.entries v = .ok es := by
  rw [entries, h]

end Store

namespace Action
variable {w : World} {v : Value}

theorem succeeds_ownItems {vs : Option (List Value)} (hv : w.store.HoldsList v vs) :
    (ownItems v).Succeeds w fun ws w' => ws = vs.getD [] ∧ w' = w := by
  rw [ownItems]
  refine returns_store_bind ?_
  cases vs with
  | none =>
    obtain rfl : v = .null := hv
    exact succeeds_pure [] w
  | some vs =>
    rw [Store.truthy_list hv]
    split_ifs with hne
    · exact succeeds_ofStore (Store.items_list hv)
    · obtain rfl : vs = [] := by simpa using hne
      exact succeeds_pure [] w

theorem succeeds_ownEntries {es : Entries} (hv : w.store.dict? v = some es) :
    (ownEntries v).Succeeds w fun fs w' => fs = es ∧ w' = w := by
  rw [ownEntries]
  refine returns_store_bind ?_
  rw [Store.truthy_dict hv]
  split_ifs with hne
  · exact succeeds_ofStore (Store.entries_dict hv)
  · obtain rfl : es = [] := by simpa using hne
    exact succeeds_pure [] w

end Action

end VirtualFile
