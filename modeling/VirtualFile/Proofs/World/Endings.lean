import VirtualFile.Proofs.World.Success
/-!
# How actions end

What is known of an action that may be refused: of a world in which it returns something, and of the
fault and the world with which it is refused (`Action.Ends`), and which parts of every world it
leaves as they are (`Action.Fixes`). Both are settled step by step.
-/

namespace VirtualFile

namespace Action
variable {α β : Type} {w : World}

theorem outcome_bind (a : Action α) (f : α → Action β) (w : World) :
    (a >>= f).outcome w = match a.outcome w with
      | (.ok x, w') => (f x).outcome w'
      | (.error e, w') => (.error e, w') := by
  rcases h : a.outcome w with ⟨e | x, w'⟩
  · exact outcome_bind_error f h
  · exact outcome_bind_ok f h

theorem outcome_of_fst {a : Action α} {x : α} (h : (a.outcome w).1 = .ok x) :
    a.outcome w = (.ok x, (a.outcome w).2) := Prod.ext h rfl

/-! ### Endings -/

/-- **How an action ends**: it returns something and leaves a world as described, or it is refused
with a fault and in a world as described. -/
def Ends (a : Action α) (w : World) (P : α → World → Prop) (E : Fault → World → Prop) : Prop :=
  match a.outcome w with
  | (.ok x, w') => P x w'
  | (.error e, w') => E e w'

-- only the rules below look into an action; an application of one of them would run it otherwise
attribute [irreducible] Ends

section Ends
variable {P : α → World → Prop} {Q : β → World → Prop} {E : Fault → World → Prop}

theorem Ends.bind {a : Action α} {f : α → Action β} (ha : a.Ends w P E)
    (hf : ∀ x w', P x w' → (f x).Ends w' Q E) : (a >>= f).Ends w Q E := by
  rw [Ends, outcome_bind]
  rw [Ends] at ha
  rcases h : a.outcome w with ⟨e | x, w'⟩
  all_goals rw [h] at ha
  · exact ha
  · have hx := hf x w' ha
    rwa [Ends] at hx

theorem Ends.mono {a : Action α} {P' : α → World → Prop} {E' : Fault → World → Prop}
    (ha : a.Ends w P E) (hP : ∀ x w', P x w' → P' x w') (hE : ∀ e w', E e w' → E' e w') :
    a.Ends w P' E' := by
  rw [Ends] at ha ⊢
  rcases h : a.outcome w with ⟨e | x, w'⟩
  all_goals rw [h] at ha
  · exact hE e w' ha
  · exact hP x w' ha

/-- What is known where nothing has to be known of a refusal. -/
theorem Ends.forget {a : Action α} (ha : a.Ends w P E) : a.Ends w P fun _ _ => True :=
  ha.mono (fun _ _ h => h) fun _ _ _ => trivial

theorem Ends.refused_or_returns {a : Action α} (h : a.Ends w P E) :
    (∃ e w', a.outcome w = (.error e, w') ∧ E e w') ∨ a.Returns w P := by
  rw [Ends] at h
  rcases ha : a.outcome w with ⟨e | x, w'⟩
  all_goals rw [ha] at h
  · exact .inl ⟨e, w', rfl, h⟩
  · exact .inr ⟨x, w', ha, h⟩

theorem Ends.returns {a : Action α} (h : a.Ends w P E) (hE : ∀ e w', ¬ E e w') : a.Returns w P :=
  h.refused_or_returns.resolve_left fun ⟨e, w', _, he⟩ => hE e w' he

theorem Ends.of_ok {a : Action α} {x : α} {w' : World} (h : a.Ends w P E)
    (ha : a.outcome w = (.ok x, w')) : P x w' := by
  rw [Ends, ha] at h
  exact h

/-- What holds however an action ends. -/
theorem Ends.after {a : Action α} {I : World → Prop} (ha : a.Ends w (fun _ => I) fun _ => I) :
    I (a.outcome w).2 := by
  rw [Ends] at ha
  rcases h : a.outcome w with ⟨e | x, w'⟩
  all_goals
    rw [h] at ha
    exact ha

theorem ends_of_after {a : Action α} {I : World → Prop} (h : I (a.outcome w).2) :
    a.Ends w (fun _ => I) fun _ => I := by
  rw [Ends]
  rcases ha : a.outcome w with ⟨e | x, w'⟩
  all_goals
    rw [ha] at h
    exact h

/-- Of an action of which nothing has to be known, only the rest counts. -/
theorem ends_then {a : Action α} {f : α → Action β} (hf : ∀ x w', (f x).Ends w' Q fun _ _ => True) :
    (a >>= f).Ends w Q fun _ _ => True :=
  (ends_of_after trivial).bind fun x w' _ => hf x w'

theorem Ends.asOptionFault {a : Action α} {I : World → Prop} (h : a.Ends w P fun _ => I) :
    (asOptionFault a).Ends w P fun _ => I := by
  rw [Ends, outcome_asOptionFault]
  rw [Ends] at h
  rcases ha : a.outcome w with ⟨e | x, w'⟩
  all_goals rw [ha] at h
  · cases e <;> exact h
  · exact h

theorem Returns.ends {a : Action α} (h : a.Returns w P) : a.Ends w P E := by
  obtain ⟨x, w', hx, hP⟩ := h
  rw [Ends, hx]
  exact hP

theorem ends_pure {x : α} (hP : P x w) : (pure x : Action α).Ends w P E := by
  rw [Ends]
  exact hP

theorem ends_throw {e : Fault} (hE : E e w) : (throw e : Action α).Ends w P E := by
  rw [Ends]
  exact hE

/-- Going on after an action that changes nothing. -/
theorem ends_bind_same {a : Action α} {f : α → Action β} {x : α} (ha : a.outcome w = (.ok x, w))
    (h : (f x).Ends w Q E) : (a >>= f).Ends w Q E := by
  rw [Ends] at h ⊢
  rw [outcome_bind_ok f ha]
  exact h

theorem ends_store_bind {f : Store → Action β} (h : (f w.store).Ends w Q E) :
    (store >>= f).Ends w Q E :=
  ends_bind_same (outcome_store w) h

theorem ends_ofStore_bind {g : Store → Except Fault α} {h : α → Action β}
    (herror : ∀ e, g w.store = .error e → E e w) (hok : ∀ x, g w.store = .ok x → (h x).Ends w Q E) :
    (ofStore g >>= h).Ends w Q E := by
  rw [Ends, outcome_bind, outcome_ofStore]
  cases hx : g w.store with
  | error e => exact herror e hx
  | ok x =>
    have hh := hok x hx
    rwa [Ends] at hh

theorem ends_ite_bind {p : Prop} [Decidable p] {a b : Action α} {f : α → Action β}
    (h : ((if p then a else b) >>= f).Ends w Q E) :
    (if p then a >>= f else b >>= f).Ends w Q E := by
  split_ifs at h ⊢ <;> exact h

end Ends

/-! ### What stays -/

/-- **A part of the world that an action leaves as it is**, refused or not. -/
def Fixes {γ : Type} (part : World → γ) (a : Action α) : Prop := ∀ w, part (a.outcome w).2 = part w

section Fixes
variable {γ : Type} {part : World → γ}

theorem Fixes.ends {a : Action α} (h : a.Fixes part) (w : World) :
    a.Ends w (fun _ w' => part w' = part w) fun _ w' => part w' = part w := by
  have hw := h w
  rw [Ends]
  rcases h : a.outcome w with ⟨e | x, w'⟩
  all_goals
    rw [h] at hw
    exact hw

/-- Going on after an action that leaves the store as it is. -/
theorem Fixes.ends_bind {s : Store} (hw : w.store = s) {a : Action α} {f : α → Action β}
    {Q : β → World → Prop} {I : World → Prop} (ha : a.Fixes World.store)
    (hI : ∀ w', w'.store = s → I w') (hf : ∀ x w', w'.store = s → (f x).Ends w' Q fun _ => I) :
    (a >>= f).Ends w Q fun _ => I :=
  ((ha.ends w).mono (fun _ _ h => h) fun _ w' h => hI w' (h.trans hw)).bind fun x w' h =>
    hf x w' (h.trans hw)

theorem Fixes.bind {a : Action α} {f : α → Action β} (ha : a.Fixes part)
    (hf : ∀ x, (f x).Fixes part) : (a >>= f).Fixes part := by
  intro w
  have hw := ha w
  rw [outcome_bind]
  rcases h : a.outcome w with ⟨e | x, w'⟩
  all_goals rw [h] at hw
  · exact hw
  · exact (hf x w').trans hw

theorem Returns.fixing {a : Action α} {P : α → World → Prop} (h : a.Returns w P)
    (ha : a.Fixes part) : a.Returns w fun x w' => P x w' ∧ part w' = part w := by
  obtain ⟨x, w', hx, hP⟩ := h
  have hw := ha w
  rw [hx] at hw
  exact ⟨x, w', hx, hP, hw⟩

theorem Fixes.succeeds {a : Action α} {P : α → World → Prop} (ha : a.Fixes part)
    (h : a.Succeeds w P) : a.Succeeds w fun x w' => part w' = part w ∧ P x w' := by
  obtain ⟨x, w', hx, hle, hP⟩ := h
  have hw := ha w
  rw [hx] at hw
  exact ⟨x, w', hx, hle, hw, hP⟩

theorem fixes_ite {p : Prop} [Decidable p] {a b : Action α} (ha : a.Fixes part)
    (hb : b.Fixes part) : (if p then a else b).Fixes part := by
  split_ifs
  · exact ha
  · exact hb

theorem fixes_ite_bind {p : Prop} [Decidable p] {a b : Action α} {f : α → Action β}
    (h : ((if p then a else b) >>= f).Fixes part) :
    (if p then a >>= f else b >>= f).Fixes part := by
  split_ifs at h ⊢ <;> exact h

theorem fixes_pure (x : α) : (pure x : Action α).Fixes part := fun _ => rfl

theorem fixes_throw (e : Fault) : (throw e : Action α).Fixes part := fun _ => rfl

theorem fixes_store : store.Fixes part := fun _ => rfl

theorem fixes_ofStore (f : Store → Except Fault α) : (ofStore f).Fixes part := fun w => by
  rw [outcome_ofStore]

theorem fixes_note (e : Entry) : (note e).Fixes World.store := fun _ => rfl

theorem fixes_asked_alloc (c : Cell) : (alloc c).Fixes World.asked := fun _ => rfl

end Fixes

end Action

end VirtualFile
