import VirtualFile.Value.Inspect
/-!
# Faults of values

Taking values apart and comparing them fails only with faults that are not of the library's own
family (`Store.foreign_entries`): a value has no members, a member is no pair, a key cannot be one,
or two values are too deep to be compared.
-/

namespace VirtualFile

/-- **A computation that fails with foreign faults alone.** -/
def Foreign {α : Type} (x : Except Fault α) : Prop := ∀ e, x = .error e → e.kind.isFileError = false

section Foreign
variable {α β : Type}

theorem foreign_ok (x : α) : Foreign (.ok x) := fun _ h => absurd h (by simp)

theorem foreign_error {e : Fault} (h : e.kind.isFileError = false) :
    Foreign (.error e : Except Fault α) :=
  fun _ he => Except.error.inj he ▸ h

theorem Foreign.bind {x : Except Fault α} {f : α → Except Fault β} (hx : Foreign x)
    (hf : ∀ a, Foreign (f a)) : Foreign (x >>= f) := by
  cases x with
  | ok a => exact hf a
  | error e => exact foreign_error (hx e rfl)

theorem foreign_ite {p : Prop} [Decidable p] {x y : Except Fault α} (hx : Foreign x)
    (hy : Foreign y) : Foreign (if p then x else y) := by
  split
  · exact hx
  · exact hy

end Foreign

namespace Store

/-! ### Comparing -/

section Same
variable {same : Value → Value → Except Fault Bool} (hsame : ∀ v w, Foreign (same v w))
include hsame

theorem foreign_sameMember (v w : Value) : Foreign (sameMember same v w) := by
  rw [sameMember]
  exact foreign_ite (foreign_ok true) (hsame v w)

theorem foreign_pairwise (vs ws : List Value) : Foreign (pairwise same vs ws) := by
  induction vs generalizing ws with
  | nil => cases ws <;> exact foreign_ok _
  | cons v vs ih =>
    cases ws with
    | nil => exact foreign_ok _
    | cons w ws =>
      rw [pairwise]
      exact (foreign_sameMember hsame v w).bind fun b => foreign_ite (ih ws) (foreign_ok _)

theorem foreign_entryWith (key : Value) (es : Entries) : Foreign (entryWith same key es) := by
  induction es with
  | nil => exact foreign_ok _
  | cons e es ih =>
    rw [entryWith]
    exact (foreign_sameMember hsame _ key).bind fun b => foreign_ite (foreign_ok _) ih

theorem foreign_entriesWithin (all es : Entries) : Foreign (entriesWithin same all es) := by
  induction es with
  | nil => exact foreign_ok _
  | cons e es ih =>
    rw [entriesWithin]
    refine (foreign_entryWith hsame _ all).bind fun found => ?_
    cases found with
    | none => exact foreign_ok _
    | some w => exact (foreign_sameMember hsame _ w).bind fun b => foreign_ite ih (foreign_ok _)

theorem foreign_sameCell (c d : Cell) : Foreign (sameCell same c d) := by
  rw [sameCell.eq_def]
  split
  · exact foreign_pairwise hsame _ _
  · exact foreign_pairwise hsame _ _
  · exact foreign_ite (foreign_entriesWithin hsame _ _) (foreign_ok _)
  · exact foreign_pairwise hsame _ _
  · exact (hsame _ _).bind fun b => foreign_ite (foreign_pairwise hsame _ _) (foreign_ok _)
  · exact foreign_ok _
  · exact foreign_pairwise hsame _ _
  · exact foreign_pairwise hsame _ _
  · exact foreign_ok _

end Same

variable (s : Store)

theorem foreign_equalTo (depth : Nat) (v w : Value) : Foreign (s.equalTo depth v w) := by
  induction depth generalizing v w with
  | zero => exact foreign_error rfl
  | succ depth ih =>
    rw [equalTo.eq_def]
    dsimp only
    split
    · exact foreign_ok _
    · exact foreign_ok _
    · exact foreign_ok _
    · exact foreign_pairwise ih _ _
    · exact foreign_pairwise ih _ _
    · refine foreign_ite (foreign_ok _) ?_
      split
      · exact foreign_ok _
      · exact foreign_sameCell ih _ _
      · exact foreign_ok _
    · split <;> exact foreign_ok _

theorem foreign_equal (v w : Value) : Foreign (s.equal v w) := s.foreign_equalTo _ v w

/-! ### Members and entries -/

theorem foreign_items (v : Value) : Foreign (s.items v) := by
  rw [items.eq_def]
  split
  · exact foreign_ok _
  · exact foreign_ok _
  · split
    all_goals first
      | exact foreign_ok _
      | exact foreign_error rfl

theorem foreign_put (key value : Value) (es : Entries) : Foreign (s.put key value es) := by
  induction es with
  | nil => exact foreign_ok _
  | cons e es ih =>
    rw [put]
    refine (foreign_sameMember s.foreign_equal _ key).bind fun b => foreign_ite (foreign_ok _) ?_
    exact ih.bind fun _ => foreign_ok _

theorem foreign_insert (key value : Value) (es : Entries) : Foreign (s.insert key value es) := by
  rw [insert]
  exact foreign_ite (s.foreign_put key value es) (foreign_error rfl)

theorem foreign_pair (v : Value) : Foreign (s.pair v) := by
  rw [pair]
  refine (s.foreign_items v).bind fun vs => ?_
  split
  · exact foreign_ok _
  · exact foreign_error rfl

theorem foreign_insertPairs (es : Entries) (vs : List Value) : Foreign (s.insertPairs es vs) := by
  induction vs generalizing es with
  | nil => exact foreign_ok _
  | cons v vs ih =>
    rw [insertPairs]
    exact (s.foreign_pair v).bind fun kw => (s.foreign_insert kw.1 kw.2 es).bind ih

/-- **Reading entries** fails with foreign faults alone. -/
theorem foreign_entries (v : Value) : Foreign (s.entries v) := by
  rw [entries]
  split
  · exact foreign_ok _
  · exact (s.foreign_items v).bind fun vs => s.foreign_insertPairs [] vs

end Store

end VirtualFile
