import Mathlib.Data.Finset.Card
import Mathlib.Tactic.SplitIfs
import VirtualFile.Message
/-!
# Places within places

A place can carry another one as its position. Both readers of places follow these steps to the
innermost place and read that one (`Store.resolve_eq`, `Store.describe_eq`). The depth to which they
look is enough for every place that has an innermost one: each step but the last leaves a cell, and
a cell that was left is never met again, since the way from it would then go on forever.

* `Store.inner?`, `Store.LeadsTo`, `Store.Innermost`: the steps, and where they end.
* `Store.rangeAt`, `Store.labelAt`: what is read at the innermost place.
-/

namespace VirtualFile

namespace Store

/-- What a place carries as its position. -/
def inner? (s : Store) (v : Value) : Option Value :=
  match v with
  | .null | .point _ _ _ | .position _ _ => none
  | v =>
    match s.dict? v with
    | some es => entryNamed? "position" es
    | none => s.attribute? v "position"

/-- **A place leads to another**: to itself, and to where its position leads. -/
inductive LeadsTo (s : Store) : Value → Value → Prop
  | here (v : Value) : LeadsTo s v v
  | inside {v w x : Value} (h : s.inner? v = some w) (hw : LeadsTo s w x) : LeadsTo s v x

/-- **The innermost place** that a place leads to. There is none if the steps go in a circle. -/
def Innermost (s : Store) (v x : Value) : Prop := s.LeadsTo v x ∧ s.inner? x = none

/-- The number of steps to the innermost place. -/
inductive Nests (s : Store) : Nat → Value → Value → Prop
  | here {v : Value} (h : s.inner? v = none) : Nests s 0 v v
  | inside {n : Nat} {v w x : Value} (h : s.inner? v = some w) (hw : Nests s n w x) :
      Nests s (n + 1) v x

variable {s : Store} {v w x : Value} {n : Nat}

/-! ### The number of steps -/

theorem Innermost.exists_nests (h : s.Innermost v x) : ∃ n, s.Nests n v x := by
  obtain ⟨hlead, hend⟩ := h
  induction hlead with
  | here v => exact ⟨0, .here hend⟩
  | inside h _ ih =>
    obtain ⟨n, hn⟩ := ih hend
    exact ⟨n + 1, .inside h hn⟩

theorem Nests.unique {m : Nat} (hn : s.Nests n v x) (hm : s.Nests m v x) : n = m := by
  induction hn generalizing m with
  | here h =>
    cases hm with
    | here => rfl
    | inside h' => exact absurd h' (by simp [h])
  | inside h hw ih =>
    cases hm with
    | here h' => exact absurd h (by simp [h'])
    | inside h' hw' =>
      obtain rfl := Option.some.inj (h.symm.trans h')
      rw [ih hw']

theorem exists_ref_of_inner? (h : s.inner? v = some w) : ∃ r, v = .ref r ∧ r < s.cells.size := by
  cases v with
  | ref r =>
    refine ⟨r, rfl, ?_⟩
    by_contra hr
    have hcell : s.cell? (.ref r) = none := by simpa [cell?] using hr
    simp [inner?, dict?, attribute?, hcell] at h
  | _ => exact absurd h (by simp [inner?, dict?, attribute?, cell?])

/-- The cells on the way to the innermost place, each at a number of steps of its own. -/
theorem Nests.exists_cells (h : s.Nests n v x) : ∃ rs : List Ref, rs.length = n ∧ rs.Nodup ∧
    ∀ r ∈ rs, r < s.cells.size ∧ ∃ k ≤ n, s.Nests k (.ref r) x := by
  induction h with
  | here => exact ⟨[], rfl, List.nodup_nil, by simp⟩
  | @inside n v w x hv hw ih =>
    obtain ⟨rs, hlength, hnodup, hrs⟩ := ih
    obtain ⟨r, rfl, hr⟩ := exists_ref_of_inner? hv
    refine ⟨r :: rs, by rw [List.length_cons, hlength],
      List.nodup_cons.mpr ⟨fun hmem => ?_, hnodup⟩, ?_⟩
    · -- the cell would be both this far from the end and nearer to it
      obtain ⟨-, k, hk, hnests⟩ := hrs r hmem
      have := (Nests.inside hv hw).unique hnests
      omega
    · refine List.forall_mem_cons.mpr ⟨⟨hr, n + 1, le_rfl, .inside hv hw⟩, fun q hq => ?_⟩
      obtain ⟨hlt, k, hk, hnests⟩ := hrs q hq
      exact ⟨hlt, k, by omega, hnests⟩

theorem Nests.le_size (h : s.Nests n v x) : n ≤ s.cells.size := by
  obtain ⟨rs, rfl, hnodup, hrs⟩ := h.exists_cells
  rw [← List.toFinset_card_of_nodup hnodup, ← Finset.card_range s.cells.size]
  exact Finset.card_le_card fun r hr => Finset.mem_range.mpr (hrs r (List.mem_toFinset.mp hr)).1

/-! ### The readers -/

/-- The range of a place that carries no other one. -/
def rangeAt (s : Store) (v : Value) : Option Position :=
  match v with
  | .position a b => some ⟨a, b⟩
  | .point l c o => some { start := .point l c o }
  | v =>
    match s.dict? v with
    | some es =>
      if eitherKey "start" "end" es then some (Position.ofEntries s es)
      else if eitherKey "line" "column" es then some { start := (Point.ofEntries es).toValue }
      else none
    | none => none

/-- The text of a place that carries no other one. -/
def labelAt (s : Store) (v : Value) : Except Fault Text :=
  match v with
  | .point _ _ _ | .position _ _ => s.label v
  | v =>
    match s.dict? v with
    | some es =>
      if eitherKey "start" "end" es then (Position.ofEntries s es).label s
      else if eitherKey "line" "column" es then .ok (Point.ofEntries es).label
      else .ok []
    | none => .ok []

theorem resolveTo_succ (depth : Nat) (v : Value) : s.resolveTo (depth + 1) v =
    match s.inner? v with
    | some w => s.resolveTo depth w
    | none => .ok (s.rangeAt v) := by
  cases v with
  | ref r =>
    simp only [resolveTo, inner?, rangeAt]
    cases s.dict? (.ref r) with
    | some es =>
      dsimp only
      cases entryNamed? "position" es with
      | some w => rfl
      | none =>
        dsimp only
        split_ifs <;> rfl
    | none => cases s.attribute? (.ref r) "position" <;> rfl
  | _ => rfl

theorem describeTo_succ (depth : Nat) (v : Value) : s.describeTo (depth + 1) v =
    match s.inner? v with
    | some w => s.describeTo depth w
    | none => s.labelAt v := by
  cases v with
  | ref r =>
    simp only [describeTo, inner?, labelAt]
    cases s.dict? (.ref r) with
    | some es => cases entryNamed? "position" es <;> rfl
    | none => cases s.attribute? (.ref r) "position" <;> rfl
  | _ => rfl

theorem Nests.resolveTo_eq (h : s.Nests n v x) (depth : Nat) :
    s.resolveTo (n + depth + 1) v = .ok (s.rangeAt x) := by
  induction h with
  | here h => rw [resolveTo_succ, h]
  | @inside n v w x h _ ih =>
    rw [resolveTo_succ, h, Nat.succ_add n depth]
    exact ih

theorem Nests.describeTo_eq (h : s.Nests n v x) (depth : Nat) :
    s.describeTo (n + depth + 1) v = s.labelAt x := by
  induction h with
  | here h => rw [describeTo_succ, h]
  | @inside n v w x h _ ih =>
    rw [describeTo_succ, h, Nat.succ_add n depth]
    exact ih

/-- **The range of a place** is that of its innermost one. -/
theorem Innermost.resolve_eq (h : s.Innermost v x) : s.resolve v = .ok (s.rangeAt x) := by
  obtain ⟨n, hn⟩ := h.exists_nests
  rw [resolve, depth, ← hn.resolveTo_eq (s.cells.size - n), Nat.add_sub_cancel' hn.le_size]

/-- **The text of a place** is that of its innermost one. -/
theorem Innermost.describe_eq (h : s.Innermost v x) : s.describe v = s.labelAt x := by
  obtain ⟨n, hn⟩ := h.exists_nests
  rw [describe, depth, ← hn.describeTo_eq (s.cells.size - n), Nat.add_sub_cancel' hn.le_size]

end Store

end VirtualFile
