import Mathlib.Data.Set.Card
import VirtualFile.Proofs.Place.Labels
import VirtualFile.Proofs.Place.Nesting
/-!
# The range and the text of a place

The two readers of places tell the kinds of places apart each on its own. They agree at the
innermost place (`Store.agree_innermost`): there is a range if and only if there is a text, the text
is that of the start of the range for a place that is a point, and that of the whole range for one
that is a range. A place has an innermost one if none of the places on the way leads back to itself,
since each step leaves one cell fewer to go to.

* `Store.Acyclic`, `Store.Acyclic.exists_innermost`: the way ends that does not go in a circle.
* `Store.PointShaped`, `Store.RangeShaped`: the kinds of innermost
  places from which something can be read.
* `Store.Agree`: the range and the text say the same.
* `Store.legible_innermost`: only a range whose ends are not both points is refused.
-/

namespace VirtualFile

/-- Whether a value is a single place. -/
def Value.isPoint : Value → Bool
  | .point _ _ _ => true
  | _ => false

theorem Value.exists_toValue {v : Value} (h : v.isPoint) : ∃ q : Point, v = q.toValue := by
  cases v with
  | point l c o => exact ⟨⟨l, c, o⟩, rfl⟩
  | _ => exact absurd h (by simp [isPoint])

theorem Position.startPlace_eq (s : Store) {p : Position} {q : Point} (h : p.start = q.toValue) :
    p.startPlace s = .ok (q.line, q.column) := by
  rw [startPlace, h]
  rfl

namespace Store
variable {s : Store} {v w x y : Value} {n : Nat}

/-! ### Ways that end -/

/-- **No place on the way leads back to itself.** -/
def Acyclic (s : Store) (v : Value) : Prop :=
  ∀ x y, s.LeadsTo v x → s.inner? x = some y → ¬ s.LeadsTo y x

theorem Acyclic.inside (h : s.Acyclic v) (hv : s.inner? v = some w) : s.Acyclic w :=
  fun x y hx => h x y (.inside hv hx)

/-- The cells on the way. -/
def cellsOn (s : Store) (v : Value) : Set Ref := {r | r < s.cells.size ∧ s.LeadsTo v (.ref r)}

theorem finite_cellsOn (s : Store) (v : Value) : (s.cellsOn v).Finite :=
  (Set.finite_lt_nat s.cells.size).subset fun _ hr => hr.1

/-- A step leaves the cell behind from which it is made. -/
theorem Acyclic.ncard_cellsOn_lt (h : s.Acyclic v) (hv : s.inner? v = some w) :
    (s.cellsOn w).ncard < (s.cellsOn v).ncard := by
  obtain ⟨r, rfl, hr⟩ := exists_ref_of_inner? hv
  have hsubset : ∀ q ∈ s.cellsOn w, q ∈ s.cellsOn (.ref r) := fun q hq => ⟨hq.1, .inside hv hq.2⟩
  have hleft : r ∉ s.cellsOn w := fun hmem => h (.ref r) w (.here _) hv hmem.2
  exact Set.ncard_lt_ncard ⟨hsubset, fun hback => hleft (hback ⟨hr, .here _⟩)⟩ (s.finite_cellsOn _)

/-- **A way that does not go in a circle ends**, by induction on the number of cells on it. -/
theorem Acyclic.exists_innermost (h : s.Acyclic v) : ∃ x, s.Innermost v x := by
  induction hn : (s.cellsOn v).ncard using Nat.strong_induction_on generalizing v with
  | _ n ih =>
    subst hn
    cases hv : s.inner? v with
    | none => exact ⟨v, .here v, hv⟩
    | some w =>
      obtain ⟨x, hlead, hend⟩ := ih _ (h.ncard_cellsOn_lt hv) (h.inside hv) rfl
      exact ⟨x, .inside hv hlead, hend⟩

theorem LeadsTo.innermost (h : s.LeadsTo v y) (hx : s.Innermost v x) : s.Innermost y x := by
  obtain ⟨hlead, hend⟩ := hx
  induction h with
  | here v => exact ⟨hlead, hend⟩
  | inside hv _ ih =>
    cases hlead with
    | here => exact absurd hv (by simp [hend])
    | inside hv' hlead =>
      obtain rfl := Option.some.inj (hv.symm.trans hv')
      exact ih hlead

theorem Innermost.eq_of_leadsTo (hx : s.Innermost v x) (hy : s.LeadsTo v y)
    (hend : s.inner? y = none) : y = x := by
  obtain ⟨hlead, -⟩ := hy.innermost hx
  cases hlead with
  | here => rfl
  | inside h => exact absurd h (by simp [hend])

/-- From further away there are no fewer steps. -/
theorem LeadsTo.exists_nests (h : s.LeadsTo v y) (hy : s.Nests n y x) :
    ∃ m, n ≤ m ∧ s.Nests m v x := by
  induction h with
  | here v => exact ⟨n, le_rfl, hy⟩
  | inside hv _ ih =>
    obtain ⟨m, hm, hnests⟩ := ih hy
    exact ⟨m + 1, by omega, .inside hv hnests⟩

/-- **A way that ends does not go in a circle.** -/
theorem Innermost.acyclic (hx : s.Innermost v x) : s.Acyclic v := by
  intro y z hy hstep hback
  obtain ⟨n, hn⟩ := (hy.innermost hx).exists_nests
  cases hn with
  | here hend => exact absurd hstep (by simp [hend])
  | inside hstep' hz =>
    obtain rfl := Option.some.inj (hstep.symm.trans hstep')
    -- the way back to `y` would make the rest of the way longer than the way from `y`
    obtain ⟨m, hm, hnests⟩ := hback.exists_nests (.inside hstep hz)
    have := hz.unique hnests
    omega

/-! ### Kinds of innermost places -/

/-- **A place that is a point**: a point, or a dictionary with a field of a point that has neither a
place in it nor a field of a range. -/
inductive PointShaped (s : Store) : Value → Prop
  | point (l c o : Value) : PointShaped s (.point l c o)
  | dict {v : Value} {es : Entries} (hv : s.dict? v = some es)
      (hposition : entryNamed? "position" es = none)
      (hrange : eitherKey "start" "end" es = false) (hpoint : eitherKey "line" "column" es = true) :
        PointShaped s v

/-- **A place that is a range**: a range, or a dictionary with a field
of a range that has no place in it. -/
inductive RangeShaped (s : Store) : Value → Prop
  | position (a b : Value) : RangeShaped s (.position a b)
  | dict {v : Value} {es : Entries} (hv : s.dict? v = some es)
      (hposition : entryNamed? "position" es = none)
      (hrange : eitherKey "start" "end" es = true) : RangeShaped s v

theorem exists_ref_of_dict? {es : Entries} (h : s.dict? v = some es) : ∃ r, v = .ref r := by
  cases v with
  | ref r => exact ⟨r, rfl⟩
  | _ => exact absurd h (by simp [dict?, cell?])

theorem isPoint_endOf (s : Store) (v : Value) : (s.endOf v).isPoint := by
  rw [endOf.eq_def]
  split <;> rfl

theorem PointShaped.reads (h : s.PointShaped x) :
    ∃ q : Point, s.rangeAt x = some { start := q.toValue } ∧ s.labelAt x = .ok q.label := by
  cases h with
  | point l c o => exact ⟨⟨l, c, o⟩, rfl, rfl⟩
  | @dict v es hv hposition hrange hpoint =>
    obtain ⟨r, rfl⟩ := exists_ref_of_dict? hv
    exact ⟨Point.ofEntries es, by simp [rangeAt, hv, hrange, hpoint],
      by simp [labelAt, hv, hrange, hpoint]⟩

theorem RangeShaped.reads (h : s.RangeShaped x)
    (hx : ∀ a b, x = .position a b → a.isPoint ∧ b.isPoint) :
    ∃ p : Position, p.start.isPoint ∧ p.stop.isPoint ∧ s.rangeAt x = some p ∧
    s.labelAt x = p.label s := by
  cases h with
  | position a b => exact ⟨⟨a, b⟩, (hx a b rfl).1, (hx a b rfl).2, rfl, rfl⟩
  | @dict v es hv hposition hrange =>
    obtain ⟨r, rfl⟩ := exists_ref_of_dict? hv
    refine ⟨Position.ofEntries s es, isPoint_endOf s _, isPoint_endOf s _, ?_, ?_⟩
    · simp [rangeAt, hv, hrange]
    · simp [labelAt, hv, hrange]

theorem reads_nothing (hend : s.inner? x = none) (hpoint : ¬ s.PointShaped x)
    (hrange : ¬ s.RangeShaped x) : s.rangeAt x = none ∧ s.labelAt x = .ok [] := by
  cases x with
  | point l c o => exact absurd (.point l c o) hpoint
  | position a b => exact absurd (.position a b) hrange
  | ref r =>
    simp only [rangeAt, labelAt]
    cases hv : s.dict? (.ref r) with
    | none => exact ⟨rfl, rfl⟩
    | some es =>
      have hposition : entryNamed? "position" es = none := by simpa [inner?, hv] using hend
      have hrange' : eitherKey "start" "end" es = false := by
        by_contra h
        exact hrange (.dict hv hposition (by simpa using h))
      have hpoint' : eitherKey "line" "column" es = false := by
        by_contra h
        exact hpoint (.dict hv hposition hrange' (by simpa using h))
      simp [hrange', hpoint']
  | _ => exact ⟨rfl, rfl⟩

theorem PointShaped.not_rangeShaped (h : s.PointShaped x) : ¬ s.RangeShaped x := by
  intro hr
  cases h with
  | point l c o =>
    cases hr with
    | dict hv => exact absurd hv (by simp [dict?, cell?])
  | dict hv _ hrange _ =>
    cases hr with
    | position a b => exact absurd hv (by simp [dict?, cell?])
    | dict hv' _ hrange' =>
      obtain rfl := Option.some.inj (hv.symm.trans hv')
      exact absurd hrange' (by simp [hrange])

/-! ### Agreement -/

/-- **The range and the text of an innermost place agree**: both or neither is there; the text is
that of the start for a point and that of the range for a range, and begins in either case with that
of the start, which is a point. -/
structure Agree (s : Store) (x : Value) (range : Option Position) (label : Text) : Prop where
  nothing : range = none ↔ label = []
  shape : range = none ↔ ¬ s.PointShaped x ∧ ¬ s.RangeShaped x
  atPoint : s.PointShaped x → ∃ p, range = some p ∧ s.label p.start = .ok label
  atRange : s.RangeShaped x → ∃ p, range = some p ∧ p.label s = .ok label
  start : ∀ p, range = some p → ∃ q : Point, p.start = q.toValue ∧ q.label <+: label
  shown : label = [] ∨ IsLabel label

theorem PointShaped.agree (h : s.PointShaped x) : ∃ label, s.labelAt x = .ok label ∧
    s.Agree x (s.rangeAt x) label := by
  obtain ⟨q, hrange, hlabel⟩ := h.reads
  refine ⟨q.label, hlabel, ?_⟩
  rw [hrange]
  constructor
  · simp [q.label_ne_nil]
  · simp [h]
  · exact fun _ => ⟨_, rfl, rfl⟩
  · exact fun hr => absurd hr h.not_rangeShaped
  · rintro p hp
    obtain rfl := Option.some.inj hp
    exact ⟨q, rfl, List.prefix_refl _⟩
  · exact .inr (.point q)

theorem exists_label {p : Position} (hstart : p.start.isPoint) (hstop : p.stop.isPoint) :
    ∃ a b : Point,
    p.start = a.toValue ∧ p.stop = b.toValue ∧ p.label s = .ok (a.label ++ '-' :: b.label) := by
  obtain ⟨a, ha⟩ := Value.exists_toValue hstart
  obtain ⟨b, hb⟩ := Value.exists_toValue hstop
  refine ⟨a, b, ha, hb, ?_⟩
  rw [Position.label, Position.toValue, ha, hb]
  rfl

theorem RangeShaped.agree (h : s.RangeShaped x)
    (hx : ∀ a b, x = .position a b → a.isPoint ∧ b.isPoint) :
    ∃ label, s.labelAt x = .ok label ∧ s.Agree x (s.rangeAt x) label := by
  obtain ⟨p, hstart, hstop, hrange, hlabel⟩ := h.reads hx
  obtain ⟨a, b, ha, -, hp⟩ := exists_label (s := s) hstart hstop
  refine ⟨a.label ++ '-' :: b.label, hlabel.trans hp, ?_⟩
  rw [hrange]
  constructor
  · simp
  · simp [h]
  · exact fun hq => absurd h hq.not_rangeShaped
  · exact fun _ => ⟨p, rfl, hp⟩
  · rintro p' hp'
    obtain rfl := Option.some.inj hp'
    exact ⟨a, ha, List.prefix_append _ _⟩
  · exact .inr (.range a b)

/-- **The readers agree** at every innermost place that is no range, or a range between points. -/
theorem agree_innermost (hend : s.inner? x = none)
    (hx : ∀ a b, x = .position a b → a.isPoint ∧ b.isPoint) :
    ∃ label, s.labelAt x = .ok label ∧ s.Agree x (s.rangeAt x) label := by
  by_cases hpoint : s.PointShaped x
  · exact hpoint.agree
  by_cases hrange : s.RangeShaped x
  · exact hrange.agree hx
  · obtain ⟨hnone, hlabel⟩ := reads_nothing hend hpoint hrange
    refine ⟨[], hlabel, ?_⟩
    rw [hnone]
    exact ⟨by simp, by simp [hpoint, hrange], fun h => absurd h hpoint, fun h => absurd h hrange,
      by simp, .inl rfl⟩

/-! ### What can be read -/

/-- A text, and a range that may be missing, with the line and the column of its start. -/
def Legible (s : Store) (label : Except Fault Text) (range : Option Position) : Prop :=
  (∃ t, label = .ok t) ∧ ∀ p, range = some p → ∃ l c, p.startPlace s = .ok (l, c)

/-- **Every place can be read** that is no range, or a range between two points. -/
theorem legible_innermost (hend : s.inner? x = none)
    (hx : ∀ a b, x = .position a b → a.isPoint ∧ b.isPoint) :
    s.Legible (s.labelAt x) (s.rangeAt x) := by
  obtain ⟨label, hlabel, hagree⟩ := agree_innermost hend hx
  refine ⟨⟨label, hlabel⟩, fun p hp => ?_⟩
  obtain ⟨q, hq, -⟩ := hagree.start p hp
  exact ⟨q.line, q.column, Position.startPlace_eq s hq⟩

end Store

end VirtualFile
