import VirtualFile.Proofs.File.Report
/-!
# Messages at a place

A message takes its position from one reader of places and its name from the other. As these agree,
its name begins with its own line and column, and these are the start of its position
(`Action.newMessage_agrees`). A message without a position is named `1:1`.
-/

namespace VirtualFile

/-- **A message stands where a range starts**: the range is its position, the line and the column
are those of the start, and the name begins with them. Without a range it has none of these. -/
structure Message.StandsAt (range : Option Position) (m : Message) : Prop where
  position : m.position = (range.map Position.toValue).getD .null
  start : ∀ p, range = some p → ∃ o, p.start = .point m.line m.column o
  name : ∃ rest, m.name = .text (Point.label ⟨m.line, m.column, .null⟩ ++ rest)
  nothing : m.name = .text noPlace ∧ m.line = .null ∧ m.column = .null ∧ m.position = .null ↔
  range = none

section Drafts
variable {s : Store} {reason place origin x : Value} {label : Text} {m : Message}

theorem Message.Drafts.standsAt_none (h : m.Drafts s reason place origin)
    (hrange : s.resolve place = .ok none) (hlabel : s.describe place = .ok []) :
    m.StandsAt none := by
  obtain ⟨range, hrange', hposition, hstart⟩ := h.place
  obtain rfl := Except.ok.inj (hrange.symm.trans hrange')
  obtain ⟨label, hlabel', hname⟩ := h.name
  obtain rfl := Except.ok.inj (hlabel.symm.trans hlabel')
  obtain ⟨hline, hcolumn⟩ := Prod.mk.inj (Except.ok.inj hstart)
  constructor
  · exact hposition
  · simp
  · rw [← hline, ← hcolumn]
    exact ⟨[], hname⟩
  · exact iff_of_true ⟨hname, hline.symm, hcolumn.symm, hposition⟩ rfl

theorem Message.Drafts.standsAt_some {p : Position} (h : m.Drafts s reason place origin)
    (hrange : s.resolve place = .ok (some p)) (hlabel : s.describe place = .ok label)
    (hagree : s.Agree x (some p) label) : m.StandsAt (some p) := by
  obtain ⟨range, hrange', hposition, hstart⟩ := h.place
  obtain rfl := Except.ok.inj (hrange.symm.trans hrange')
  obtain ⟨label, hlabel', hname⟩ := h.name
  obtain rfl := Except.ok.inj (hlabel.symm.trans hlabel')
  have hne : label ≠ [] := fun h => absurd (hagree.nothing.mpr h) (by simp)
  obtain ⟨⟨l, c, o⟩, hq, rest, hrest⟩ := hagree.start p rfl
  have hplace : s.startOf (some p) = .ok (l, c) := Position.startPlace_eq s hq
  obtain ⟨hline, hcolumn⟩ := Prod.mk.inj (Except.ok.inj (hplace.symm.trans hstart))
  constructor
  · exact hposition
  · rintro p' hp'
    obtain rfl := Option.some.inj hp'
    exact ⟨o, by rw [hq, ← hline, ← hcolumn]; rfl⟩
  · refine ⟨rest, ?_⟩
    rw [hname, rendered, if_neg hne, ← hrest, ← hline, ← hcolumn]
    rfl
  · refine iff_of_false ?_ (Option.some_ne_none p)
    rintro ⟨-, -, -, hnull⟩
    exact absurd (hposition.symm.trans hnull) (by simp [Position.toValue])

/-- **A message stands at its range** if the readers agree on the place. -/
theorem Message.Drafts.standsAt {range : Option Position} (h : m.Drafts s reason place origin)
    (hrange : s.resolve place = .ok range) (hlabel : s.describe place = .ok label)
    (hagree : s.Agree x range label) : m.StandsAt range := by
  cases range with
  | none =>
    obtain rfl := hagree.nothing.mp rfl
    exact h.standsAt_none hrange hlabel
  | some p => exact h.standsAt_some hrange hlabel hagree

end Drafts

namespace Action

/-- **The readers of places agree**, and so does a message about a place: of a place that
does not go in a circle, and does not lead to a range with other ends than points, range
and text are told by the innermost place, and a message about it stands at the range. The
message is refused only for a reason without a text. -/
theorem newMessage_agrees {w : World} {place : Value} (hacyclic : w.store.Acyclic place)
    (hpoints : ∀ a b, w.store.LeadsTo place (.position a b) → a.isPoint ∧ b.isPoint)
    (reason origin : Value) :
    ∃ x range label, w.store.Innermost place x ∧ w.store.resolve place = .ok range ∧
      w.store.describe place = .ok label ∧ w.store.Agree x range label ∧
      (newMessage reason place origin).Ends w (fun m w' => w.Warned w' ∧ m.StandsAt range)
        fun _ w' => w.Warned w' ∧ ∃ e, w.store.shownText reason = .error e := by
  obtain ⟨x, hx⟩ := hacyclic.exists_innermost
  have hends : ∀ a b, x = .position a b → a.isPoint ∧ b.isPoint :=
    fun a b h => hpoints a b (h ▸ hx.1)
  obtain ⟨label, hlabelAt, hagree⟩ := Store.agree_innermost hx.2 hends
  have hrange := hx.resolve_eq
  have hlabel := hx.describe_eq.trans hlabelAt
  refine ⟨x, _, label, hx, hrange, hlabel, hagree, ?_⟩
  refine (ends_newMessage (.text []) reason place origin w).mono ?_ ?_
  · rintro m w' ⟨hwarned, hm⟩
    exact ⟨hwarned, hm.standsAt hrange hlabel hagree⟩
  · rintro _ w' ⟨hwarned, hplace | hreason | ⟨e, hpath⟩⟩
    · exact absurd (hx.canRead hends) hplace
    · exact ⟨hwarned, hreason⟩
    · exact absurd hpath (by simp [Store.shownText_text])

/-- An object with a dictionary within a dictionary, which has the end of a range and a line. -/
theorem newMessage_agrees_nested :
    let s : Store := { cells := #[.object [("position", .ref 1)] [],
      .dict [(.ofString "line", .int 9), (.ofString "position", .ref 2)],
      .dict [(.ofString "line", .int 2), (.ofString "end", .ref 3)],
      .dict [(.ofString "line", .int 4), (.ofString "column", .bool true)]] }
    s.Acyclic (.ref 0) ∧ (∀ a b, s.LeadsTo (.ref 0) (.position a b) → a.isPoint ∧ b.isPoint) ∧
      ∃ p, s.resolve (.ref 0) = .ok (some p) ∧ p.label s = s.describe (.ref 0) := by
  intro s
  have hinnermost : s.Innermost (.ref 0) (.ref 2) :=
    ⟨.inside (w := .ref 1) rfl (.inside (w := .ref 2) rfl (.here _)), rfl⟩
  have hpoints : ∀ a b, s.LeadsTo (.ref 0) (.position a b) → a.isPoint ∧ b.isPoint := fun a b h =>
    absurd (hinnermost.eq_of_leadsTo h rfl) (by simp)
  obtain ⟨x, range, label, hx, hresolve, hdescribe, hagree, -⟩ :=
    newMessage_agrees (w := { store := s }) hinnermost.acyclic hpoints .null .null
  obtain rfl := hinnermost.eq_of_leadsTo hx.1 hx.2
  obtain ⟨p, rfl, hp⟩ := hagree.atRange (.dict rfl rfl rfl)
  exact ⟨hinnermost.acyclic, hpoints, p, hresolve, hp.trans hdescribe.symm⟩

end Action

end VirtualFile
