import VirtualFile.Place
import VirtualFile.Proofs.Text.Split
/-!
# Reading a place off the end of a name

A record is named after the path of its file and its place, with a colon between them, or after the
place alone. Paths may hold colons, dashes and digits, but a place is made of ordinals, which have
neither colons nor dashes. So the pieces between colons tell a name from its end: a point makes two
of them, and a range makes three, the middle one with a dash. Whatever pieces stand before these are
those of the path (`recordName_inj`).
-/

namespace VirtualFile

/-! ### Ordinals -/

/-- **An ordinal** is written with digits, or as the truth value that counts as one. -/
theorem not_mem_ordinal {c : Char} (hdigit : c.isDigit = false) (htrue : c ∉ "True".toList)
    (v : Value) : c ∉ ordinal v := by
  have hone : c ∉ ['1'] := by
    intro hc
    obtain rfl := List.mem_singleton.mp hc
    exact absurd hdigit (by decide)
  rw [ordinal.eq_def]
  split
  · next n =>
    split_ifs with hn
    · intro hc
      obtain ⟨m, rfl⟩ := Int.eq_ofNat_of_zero_le (Int.le_of_lt hn)
      exact absurd (Nat.isDigit_of_mem_toDigits (by omega) (by omega) hc) (by simp [hdigit])
    · exact hone
  · exact htrue
  · exact hone

theorem colon_not_mem_ordinal (v : Value) : ':' ∉ ordinal v := not_mem_ordinal rfl (by decide) v

theorem dash_not_mem_ordinal (v : Value) : '-' ∉ ordinal v := not_mem_ordinal rfl (by decide) v

/-! ### Places -/

theorem Point.label_ne_nil (q : Point) : q.label ≠ [] := by
  rw [label]
  exact List.append_ne_nil_of_right_ne_nil _ (List.cons_ne_nil _ _)

/-- **What a place is written as**: a point, or a range between two. -/
inductive IsLabel : Text → Prop
  | point (q : Point) : IsLabel q.label
  | range (a b : Point) : IsLabel (a.label ++ '-' :: b.label)

theorem IsLabel.ne_nil {t : Text} (h : IsLabel t) : t ≠ [] := by
  cases h with
  | point q => exact q.label_ne_nil
  | range a b => simp

theorem split_of_colon_not_mem {t : Text} (ht : ':' ∉ t) : t.split (· == ':') = [t] :=
  Text.split_of_none fun c hc => by
    have hne : c ≠ ':' := fun h => ht (h ▸ hc)
    simpa using hne

theorem split_point (q : Point) :
    q.label.split (· == ':') = [ordinal q.line, ordinal q.column] := by
  rw [Point.label, Text.split_append_cons rfl,
    split_of_colon_not_mem (colon_not_mem_ordinal q.line),
    split_of_colon_not_mem (colon_not_mem_ordinal q.column)]
  rfl

/-- Of a range, the column of its start and the line of its end make one piece. -/
theorem split_range (a b : Point) : (a.label ++ '-' :: b.label).split (· == ':') =
    [ordinal a.line, ordinal a.column ++ '-' :: ordinal b.line, ordinal b.column] := by
  have hassoc : a.label ++ '-' :: b.label =
      ordinal a.line ++ ':' :: (ordinal a.column ++ '-' :: ordinal b.line ++
        ':' :: ordinal b.column) := by
    simp [Point.label]
  have hmiddle : ':' ∉ ordinal a.column ++ '-' :: ordinal b.line := by
    simp [colon_not_mem_ordinal]
  rw [hassoc, Text.split_append_cons rfl, Text.split_append_cons rfl,
    split_of_colon_not_mem hmiddle, split_of_colon_not_mem (colon_not_mem_ordinal a.line),
    split_of_colon_not_mem (colon_not_mem_ordinal b.column)]
  rfl

/-- The pieces of a point do not end like those of a range: the last but one has no dash. -/
theorem pieces_ne {front front' : List Text} (q a b : Point) :
    front ++ q.label.split (· == ':') ≠ front' ++ (a.label ++ '-' :: b.label).split (· == ':') := by
  rw [split_point, split_range]
  intro h
  have hsame : front ++ [ordinal q.line, ordinal q.column] =
      (front' ++ [ordinal a.line]) ++ [ordinal a.column ++ '-' :: ordinal b.line,
        ordinal b.column] := by
    simpa using h
  obtain ⟨-, hlast⟩ := List.append_inj' hsame rfl
  have hline := (List.cons.inj hlast).1
  exact dash_not_mem_ordinal q.line (hline ▸ by simp)

/-- **A place is told from the end**, whatever pieces stand before it. -/
theorem IsLabel.pieces_inj {front front' : List Text} {t u : Text} (ht : IsLabel t) (hu : IsLabel u)
    (h : front ++ t.split (· == ':') = front' ++ u.split (· == ':')) : front = front' ∧ t = u := by
  have hlength : (t.split (· == ':')).length = (u.split (· == ':')).length := by
    cases ht with
    | point q =>
      cases hu with
      | point q' => rw [split_point, split_point]; rfl
      | range a b => exact absurd h (pieces_ne q a b)
    | range a b =>
      cases hu with
      | point q => exact absurd h.symm (pieces_ne q a b)
      | range a' b' => rw [split_range, split_range]; rfl
  obtain ⟨hfront, hpieces⟩ := List.append_inj' h hlength
  exact ⟨hfront, Text.split_injective ':' hpieces⟩

/-! ### Names -/

/-- **The name of a record**: the place behind the path, if there is one. -/
def recordName : Option Text → Text → Text
  | some p, t => p ++ ':' :: t
  | none, t => t

/-- The pieces of a path that may be missing. -/
def pathPieces : Option Text → List Text
  | some p => p.split (· == ':')
  | none => []

theorem pathPieces_injective : Function.Injective pathPieces := by
  intro p q h
  cases p with
  | none =>
    cases q with
    | none => rfl
    | some q => exact absurd h.symm (Text.split_ne_nil _ q)
  | some p =>
    cases q with
    | none => exact absurd h (Text.split_ne_nil _ p)
    | some q => exact congrArg some (Text.split_injective ':' h)

theorem split_recordName (path : Option Text) (t : Text) :
    (recordName path t).split (· == ':') = pathPieces path ++ t.split (· == ':') := by
  cases path with
  | some p => exact Text.split_append_cons rfl p t
  | none => rfl

/-- **Path and place are told by the name.** -/
theorem recordName_inj {p q : Option Text} {t u : Text} (ht : IsLabel t) (hu : IsLabel u)
    (h : recordName p t = recordName q u) : p = q ∧ t = u := by
  have hpieces := congrArg (Text.split (· == ':')) h
  rw [split_recordName, split_recordName] at hpieces
  obtain ⟨hfront, hplace⟩ := ht.pieces_inj hu hpieces
  exact ⟨pathPieces_injective hfront, hplace⟩

end VirtualFile
