import VirtualFile.Proofs.Options.Shapes
/-!
# Dictionaries that pass the check

A dictionary of options passes the check if and only if no field has a fault
(`Options.check_ok_iff`). For each field this is a condition on what stands in it: a text, or bytes
that encode one, or nothing; texts in a list; texts as keys; or what can be read as a truth value.

* `Store.IsText`: what counts as a text.
* `Options.faults`: the faults of all fields.
-/

namespace VirtualFile

/-- What counts as a text: a text, or bytes that encode one. -/
def Store.IsText (s : Store) (v : Value) : Prop := ∃ t, Options.asText s v = .ok t

namespace Options
variable {s : Store} {es : Entries} {v : Value} {name : String}

/-! ### Faults of a field -/

theorem asText_error (h : ¬ s.IsText v) : ∃ p, asText s v = .error p := by
  cases hv : asText s v with
  | ok t => exact absurd ⟨t, hv⟩ h
  | error p => exact ⟨p, rfl⟩

theorem optionalText_faults : (optionalText s name es).2 = [] ↔
    (Store.entryNamed? name es).getD .null = .null ∨
    s.IsText ((Store.entryNamed? name es).getD .null) := by
  rw [optionalText.eq_def]
  generalize (Store.entryNamed? name es).getD .null = v
  split
  · simp
  · next hne =>
    have hnull : v ≠ .null := hne
    by_cases h : s.IsText v
    · obtain ⟨t, ht⟩ := id h
      simp [ht, h]
    · obtain ⟨p, hp⟩ := asText_error h
      simp [hp, h, hnull]

theorem textsFrom_faults (i : Nat) (vs : List Value) :
    (textsFrom s name i vs).2 = [] ↔ ∀ v ∈ vs, s.IsText v := by
  induction vs generalizing i with
  | nil => simp [textsFrom]
  | cons v vs ih =>
    rw [textsFrom, List.forall_mem_cons, ← ih (i + 1)]
    by_cases h : s.IsText v
    · obtain ⟨t, ht⟩ := id h
      simp [ht, h]
    · obtain ⟨p, hp⟩ := asText_error h
      simp [hp, h]

theorem historyField_faults {vs : List Value} (h : Store.entryNamed? "history" es = some v)
    (hv : s.cell? v = some (.list vs)) : (historyField s es).2 = [] ↔ ∀ v ∈ vs, s.IsText v := by
  obtain ⟨r, rfl⟩ := Store.exists_ref hv
  rw [historyField, h]
  simp [asList, hv, textsFrom_faults]

theorem textKeys_faults (done es : Entries) : (textKeys s name done es).2 = [] ↔ ∀ e ∈ es,
    s.IsText e.1 := by
  induction es generalizing done with
  | nil => simp [textKeys]
  | cons e es ih =>
    obtain ⟨k, v⟩ := e
    rw [textKeys, List.forall_mem_cons]
    by_cases h : s.IsText k
    · obtain ⟨t, ht⟩ := id h
      simp [ht, h, ih]
    · obtain ⟨p, hp⟩ := asText_error h
      simp [hp, h]

theorem dictOf_faults {d : Entries} (hv : s.dict? v = some d) :
    (dictOf s name v).2 = [] ↔ ∀ e ∈ d, s.IsText e.1 := by
  rw [dictOf, hv]
  exact textKeys_faults [] d

theorem dataField_faults {d : Entries} (h : Store.entryNamed? "data" es = some v)
    (hv : s.dict? v = some d) : (dataField s es).2 = [] ↔ ∀ e ∈ d, s.IsText e.1 := by
  obtain ⟨r, rfl⟩ := Store.exists_ref (Store.dict?_eq_some.mp hv)
  rw [dataField, h]
  exact dictOf_faults hv

theorem attributesField_faults {d : Entries} (h : Store.entryNamed? "attributes" es = some v)
    (hv : s.dict? v = some d) : (attributesField s es).2 = [] ↔ ∀ e ∈ d, s.IsText e.1 := by
  rw [attributesField, h]
  exact dictOf_faults hv

theorem storedField_faults (h : Store.entryNamed? "stored" es = some v) :
    (storedField es).2 = [] ↔ ∃ b, asBool v = .ok b := by
  rw [storedField, h]
  dsimp only
  cases asBool v with
  | ok b => simp
  | error p => simp

/-! ### The check -/

/-- The faults of all fields in order. -/
def faults (s : Store) (es : Entries) : List OptionFault :=
  (optionalText s "cwd" es).2 ++ (historyField s es).2 ++ (optionalText s "basename" es).2 ++
    (optionalText s "stem" es).2 ++ (optionalText s "extname" es).2 ++
    (optionalText s "dirname" es).2 ++
    (dataField s es).2 ++ (messagesField s es).2 ++ (storedField es).2 ++
    (attributesField s es).2 ++
    (extraEntries es).2

theorem check_error (h : faults s es ≠ []) : check s es = .error (faults s es) := by
  rw [check]
  dsimp only
  split
  · next hnone => exact absurd hnone h
  · rfl

/-- **Options pass the check** if and only if none of their fields has a fault. -/
theorem check_ok_iff : (∃ c, check s es = .ok c) ↔ faults s es = [] := by
  refine ⟨fun ⟨c, hc⟩ => by_contra fun h => ?_, fun h => ?_⟩
  · exact absurd ((check_error h).symm.trans hc) (by simp)
  · rw [check]
    dsimp only
    split
    · exact ⟨_, rfl⟩
    · next hsome => exact absurd h hsome

theorem check_noPath {c : Checked} (h : check s es = .ok c)
    (hnone : ∀ name ∈ ["path", "basename", "stem", "extname", "dirname"],
      Store.entryNamed? name es = none) :
    c.path = .null ∧ c.basename = .null ∧ c.stem = .null ∧ c.extname = .null ∧
    c.dirname = .null := by
  simp only [List.forall_mem_cons] at hnone
  obtain ⟨hpath, hbasename, hstem, hextname, hdirname, -⟩ := hnone
  rw [check] at h
  dsimp only at h
  split at h
  · obtain rfl := Except.ok.inj h
    simp [optionalText, hpath, hbasename, hstem, hextname, hdirname]
  · exact absurd h (by simp)

end Options

end VirtualFile
