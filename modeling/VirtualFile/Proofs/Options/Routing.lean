import VirtualFile.Proofs.Options.Shapes
/-!
# Where the keys of options go

The attributes of a file are those that the options name, and then the keys that are no fields. Both
are put under texts one after the other, so that of equal keys the last one counts
(`Options.mem_putAll`), and which value stands under a key can be told from the dictionary of the
options (`Options.mem_extras`).

* `Options.given?`: the value that entries give for a text.
* `Options.explicit`: the attributes that a dictionary of options names.
-/

namespace VirtualFile

theorem TextKeys.textDict {es : Entries} (h : TextKeys es) (hnodup : (es.map (·.1)).Nodup) :
    TextDict es := by
  have hkeys : ∃ ts : List Text, es.map (·.1) = ts.map .text := by
    induction es with
    | nil => exact ⟨[], rfl⟩
    | cons e es ih =>
      obtain ⟨⟨t, ht⟩, hrest⟩ := List.forall_mem_cons.mp h
      obtain ⟨ts, hts⟩ := ih hrest (List.nodup_cons.mp hnodup).2
      exact ⟨t :: ts, by rw [List.map_cons, List.map_cons, ht, hts]⟩
  obtain ⟨ts, hts⟩ := hkeys
  exact ⟨ts, hts, (hts ▸ hnodup).of_map⟩

namespace Options

/-- **The value that entries give for a text.** Of keys that count as
the same text, the last one counts. -/
def given? (s : Store) (es : Entries) (key : Text) : Option Value :=
  (textItems s es).reverse.lookup key

/-! ### Putting items -/

section Put
variable {t k : Text} {v u : Value} {es : Entries}

/-- An item is under its key, all others stay under theirs. -/
theorem mem_putText (h : (es.map (·.1)).Nodup) :
    (.text k, u) ∈ putText t v es ↔ if k = t then u = v else (.text k, u) ∈ es := by
  induction es with
  | nil => by_cases hk : k = t <;> simp [putText, hk]
  | cons e es ih =>
    obtain ⟨key, x⟩ := e
    rw [List.map_cons, List.nodup_cons] at h
    rw [putText]
    by_cases hkey : key = .text t
    · -- the key occurs nowhere else
      obtain rfl := hkey
      have hnew : (.text t, u) ∉ es := fun hmem => h.1 (List.mem_map.mpr ⟨_, hmem, rfl⟩)
      rw [if_pos rfl, List.mem_cons]
      split_ifs with hk
      · obtain rfl := hk
        simp [hnew]
      · simp [hk]
    · rw [if_neg hkey, List.mem_cons, ih h.2]
      split_ifs with hk
      · obtain rfl := hk
        simp [Ne.symm hkey]
      · rw [List.mem_cons]

/-- **Of the items that are put under a key the last one is there**,
and what was there before if there are none. -/
theorem mem_putAll (h : TextDict es) (items : List (Text × Value)) :
    (.text k, u) ∈ putAll es items ↔
    items.reverse.lookup k = some u ∨ items.reverse.lookup k = none ∧ (.text k, u) ∈ es := by
  induction items generalizing es with
  | nil => simp [putAll]
  | cons item items ih =>
    obtain ⟨t, v⟩ := item
    change (.text k, u) ∈ putAll (putText t v es) items ↔ _
    rw [ih (h.putText t v), mem_putText h.nodup, List.reverse_cons, List.lookup_append]
    cases items.reverse.lookup k with
    | some x => simp
    | none =>
      by_cases hk : k = t
      · simp [hk, eq_comm]
      · have hne : (k == t) = false := beq_false_of_ne hk
        simp [hk, hne, List.lookup_cons]

theorem given?_textDict {s : Store} (h : TextDict es) : given? s es k = some u ↔
    (.text k, u) ∈ es := by
  have hsame := textKeys_eq_putAll s "" [] es
  rw [textKeys_textDict s "" (show TextDict ([] ++ es) from h), List.nil_append] at hsame
  have hmem := mem_putAll (k := k) (u := u) textDict_nil (textItems s es)
  rw [← hsame] at hmem
  simpa [given?] using hmem.symm

end Put

/-! ### The fields of the check -/

section Check
variable {s : Store} {es : Entries} {c : Checked} {k : Text} {u : Value}

/-- The attributes that a dictionary of options names. -/
def explicit (s : Store) (es : Entries) : Entries :=
  ((Store.entryNamed? "attributes" es).bind s.dict?).getD []

theorem attributesField_eq_putAll (s : Store) (es : Entries) :
    (attributesField s es).1 = putAll [] (textItems s (explicit s es)) := by
  rw [attributesField, explicit]
  cases Store.entryNamed? "attributes" es with
  | none => rfl
  | some v =>
    change (dictOf s "attributes" v).1.getD [] = _
    rw [dictOf, Option.bind_some]
    cases s.dict? v with
    | none => rfl
    | some fs => exact textKeys_eq_putAll s "attributes" [] fs

/-- Whether a key is a text and no field. -/
def isExtra : Value → Bool
  | .text t => !t.isOneOf reserved
  | _ => false

theorem extraEntries_eq_filter (es : Entries) :
    (extraEntries es).1 = es.filter fun e => isExtra e.1 := by
  induction es with
  | nil => rfl
  | cons e es ih =>
    obtain ⟨key, v⟩ := e
    rw [extraEntries.eq_def, List.filter_cons, ← ih]
    cases key with
    | text t => cases ht : t.isOneOf reserved <;> simp [isExtra, ht]
    | _ => rfl

theorem check_attributes (h : check s es = .ok c) :
    c.attributes = (attributesField s es).1 ∧ c.extra = (extraEntries es).1 := by
  rw [check] at h
  dsimp only at h
  split at h
  · obtain rfl := Except.ok.inj h
    exact ⟨rfl, rfl⟩
  · exact absurd h (by simp)

/-- **What the attributes for a file are.** A key that is no field of the options has the value that
they give for it; any other key has the value that the attributes give that the options name. -/
theorem mem_extras {s' : Store} {o : Options} {attributes : Entries} (hkeys : (es.map (·.1)).Nodup)
    (h : check s es = .ok c) (hholds : o.Holds s' c) (hextras : extras s' o = .ok attributes) :
    (.text k, u) ∈ attributes ↔ ¬ k.isOneOf reserved ∧ (.text k, u) ∈ es ∨
      (k.isOneOf reserved ∨ .text k ∉ es.map (·.1)) ∧ given? s (explicit s es) k = some u := by
  obtain ⟨hattributes, hextra⟩ := check_attributes h
  have hsound := check_sound h
  have hdict : TextDict c.extra := hsound.extra.textDict <| hkeys.sublist <| by
    rw [hextra, extraEntries_eq_filter]
    exact List.filter_sublist.map _
  have hunknown : ∀ x, given? s c.extra k = some x ↔ ¬ k.isOneOf reserved ∧ (.text k, x) ∈ es :=
    fun x => by
      rw [given?_textDict hdict, hextra, extraEntries_eq_filter, List.mem_filter]
      simp [isExtra, and_comm]
  have hnone : given? s c.extra k = none ↔ k.isOneOf reserved ∨ .text k ∉ es.map (·.1) := by
    rw [Option.eq_none_iff_forall_ne_some]
    simp only [ne_eq, hunknown, not_and, List.mem_map, not_exists]
    constructor
    · intro hno
      by_cases hk : k.isOneOf reserved
      · exact .inl hk
      · right
        rintro ⟨_, x⟩ hmem rfl
        exact hno x hk hmem
    · rintro (hk | hno) x hreserved hmem
      · exact hreserved hk
      · exact hno (.text k, x) hmem rfl
  have hexplicit : (.text k, u) ∈ c.attributes ↔ given? s (explicit s es) k = some u := by
    rw [hattributes, attributesField_eq_putAll, mem_putAll textDict_nil]
    simp [given?]
  obtain rfl := Except.ok.inj ((extras_eq_putAll s hholds hsound).symm.trans hextras)
  rw [mem_putAll hsound.attributes, ← hunknown, ← hnone, ← hexplicit]
  rfl

end Check

end Options

end VirtualFile
