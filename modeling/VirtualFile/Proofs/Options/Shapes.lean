import Mathlib.Data.List.Nodup
import VirtualFile.Proofs.Options.PathOptions
/-!
# Shapes of checked options

What passes the check has the documented shapes (`Options.check_sound`): texts or null, lists of
texts, dictionaries whose keys are texts. In such a dictionary keys are compared as texts, so
putting an item keeps the keys apart, and checking it again changes nothing.

* `TextDict`: entries under texts, each key once.
* `Options.putAll`: items put under texts one after the other, which
  both reading keys and adding items come to.
* `Checked.Sound`: the shapes of all fields.
-/

namespace VirtualFile

/-- **Entries under texts**, each key once. -/
def TextDict (es : Entries) : Prop := ∃ ts : List Text, es.map (·.1) = ts.map .text ∧ ts.Nodup

theorem textDict_nil : TextDict [] := ⟨[], rfl, List.nodup_nil⟩

theorem TextDict.keys {es : Entries} (h : TextDict es) : TextKeys es := by
  obtain ⟨ts, hts, -⟩ := h
  intro e he
  have hmem : e.1 ∈ ts.map Value.text := hts ▸ List.mem_map_of_mem he
  obtain ⟨t, -, ht⟩ := List.mem_map.mp hmem
  exact ⟨t, ht.symm⟩

theorem TextDict.nodup {es : Entries} (h : TextDict es) : (es.map (·.1)).Nodup := by
  obtain ⟨ts, hts, hnodup⟩ := h
  rw [hts]
  exact hnodup.map fun _ _ => Value.text.inj

/-! ### Putting items under texts -/

namespace Options
variable {t : Text} {v : Value} {es : Entries}

theorem keys_putText (t : Text) (v : Value) (es : Entries) : (putText t v es).map (·.1) =
    if .text t ∈ es.map (·.1) then es.map (·.1) else es.map (·.1) ++ [.text t] := by
  induction es with
  | nil => simp [putText]
  | cons e es ih =>
    obtain ⟨k, u⟩ := e
    rw [putText]
    split_ifs with hk hmem hmem
    · rfl
    · exact absurd (by simp [hk]) hmem
    · have hrest : .text t ∈ es.map (·.1) := by simpa [Ne.symm hk] using hmem
      simp only [List.map_cons, ih, if_pos hrest]
    · have hrest : .text t ∉ es.map (·.1) := fun h => hmem (List.mem_cons_of_mem _ h)
      simp only [List.map_cons, ih, if_neg hrest, List.cons_append]

theorem putText_of_not_mem (h : .text t ∉ es.map (·.1)) :
    putText t v es = es ++ [(.text t, v)] := by
  induction es with
  | nil => rfl
  | cons e es ih =>
    obtain ⟨k, u⟩ := e
    rw [List.map_cons, List.mem_cons, not_or] at h
    rw [putText, if_neg (Ne.symm h.1), ih h.2, List.cons_append]

end Options

theorem TextDict.putText {es : Entries} (h : TextDict es) (t : Text) (v : Value) :
    TextDict (Options.putText t v es) := by
  obtain ⟨ts, hts, hnodup⟩ := h
  have hmem : Value.text t ∈ es.map (·.1) ↔ t ∈ ts := by simp [hts]
  rw [TextDict, Options.keys_putText]
  by_cases ht : t ∈ ts
  · exact ⟨ts, by rw [if_pos (hmem.mpr ht), hts], hnodup⟩
  · refine ⟨ts ++ [t], by rw [if_neg (mt hmem.mp ht), hts, List.map_append, List.map_singleton], ?_⟩
    rw [← List.concat_eq_append]
    exact hnodup.concat ht

namespace Store
variable (s : Store)

theorem sameMember_texts (u t : Text) : sameMember s.equal (.text u) (.text t) = .ok (u == t) := by
  simp [sameMember, Value.isUndefined, equal, equalTo]

theorem put_eq_putText (t : Text) (v : Value) {es : Entries} (h : TextKeys es) :
    s.put (.text t) v es = .ok (Options.putText t v es) := by
  induction es with
  | nil => rfl
  | cons e es ih =>
    obtain ⟨k, w⟩ := e
    obtain ⟨⟨u, hu⟩, hes⟩ := List.forall_mem_cons.mp h
    obtain rfl : k = .text u := hu
    rw [put, sameMember_texts, Options.putText, ih hes]
    by_cases hut : u = t <;> simp [hut, bind, Except.bind, pure, Except.pure]

theorem insert_eq_putText (t : Text) (v : Value) {es : Entries} (h : TextKeys es) :
    s.insert (.text t) v es = .ok (Options.putText t v es) := by
  rw [insert, if_pos (isKey_text s t), put_eq_putText s t v h]

end Store

/-! ### Adding items and reading keys -/

namespace Options

/-- Items put under texts one after the other. -/
def putAll (es : Entries) (items : List (Text × Value)) : Entries :=
  items.foldl (fun es item => putText item.1 item.2 es) es

/-- Entries with their keys read as texts, without those that have no text. -/
def textItems (s : Store) (es : Entries) : List (Text × Value) :=
  es.filterMap fun e => (asText s e.1).toOption.map fun t => (t, e.2)

theorem textDict_putAll {es : Entries} (h : TextDict es) (items : List (Text × Value)) :
    TextDict (putAll es items) := by
  induction items generalizing es with
  | nil => exact h
  | cons item items ih => exact ih (h.putText item.1 item.2)

/-- **Adding items under texts** puts them one after the other, whatever the stores are. -/
theorem insertAll_eq_putAll (s s' : Store) {es more : Entries} (h : TextDict es)
    (hmore : TextKeys more) : s'.insertAll es more = .ok (putAll es (textItems s more)) := by
  induction more generalizing es with
  | nil => rfl
  | cons e more ih =>
    obtain ⟨⟨t, ht⟩, hrest⟩ := List.forall_mem_cons.mp hmore
    obtain ⟨key, v⟩ := e
    obtain rfl : key = .text t := ht
    rw [Store.insertAll, Store.insert_eq_putText s' t v h.keys]
    exact ih (h.putText t v) hrest

section Reading
variable (s : Store) (name : String)

/-- **Reading keys** puts the items that have a text one after the other. -/
theorem textKeys_eq_putAll (done es : Entries) :
    (textKeys s name done es).1 = putAll done (textItems s es) := by
  induction es generalizing done with
  | nil => rfl
  | cons e es ih =>
    obtain ⟨key, v⟩ := e
    rw [textKeys, textItems, List.filterMap_cons]
    cases hkey : asText s key with
    | ok t => exact ih (putText t v done)
    | error p => exact ih done

/-- **Keys that are texts stay as they are.** -/
theorem textKeys_textDict {es done : Entries} (h : TextDict (done ++ es)) :
    textKeys s name done es = (done ++ es, []) := by
  induction es generalizing done with
  | nil => simp [textKeys]
  | cons e es ih =>
    obtain ⟨k, v⟩ := e
    obtain ⟨t, ht⟩ := h.keys (k, v) (by simp)
    obtain rfl : k = .text t := ht
    -- the key has not occurred before, so the item comes last
    have hnew : .text t ∉ done.map (·.1) := by
      have hkeys := h.nodup
      rw [List.map_append, List.map_cons] at hkeys
      exact fun hmem => (List.nodup_append.mp hkeys).2.2 _ hmem _ (by simp) rfl
    have happend : putText t v done ++ es = done ++ (.text t, v) :: es := by
      rw [putText_of_not_mem hnew, List.append_assoc, List.singleton_append]
    rw [textKeys]
    change textKeys s name (putText t v done) es = _
    rw [ih (happend ▸ h), happend]

end Reading

end Options

/-! ### Fields that have their shapes already -/

namespace Options
variable {s : Store} {es : Entries} {v : Value}

theorem dictOf_textDict (name : String) {d : Entries} (hv : s.dict? v = some d) (hd : TextDict d) :
    dictOf s name v = (some d, []) := by
  rw [dictOf, hv]
  simp only [textKeys_textDict s name (show TextDict ([] ++ d) from hd), List.nil_append]

theorem dataField_textDict {d : Entries} (h : Store.entryNamed? "data" es = some v)
    (hv : s.dict? v = some d) (hd : TextDict d) : dataField s es = (some d, []) := by
  obtain ⟨r, rfl⟩ := Store.exists_ref (Store.dict?_eq_some.mp hv)
  rw [dataField, h]
  exact dictOf_textDict "data" hv hd

theorem attributesField_textDict {d : Entries} (h : Store.entryNamed? "attributes" es = some v)
    (hv : s.dict? v = some d) (hd : TextDict d) : attributesField s es = (d, []) := by
  rw [attributesField, h]
  simp only [dictOf_textDict "attributes" hv hd, Option.getD_some]

theorem messagesField_list {vs : List Value} (h : Store.entryNamed? "messages" es = some v)
    (hv : s.cell? v = some (.list vs)) : messagesField s es = (some vs, []) := by
  obtain ⟨r, rfl⟩ := Store.exists_ref hv
  rw [messagesField, h]
  simp [asList, hv]

theorem storedField_bool {b : Bool} (h : Store.entryNamed? "stored" es = some (.bool b)) :
    storedField es = (b, []) := by
  rw [storedField, h]
  rfl

end Options

/-! ### The shapes -/

/-- **Checked fields have their shapes.** -/
structure Checked.Sound (c : Checked) : Prop where
  cwd : ∃ t, c.cwd = .ofText? t
  history : ∀ vs, c.history = some vs → ∃ ts : List Text, vs = ts.map .text
  basename : ∃ t, c.basename = .ofText? t
  stem : ∃ t, c.stem = .ofText? t
  extname : ∃ t, c.extname = .ofText? t
  dirname : ∃ t, c.dirname = .ofText? t
  data : ∀ es, c.data = some es → TextDict es
  attributes : TextDict c.attributes
  extra : TextKeys c.extra

namespace Options
variable {s : Store} {es : Entries}

theorem optionalText_shape (s : Store) (name : String) (es : Entries) :
    ∃ t, (optionalText s name es).1 = .ofText? t := by
  rw [optionalText.eq_def]
  split
  · exact ⟨none, rfl⟩
  · cases asText s _ with
    | ok t => exact ⟨some t, rfl⟩
    | error p => exact ⟨none, rfl⟩

theorem textsFrom_shape (s : Store) (name : String) (i : Nat) (vs : List Value) :
    ∃ ts : List Text, (textsFrom s name i vs).1 = ts.map .text := by
  induction vs generalizing i with
  | nil => exact ⟨[], rfl⟩
  | cons v vs ih =>
    obtain ⟨ts, hts⟩ := ih (i + 1)
    rw [textsFrom]
    cases asText s v with
    | ok t => exact ⟨t :: ts, by simp [hts]⟩
    | error p => exact ⟨ts, hts⟩

theorem historyField_shape {vs : List Value} (h : (historyField s es).1 = some vs) :
    ∃ ts : List Text, vs = ts.map .text := by
  rw [historyField.eq_def] at h
  split at h
  · exact absurd h (by simp)
  · cases hlist : asList s ((Store.entryNamed? "history" es).getD .null) with
    | ok ws =>
      rw [hlist] at h
      obtain ⟨ts, hts⟩ := textsFrom_shape s "history" 0 ws
      exact ⟨ts, (Option.some.inj h).symm.trans hts⟩
    | error p =>
      rw [hlist] at h
      exact absurd h (by simp)

theorem dictOf_shape {name : String} {v : Value} {all : Entries}
    (h : (dictOf s name v).1 = some all) : TextDict all := by
  rw [dictOf] at h
  cases hdict : s.dict? v with
  | none =>
    rw [hdict] at h
    exact absurd h (by simp)
  | some fs =>
    rw [hdict] at h
    obtain rfl := Option.some.inj h
    rw [textKeys_eq_putAll]
    exact textDict_putAll textDict_nil _

theorem dataField_shape {all : Entries} (h : (dataField s es).1 = some all) : TextDict all := by
  rw [dataField.eq_def] at h
  split at h
  · exact absurd h (by simp)
  · exact dictOf_shape h

theorem attributesField_shape (s : Store) (es : Entries) : TextDict (attributesField s es).1 := by
  rw [attributesField]
  cases Store.entryNamed? "attributes" es with
  | none => exact textDict_nil
  | some v =>
    change TextDict ((dictOf s "attributes" v).1.getD [])
    cases h : (dictOf s "attributes" v).1 with
    | none => exact textDict_nil
    | some all => exact dictOf_shape h

/-- **What passes the check has the documented shapes.** -/
theorem check_sound {c : Checked} (h : check s es = .ok c) : c.Sound := by
  have hextra := extra_keys h
  rw [check] at h
  dsimp only at h
  split at h
  · obtain rfl := Except.ok.inj h
    exact ⟨optionalText_shape s _ es, fun _ => historyField_shape, optionalText_shape s _ es,
      optionalText_shape s _ es, optionalText_shape s _ es, optionalText_shape s _ es,
      fun _ => dataField_shape, attributesField_shape s es, hextra⟩
  · exact absurd h (by simp)

/-- **The attributes for a file** are those that the options name,
with the unknown keys put into them. -/
theorem extras_eq_putAll (s : Store) {s' : Store} {o : Options} {c : Checked}
    (hholds : o.Holds s' c) (hc : c.Sound) :
    extras s' o = .ok (putAll c.attributes (textItems s c.extra)) := by
  rw [extras, hholds.attributes, hholds.extra]
  exact insertAll_eq_putAll s s' hc.attributes hc.extra

end Options

end VirtualFile
