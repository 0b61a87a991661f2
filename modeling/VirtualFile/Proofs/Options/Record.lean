import VirtualFile.Proofs.World.Success
/-!
# Records of options

A dictionary of options that passes the check becomes a record whose fields hold what was checked,
lists and dictionaries in cells of their own (`Action.succeeds_checkOptions`). The keys that are no
fields are texts by then, so they always can be added to the attributes (`Options.exists_extras`).

* `Options.Holds`: a record that holds checked fields.
* `Options.extra_keys`: what the check says of the keys that are no fields.
* `Store.exists_insertAll`: adding items under texts never fails.
-/

namespace VirtualFile

/-- A value is the dictionary with the given entries, or null if there is none. -/
def Store.HoldsDict (s : Store) (v : Value) : Option Entries → Prop
  | none => v = .null
  | some es => s.dict? v = some es

theorem Store.Extends.holdsDict {s s' : Store} (h : s.Extends s') {v : Value} {es : Option Entries}
    (hv : s.HoldsDict v es) : s'.HoldsDict v es := by
  cases es with
  | none => exact hv
  | some es => exact h.dict? hv

theorem Store.ne_null {s : Store} {v : Value} {c : Cell} (h : s.cell? v = some c) : v ≠ .null := by
  rintro rfl
  exact absurd h (by simp [cell?])

theorem Store.HoldsDict.ne {s : Store} {u v : Value} {data : Option Entries}
    (hu : s.HoldsDict u data) (hnull : v ≠ .null) (hv : s.dict? v = none) : v ≠ u := by
  rintro rfl
  cases data with
  | none => exact hnull hu
  | some es => exact absurd (hv.symm.trans hu) (by simp)

theorem Store.HoldsDict.ne_file {s : Store} {u v : Value} {data : Option Entries} {f : File}
    (hu : s.HoldsDict u data) (hv : s.cell? v = some (.file f)) : v ≠ u :=
  hu.ne (Store.ne_null hv) (by rw [dict?, hv])

theorem Store.HoldsDict.ne_new {s s' : Store} {u v : Value} {data : Option Entries} {c : Cell}
    (hu : s.HoldsDict u data) (hnew : s.cell? v = none) (hv : s'.cell? v = some c) : v ≠ u :=
  hu.ne (Store.ne_null hv) (by rw [dict?, hnew])

/-- The keys of entries are texts. -/
def TextKeys (es : Entries) : Prop := ∀ e ∈ es, ∃ t, e.1 = .text t

/-- **A record holds checked fields**, its lists and dictionaries as cells. -/
structure Options.Holds (s : Store) (o : Options) (c : Checked) : Prop where
  fields : o = {
    value := c.value, cwd := c.cwd, history := o.history, path := c.path, basename := c.basename,
    stem := c.stem, extname := c.extname, dirname := c.dirname, data := o.data,
    messages := o.messages, stored := .bool c.stored, result := c.result, map := c.map,
    attributes := o.attributes, extra := o.extra }
  history : s.HoldsList o.history c.history
  data : s.HoldsDict o.data c.data
  messages : s.HoldsList o.messages c.messages
  attributes : s.dict? o.attributes = some c.attributes
  extra : s.dict? o.extra = some c.extra
  keys : TextKeys c.extra

theorem Options.Holds.extend {s s' : Store} {o : Options} {c : Checked} (h : o.Holds s c)
    (hle : s.Extends s') : o.Holds s' c :=
  ⟨h.fields, hle.holdsList h.history, hle.holdsDict h.data, hle.holdsList h.messages,
    hle.dict? h.attributes, hle.dict? h.extra, h.keys⟩

/-! ### Making the record -/

namespace Action
variable {w : World}

theorem succeeds_allocList? (vs : Option (List Value)) (w : World) :
    (allocList? vs).Succeeds w fun v w' => w'.store.HoldsList v vs := by
  cases vs with
  | none => exact (succeeds_pure Value.null w).mono fun v w' h => h.1
  | some vs => exact succeeds_alloc _ w

theorem succeeds_allocDict {es : Entries} (w : World) :
    (alloc (.dict es)).Succeeds w fun v w' => w'.store.dict? v = some es :=
  (succeeds_alloc _ w).mono fun _ _ h => Store.dict?_eq_some.mpr h

theorem succeeds_allocDict? (es : Option Entries) (w : World) :
    (allocDict? es).Succeeds w fun v w' => w'.store.HoldsDict v es ∧ w.store.cell? v = none := by
  cases es with
  | none => exact (succeeds_pure Value.null w).mono fun v w' h => ⟨h.1, by rw [h.1]; rfl⟩
  | some es => exact (succeeds_alloc_new _ w).mono fun v w' h => ⟨Store.dict?_eq_some.mpr h.2, h.1⟩

/-- **The new record holds the checked fields.** Its data are in no cell that was there before, nor
in one of its other dictionaries. -/
theorem succeeds_newOptions {c : Checked} (hkeys : TextKeys c.extra) (w : World) :
    (newOptions c).Succeeds w fun v w' => ∃ o, w'.store.options? v = some o ∧
      Options.Holds w'.store o c ∧ w.store.cell? o.data = none ∧ o.data ≠ o.attributes ∧
      o.data ≠ o.extra := by
  rw [newOptions]
  refine (succeeds_allocList? c.history w).bind fun history w₁ h₁ hhistory => ?_
  refine (succeeds_allocDict? c.data w₁).bind fun data w₂ h₂ ⟨hdata, hnew⟩ => ?_
  refine (succeeds_allocList? c.messages w₂).bind fun messages w₃ h₃ hmessages => ?_
  refine (succeeds_alloc_new _ w₃).bind fun attributes w₄ h₄ ⟨hnew₄, hattributes⟩ => ?_
  refine (succeeds_alloc_new _ w₄).bind fun extra w₅ h₅ ⟨hnew₅, hextra⟩ => ?_
  obtain ⟨v, w₆, hv, h₆, hc⟩ := succeeds_alloc (.options {
    value := c.value, cwd := c.cwd, history, path := c.path, basename := c.basename, stem := c.stem,
    extname := c.extname, dirname := c.dirname, data, messages, stored := .bool c.stored,
    result := c.result, map := c.map, attributes, extra }) w₅
  refine ⟨v, w₆, hv, h₆, _, Store.options?_eq_some.mpr hc, ⟨rfl, ?_, ?_, ?_, ?_, ?_, hkeys⟩,
    h₁.cell?_eq_none hnew, ((h₃.holdsDict hdata).ne_new hnew₄ hattributes).symm,
    (((h₃.trans h₄).holdsDict hdata).ne_new hnew₅ hextra).symm⟩
  · exact (h₂.trans (h₃.trans (h₄.trans (h₅.trans h₆)))).holdsList hhistory
  · exact (h₃.trans (h₄.trans (h₅.trans h₆))).holdsDict hdata
  · exact (h₄.trans (h₅.trans h₆)).holdsList hmessages
  · exact (h₅.trans h₆).dict? (Store.dict?_eq_some.mpr hattributes)
  · exact h₆.dict? (Store.dict?_eq_some.mpr hextra)

end Action

/-! ### Keys -/

namespace Options

theorem extraEntries_keys {es : Entries} (h : (extraEntries es).2 = []) :
    TextKeys (extraEntries es).1 := by
  induction es with
  | nil => simp [extraEntries, TextKeys]
  | cons e es ih =>
    obtain ⟨k, v⟩ := e
    cases k with
    | text t =>
      by_cases ht : t.isOneOf reserved = true
      · simp only [extraEntries, ht, if_true] at h ⊢
        exact ih h
      · simp only [extraEntries, ht] at h ⊢
        exact List.forall_mem_cons.mpr ⟨⟨t, rfl⟩, ih h⟩
    | _ => simp [extraEntries] at h

theorem extra_keys {s : Store} {es : Entries} {c : Checked} (h : check s es = .ok c) :
    TextKeys c.extra := by
  rw [check] at h
  dsimp only at h
  split at h
  · next hfaults =>
    obtain rfl := Except.ok.inj h
    exact extraEntries_keys (List.append_eq_nil_iff.mp hfaults).2
  · exact absurd h (by simp)

end Options

namespace Action
variable {w : World} {es : Entries} {c : Checked}

/-- **Entries that pass the check become a record** that holds the checked fields. -/
theorem succeeds_checkOptions (hc : Options.check w.store es = .ok c) :
    (checkOptions es).Succeeds w fun v w' => ∃ o, w'.store.options? v = some o ∧
      Options.Holds w'.store o c ∧ w.store.cell? o.data = none ∧ o.data ≠ o.attributes ∧
      o.data ≠ o.extra := by
  rw [checkOptions]
  refine returns_store_bind ?_
  rw [hc]
  exact succeeds_newOptions (Options.extra_keys hc) w

theorem succeeds_optionsOfEntries {v : Value} (hes : w.store.entries v = .ok es)
    (hc : Options.check w.store es = .ok c) : (optionsOfEntries v).Succeeds w fun v' w' =>
      ∃ o, w'.store.options? v' = some o ∧ Options.Holds w'.store o c := by
  rw [optionsOfEntries]
  refine returns_ofStore_bind hes ?_
  refine Succeeds.mono (succeeds_asOptionFault (succeeds_checkOptions hc)) fun v' w' h => ?_
  obtain ⟨o, ho, hholds, -⟩ := h
  exact ⟨o, ho, hholds⟩

end Action

/-! ### Adding items under texts -/

namespace Store
variable (s : Store)

theorem isKey_text (t : Text) : s.isKey (.text t) = true := by
  simp [isKey, isKeyTo, cell?]

theorem sameMember_text (k : Value) (t : Text) : ∃ b, sameMember s.equal k (.text t) = .ok b := by
  rw [sameMember]
  split_ifs
  · exact ⟨true, rfl⟩
  · exact equal_text s k t

theorem exists_put (t : Text) (v : Value) (es : Entries) : ∃ fs, s.put (.text t) v es = .ok fs := by
  induction es with
  | nil => exact ⟨_, rfl⟩
  | cons e es ih =>
    obtain ⟨k, u⟩ := e
    obtain ⟨b, hb⟩ := sameMember_text s k t
    obtain ⟨fs, hfs⟩ := ih
    rw [put, hb, hfs]
    cases b with
    | true => exact ⟨_, rfl⟩
    | false => exact ⟨_, rfl⟩

/-- **Adding items under texts never fails.** -/
theorem exists_insertAll {more : Entries} (h : TextKeys more) (es : Entries) :
    ∃ fs, s.insertAll es more = .ok fs := by
  induction more generalizing es with
  | nil => exact ⟨es, rfl⟩
  | cons e more ih =>
    obtain ⟨⟨t, ht⟩, hmore⟩ := List.forall_mem_cons.mp h
    obtain ⟨k, v⟩ := e
    obtain rfl : k = .text t := ht
    obtain ⟨fs, hfs⟩ := exists_put s t v es
    rw [insertAll, insert, if_pos (isKey_text s t), hfs]
    exact ih hmore fs

end Store

theorem Options.exists_extras {s : Store} {o : Options} {c : Checked} (h : o.Holds s c) :
    ∃ es, Options.extras s o = .ok es := by
  rw [extras, h.attributes, h.extra]
  exact Store.exists_insertAll s h.keys c.attributes

end VirtualFile
