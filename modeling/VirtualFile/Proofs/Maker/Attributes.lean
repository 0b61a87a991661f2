import VirtualFile.Proofs.File.Built
import VirtualFile.Proofs.Maker.Refusals
import VirtualFile.Proofs.Options.Routing
/-!
# The attributes of a file from options

A file that is made from a dictionary of options has the unknown keys of the dictionary
and the attributes that it names as its attributes, and no others
(`Maker.attributes_routed`). Only setting a facet can keep a dictionary that passes the
check from becoming a file, and no facet changes the attributes.

* `Checked.Refused`, `Action.ends_facets`: the facets of a file, set one after the other.
* `Checked.LeadsTo`, `Maker.ends_run_attributes`: the file for a dictionary and its attributes.
* `Maker.make_reservedAttribute`: the attributes that are named may have the names of fields.
-/

namespace VirtualFile

/-- **A file of which only the naming has changed**, if anything, and no other cell. -/
def Store.OnlyRenames (s s' : Store) (v : Value) (f : File) : Prop :=
  s.Keeps s' [v] ∧ ∃ n, s'.file? v = some { f with naming := some n }

/-- **A facet of checked options is refused.** Of the facets, set one after the other on the
history, a fault is that of the first that its setter refuses. The path is read when the file has
been made, so in a store with more cells. -/
def Checked.Refused (c : Checked) (s : Store) (st : Path.Style) (e : Fault) : Prop :=
  ∃ s', s.Extends s' ∧ Naming.FirstRefusal s' ⟨st, c.history.getD []⟩ c.facets e

namespace Action
variable {s : Store} {w : World} {v : Value} {f : File} {n : Naming} {p : Option Text}

theorem ends_setFacet (hf : w.store.file? v = some f) (hn : f.naming = some n) (facet : Facet)
    (new : Value) :
    (setFacet v facet new).Ends w
      (fun _ w' => ∃ q, n.set w.store facet new = .ok (n.rename q) ∧ w.store.Keeps w'.store [v] ∧
        w'.store.file? v = some { f with naming := some (n.rename q).1 })
      fun e _ => n.set w.store facet new = .error e := by
  obtain ⟨r, rfl⟩ := Store.exists_ref (Store.cell?_eq_of_file? hf)
  have hset := outcome_setFacet hf hn facet new
  have hyields := Naming.set_yields w.store n new facet
  rw [Ends]
  cases h : n.set w.store facet new with
  | error e =>
    rw [h] at hset
    rw [hset]
  | ok m =>
    rw [h] at hset hyields
    obtain ⟨q, -, rfl⟩ := hyields
    rw [hset]
    exact ⟨q, rfl, w.store.keeps_write_self r _, Store.file?_write _ hf⟩

theorem ends_call {call : Facet × Value} {calls : List (Facet × Value)}
    (hf : w.store.file? v = some f) (hn : f.naming = some n)
    (hset : n.set w.store call.1 call.2 = n.set s call.1 call.2)
    (hrest : ∀ q w₁, w₁.store.file? v = some { f with naming := some (n.rename q).1 } →
      (calls.forM fun call => setFacet v call.1 call.2).Ends w₁
        (fun _ w' => w₁.store.OnlyRenames w'.store v f)
        fun e _ => (n.rename q).1.run s calls = .error e) :
    ((call :: calls).forM fun call => setFacet v call.1 call.2).Ends w
      (fun _ w' => w.store.OnlyRenames w'.store v f)
      fun e _ => n.run s (call :: calls) = .error e := by
  refine ((ends_setFacet hf hn call.1 call.2).mono (fun _ _ h => h) fun e _ he => ?_).bind
    fun _ w₁ hcalled => ?_
  · rw [Naming.run, ← hset, he]
    rfl
  · obtain ⟨q, hq, hkeeps, hf₁⟩ := hcalled
    refine (hrest q w₁ hf₁).mono (fun _ w₂ h => ⟨hkeeps.trans h.1, h.2⟩) fun e _ he => ?_
    rw [Naming.run, ← hset, hq]
    exact he

/-- **Writes, one after the other**, come to the same in every store. By induction on them. -/
theorem ends_writes (hf : w.store.file? v = some f) (hn : f.naming = some n)
    (hp : n.path = .ofText? p) (ws : List Naming.Write) :
    ((ws.map Naming.Write.call).forM fun call => setFacet v call.1 call.2).Ends w
      (fun _ w' => w.store.OnlyRenames w'.store v f)
      fun e _ => n.run s (ws.map Naming.Write.call) = .error e := by
  induction ws generalizing w f n p with
  | nil => exact ends_pure ⟨(Store.Extends.refl _).keeps _, n, hn ▸ hf⟩
  | cons x ws ih =>
    have hsame := (Naming.set_text w.store hp x).trans (Naming.set_text s hp x).symm
    refine ends_call hf hn hsame fun q w₁ hf₁ => ?_
    have hrest := ih (p := some q) hf₁ rfl (Naming.path_rename n q)
    exact hrest

/-- **Setting the facets of checked options.** Only the path, which
comes first, depends on the store. -/
theorem ends_facets {c : Checked} (hc : c.Sound) (hf : w.store.file? v = some f)
    (hn : f.naming = some n) (hp : n.path = .ofText? p) :
    (c.facets.forM fun call => setFacet v call.1 call.2).Ends w
      (fun _ w' => w.store.OnlyRenames w'.store v f)
      fun e _ => n.run w.store c.facets = .error e := by
  obtain ⟨ws, hws⟩ := hc.facets_eq
  rw [hws, List.filter_cons]
  split_ifs
  · refine ends_call hf hn rfl fun q w₁ hf₁ => ?_
    have hrest := ends_writes (s := w.store) (p := some q) hf₁ rfl (Naming.path_rename n q) ws
    exact hrest
  · exact ends_writes hf hn hp ws

end Action

/-- **A value is a file with these attributes.** -/
def Store.HasAttributes (s : Store) (file : Value) (attributes : Entries) : Prop :=
  ∃ f, s.file? file = some f ∧ s.dict? f.attributes = some attributes

/-- **A file with the attributes that checked options lead to**, by
way of a record that holds what was checked. -/
def Checked.LeadsTo (c : Checked) (file : Value) (w : World) : Prop :=
  ∃ s o attributes, Options.Holds s o c ∧ o.extras s = .ok attributes ∧
  w.store.HasAttributes file attributes

namespace Maker
variable {m : Maker} {w : World} {v : Value} {es : Entries} {o : Options} {c : Checked}

/-- **A file for a record** has the attributes of the record, unless a facet is refused. -/
theorem ends_ofRecord_attributes (hr : o.Holds w.store c) (hc : c.Sound) :
    (m.ofRecord o).Ends w c.LeadsTo fun e _ => c.Refused w.store m.style e := by
  obtain ⟨p, hp⟩ := hc.path_history m.style
  rw [ofRecord_eq, facets_of_holds hr]
  refine (Action.Returns.ends (succeeds_blank m hr)).bind fun file w₁ hblank => ?_
  obtain ⟨hle, f, attributes, hextras, hf, hfields, -⟩ := hblank
  have hfacets := Action.ends_facets hc (Store.file?_of_cell? hf.file) (by rw [hfields]) hp
  refine (hfacets.mono (fun _ _ h => h) fun e _ he => ?_).bind fun _ w₂ hset => ?_
  · exact ⟨w₁.store, hle, Naming.run_eq_error.mp he⟩
  · obtain ⟨hkeeps, n, hf₂⟩ := hset
    -- the file is none of its dictionaries, so they have stayed
    have hattributes := hkeeps _ _ (Store.dict?_eq_some.mp hf.attributes) (by
      rw [List.mem_singleton]
      exact (hf.ne_dict hf.attributes).1.symm)
    exact Action.ends_pure ⟨w.store, o, attributes, hr, hextras, _, hf₂,
      Store.dict?_eq_some.mpr hattributes⟩

/-- **A dictionary that passes the check** becomes a record with what
was checked, and then the file for it. -/
theorem ends_run_attributes {k : Construction} (hv : w.store.dict? v = some es)
    (hc : Options.check w.store es = .ok c) (hk : k = .any v ∨ k = .options v) :
    (k.run m).Ends w c.LeadsTo fun e _ => c.Refused w.store m.style e := by
  have hfile : ∀ {w' o}, w.store.Extends w'.store → o.Holds w'.store c →
      (m.ofRecord o).Ends w' c.LeadsTo fun e _ => c.Refused w.store m.style e := fun hle hr => by
    refine (ends_ofRecord_attributes hr (Options.check_sound hc)).mono (fun _ _ h => h)
      fun e _ he => ?_
    obtain ⟨s, hs, hrefused⟩ := he
    exact ⟨s, hle.trans hs, hrefused⟩
  obtain rfl | rfl := hk
  · rw [Construction.run, make]
    refine (Action.Returns.ends (succeeds_resolve hv hc)).bind fun v' w₁ hrecord => ?_
    obtain ⟨hle, o, ho, hr⟩ := hrecord
    rw [Action.Ends, ofOptions_record ho, ← Action.Ends]
    exact hfile hle hr
  · have hnone : w.store.options? v = none := by rw [Store.options?, Store.dict?_eq_some.mp hv]
    rw [Construction.run, ofOptions]
    refine Action.ends_bind_same (Action.outcome_store w) ?_
    simp only [hnone, Option.isSome_none, Bool.false_eq_true, if_false]
    have hrecords := Action.succeeds_optionsOfEntries (Store.entries_dict hv) hc
    refine (Action.Returns.ends hrecords).bind fun v' w₁ hrecord => ?_
    obtain ⟨hle, o, ho, hr⟩ := hrecord
    refine Action.ends_bind_same (Action.outcome_store w₁) ?_
    rw [ho]
    exact hfile hle hr

/-- **The attributes of a file from options.** A dictionary that passes the check becomes a file,
unless a setter refuses one of its facets. The attributes of the file have each key once. A key that
is no field of the options has the value that the dictionary gives for it; any other key, and so
each field, has the value that is given for it by the attributes that the dictionary names, and is
not there if they give none. -/
theorem attributes_routed {k : Construction} (hv : w.store.dict? v = some es)
    (hkeys : (es.map (·.1)).Nodup) (hc : Options.check w.store es = .ok c)
    (hk : k = .any v ∨ k = .options v) :
    (∃ e w', (k.run m).outcome w = (.error e, w') ∧ c.Refused w.store m.style e) ∨
    ∃ file w' attributes, (k.run m).outcome w = (.ok file, w') ∧
    w'.store.HasAttributes file attributes ∧
      TextDict attributes ∧
      (∀ key value, (.text key, value) ∈ attributes ↔
        ¬ key.isOneOf Options.reserved ∧ (.text key, value) ∈ es ∨
        (key.isOneOf Options.reserved ∨ .text key ∉ es.map (·.1)) ∧
          Options.given? w.store (Options.explicit w.store es) key = some value) ∧
      ∀ name ∈ Options.reserved, ∀ value, (.ofString name, value) ∈ attributes ↔
        Options.given? w.store (Options.explicit w.store es) name.toList = some value := by
  refine (ends_run_attributes hv hc hk).refused_or_returns.imp_right fun h => ?_
  obtain ⟨file, w', hout, s, o, attributes, hr, hextras, hhas⟩ := h
  have hmem := fun key value => Options.mem_extras (k := key) (u := value) hkeys hc hr hextras
  refine ⟨file, w', attributes, hout, hhas, ?_, hmem, fun name hname value => ?_⟩
  · have hsound := Options.check_sound hc
    obtain rfl := Except.ok.inj ((Options.extras_eq_putAll s hr hsound).symm.trans hextras)
    exact Options.textDict_putAll hsound.attributes _
  · have hreserved : Text.isOneOf name.toList Options.reserved = true :=
      List.any_eq_true.mpr ⟨name, hname, beq_self_eq_true _⟩
    exact (hmem name.toList value).trans (by simp [hreserved])

/-- A dictionary of options with attributes under bytes, under the
name of a field, and under a key that is unknown besides. -/
def labelled : World where
  store := { cells := #[.dict [(.bytes [107], .int 1), (.ofString "stored", .int 2),
    (.ofString "x", .int 3)], .dict [(.ofString "attributes", .ref 0), (.ofString "x", .int 4)]] }

/-- The unknown key counts, and the attributes under the other two keys are there. -/
theorem attributes_routed_labelled : ∃ file w' attributes,
    ((Construction.options (.ref 1)).run (ofSettings {})).outcome labelled = (.ok file, w') ∧
      w'.store.HasAttributes file attributes ∧ (.ofString "k", .int 1) ∈ attributes ∧
      (.ofString "stored", .int 2) ∈ attributes ∧ (.ofString "x", .int 4) ∈ attributes := by
  have hc : Options.check labelled.store [(.ofString "attributes", .ref 0),
      (.ofString "x", .int 4)] = .ok {
      attributes := [(.ofString "k", .int 1), (.ofString "stored", .int 2),
        (.ofString "x", .int 3)],
      extra := [(.ofString "x", .int 4)] } := by decide +kernel
  obtain ⟨e, w', -, s, -, hrefused⟩ | ⟨file, w', attributes, hout, hhas, -, hmem, -⟩ :=
    attributes_routed (m := ofSettings {}) (v := .ref 1) rfl (by decide) hc (.inr rfl)
  · exact absurd (Naming.run_eq_error.mpr hrefused) (by simp [Checked.facets, Naming.run])
  · exact ⟨file, w', attributes, hout, hhas, (hmem _ _).mpr (by decide +kernel),
      (hmem _ _).mpr (by decide +kernel), (hmem _ _).mpr (by decide +kernel)⟩

/-- **Attributes may have the names of fields**, and bytes become the text that they encode: the
file has an attribute under a reserved key, and none under the bytes. -/
theorem make_reservedAttribute : ∃ file w attributes,
    ((ofSettings {}).make (.ref 1)).outcome labelled = (.ok file, w) ∧
      (w.store.snapshot? file).map (·.attributes) = some attributes ∧
      (∃ name ∈ Options.reserved, .ofString name ∈ attributes.map (·.1)) ∧
      .bytes [107] ∉ attributes.map (·.1) := by
  refine ⟨.ref 9, _, [(.ofString "k", .int 1), (.ofString "stored", .int 2),
    (.ofString "x", .int 4)], Action.outcome_of_fst ?_, ?_, ⟨"stored", ?_, ?_⟩, ?_⟩
  · decide +kernel
  · decide +kernel
  · decide
  · decide
  · decide

end Maker

end VirtualFile
