import VirtualFile.Proofs.File.Cells
import VirtualFile.Proofs.File.Shown
import VirtualFile.Proofs.Options.Shapes
/-!
# Changes to a file

A file that stands in its cells goes on to do so whatever is set on it, reported on it or
put into its data and its attributes, and nothing but its cells changes that was there
before. This holds of calls that are refused as well, since some of them are refused only
after they have changed something.

* `File.Sound`, `Store.Stands`: a file whose fields have the shapes
  that the check of options gives them.
* `Store.Edited`: what a change to a file does.
* `Edit`, `edited`: the changes, and runs of them.
* `edits_run`, `edited_run`: one change, and the induction over a run of them.
-/

namespace VirtualFile

/-- **The plain fields of a file have their shapes**: texts as paths, a text as working directory,
some content, and a truth value. -/
structure File.Sound (f : File) : Prop where
  history : ∃ st, ∃ ts : List Text, f.naming = some ⟨st, ts.map .text⟩
  cwd : ∃ t, f.cwd = .text t
  value : f.value ≠ .null
  stored : ∃ b, f.stored = .bool b

namespace Store
variable {s s' s'' : Store} {v : Value} {f : File} {r : Ref}

/-- **A file stands in its cells**: its fields have their shapes, and
so do its data and its attributes. -/
structure Stands (s : Store) (v : Value) (f : File) : Prop where
  sound : f.Sound
  holds : ∃ data messages attributes,
    s.HoldsFile v f data messages attributes ∧ TextDict data ∧ TextDict attributes

/-- **What a change to a file does**: the file stands in the same
cells, and no other cell that was there changes. -/
def Edited (s s' : Store) (v : Value) (f : File) : Prop :=
  ∃ f', s'.Stands v f' ∧ f'.cells v = f.cells v ∧ s.Keeps s' (f.cells v)

theorem Stands.edited (h : s.Stands v f) : s.Edited s v f := ⟨f, h, rfl, (Extends.refl s).keeps _⟩

theorem Edited.then (h : s.Edited s' v f) (hnext : ∀ f', s'.Stands v f' → s'.Edited s'' v f') :
    s.Edited s'' v f := by
  obtain ⟨f₁, hstands, hcells, hkeeps⟩ := h
  obtain ⟨f₂, hstands₂, hcells₂, hkeeps₂⟩ := hnext f₁ hstands
  rw [hcells] at hcells₂ hkeeps₂
  exact ⟨f₂, hstands₂, hcells₂, hkeeps.trans hkeeps₂⟩

theorem Edited.of_extends (hle : s.Extends s') (h : s'.Edited s'' v f) : s.Edited s'' v f := by
  obtain ⟨f', hstands, hcells, hkeeps⟩ := h
  exact ⟨f', hstands, hcells, (hle.keeps _).trans hkeeps⟩

theorem Stands.extend (h : s.Stands v f) (hle : s.Extends s') : s'.Stands v f := by
  obtain ⟨data, messages, attributes, hf, hd, ha⟩ := h.holds
  exact ⟨h.sound, data, messages, attributes, hf.keep (hle.keeps []) (by simp), hd, ha⟩

/-! ### Changing one of the cells -/

section Write
variable (h : s.Stands v f)
include h

theorem Stands.edited_file (hr : v = .ref r) {f' : File} (hf' : f'.Sound)
    (hcells : f'.cells v = f.cells v) : s.Edited (s.write r (.file f')) v f := by
  obtain ⟨data, messages, attributes, hf, hd, ha⟩ := h.holds
  exact ⟨f', ⟨hf', data, messages, attributes, hf.write_file hr hcells, hd, ha⟩, hcells,
    keeps_write (by simp [File.cells, hr]) _⟩

theorem Stands.edited_messages (hr : f.messages = .ref r) (vs : List Value) :
    s.Edited (s.write r (.list vs)) v f := by
  obtain ⟨data, messages, attributes, hf, hd, ha⟩ := h.holds
  exact ⟨f, ⟨h.sound, data, vs, attributes, hf.write_messages hr vs, hd, ha⟩, rfl,
    keeps_write (by simp [File.cells, hr]) _⟩

theorem Stands.edited_data (hr : f.data = .ref r) {es : Entries} (hes : TextDict es) :
    s.Edited (s.write r (.dict es)) v f := by
  obtain ⟨data, messages, attributes, hf, -, ha⟩ := h.holds
  exact ⟨f, ⟨h.sound, es, messages, attributes, hf.write_data hr es, hes, ha⟩, rfl,
    keeps_write (by simp [File.cells, hr]) _⟩

theorem Stands.edited_attributes (hr : f.attributes = .ref r) {es : Entries} (hes : TextDict es) :
    s.Edited (s.write r (.dict es)) v f := by
  obtain ⟨data, messages, attributes, hf, hd, -⟩ := h.holds
  exact ⟨f, ⟨h.sound, data, messages, es, hf.write_attributes hr es, hd, hes⟩, rfl,
    keeps_write (by simp [File.cells, hr]) _⟩

end Write

end Store

/-! ### Actions that change a file -/

namespace Action
variable {α β : Type} {w : World} {v : Value} {f : File}

/-- **An action that changes a file** and nothing else, refused or not. -/
def Edits (a : Action α) (w : World) (v : Value) (f : File) : Prop :=
  a.Ends w (fun _ w' => w.store.Edited w'.store v f) fun _ w' => w.store.Edited w'.store v f

theorem Edits.bind {a : Action α} {g : α → Action β} (ha : a.Edits w v f)
    (hg : ∀ x w' f', w'.store.Stands v f' → (g x).Edits w' v f') : (a >>= g).Edits w v f := by
  refine Ends.bind ha fun x w' hw' => ?_
  refine ends_of_after (I := fun w'' => w.store.Edited w''.store v f) ?_
  exact hw'.then fun f' hf' => (hg x w' f' hf').after

/-! ### Setting a facet -/

theorem edits_setFacet (h : w.store.Stands v f) (facet : Facet) (new : Value) :
    (setFacet v facet new).Edits w v f := by
  refine ends_of_after (I := fun w' => w.store.Edited w'.store v f) ?_
  obtain ⟨data, messages, attributes, hf, -⟩ := h.holds
  obtain ⟨st, ts, hn⟩ := h.sound.history
  obtain ⟨r, rfl⟩ := Store.exists_ref hf.file
  rw [outcome_setFacet (Store.file?_of_cell? hf.file) hn]
  have hset := Naming.set_yields w.store ⟨st, ts.map .text⟩ new facet
  cases hres : Naming.set w.store ⟨st, ts.map .text⟩ facet new with
  | error e => exact h.edited
  | ok m =>
    rw [hres] at hset
    obtain ⟨p, -, rfl⟩ := hset
    refine h.edited_file rfl ⟨⟨st, Naming.visit ts p, ?_⟩, h.sound.cwd, h.sound.value,
      h.sound.stored⟩ rfl
    rw [Naming.rename_fst]

/-! ### Reporting -/

/-- The cells that a report leaves: the file stands, and the record is
a message that was not there. -/
def Reported (s : Store) (v : Value) (f : File) (record : Value) (w' : World) : Prop :=
  s.cell? record = none ∧ (w'.store.message? record).isSome ∧ s.Edited w'.store v f

theorem returns_push {r : Ref} {vs : List Value} (h : w.store.cell? (.ref r) = some (.list vs))
    (x : Value) :
    (push (.ref r) x).Returns w fun _ w' => w'.store = w.store.write r (.list (vs ++ [x])) := by
  refine ⟨(), { w with store := w.store.write r (.list (vs ++ [x])) }, ?_, rfl⟩
  rw [push, outcome_bind_ok _ (outcome_store w)]
  simp only [h]
  rfl

theorem ends_record (h : w.store.Stands v f) (m : Message) : (do
      let record ← alloc (.message m)
      push f.messages record
      note (.recorded (← shown m.name) (← shown m.reason))
      return record).Ends w (Reported w.store v f) fun _ w' => w.store.Edited w'.store v f := by
  refine (succeeds_alloc_new _ w).ends.bind fun record w₁ ⟨hle, hnew, hrecord⟩ => ?_
  have h₁ := h.extend hle
  obtain ⟨data, messages, attributes, hf, -⟩ := h₁.holds
  obtain ⟨r, hr⟩ := Store.exists_ref hf.messages
  obtain ⟨q, rfl⟩ := Store.exists_ref hrecord
  have hmessages := hf.messages
  rw [hr] at hmessages ⊢
  refine (returns_push hmessages _).ends.bind fun _ w₂ hw₂ => ?_
  have hreported : Reported w.store v f (.ref q) w₂ := by
    refine ⟨hnew, ?_, hw₂ ▸ (h₁.edited_messages hr _).of_extends hle⟩
    -- the record is not the list of messages
    have hne : r ≠ q := by
      rintro rfl
      exact absurd hrecord (by simp [hmessages])
    rw [hw₂, Store.message?, Store.cell?_write_of_ne _ _ hne, hrecord]
    rfl
  have hsame : ∀ w' : World, w'.store = w₂.store → Reported w.store v f (.ref q) w' :=
    fun w' hw' => by
      rw [Reported, hw']
      exact hreported
  have hedited : ∀ w' : World, w'.store = w₂.store → w.store.Edited w'.store v f := fun w' hw' =>
    (hsame w' hw').2.2
  refine (fixes_shown _).ends_bind rfl hedited fun name w₃ hw₃ => ?_
  refine (fixes_shown _).ends_bind hw₃ hedited fun reason w₄ hw₄ => ?_
  exact (fixes_note _).ends_bind hw₄ hedited fun _ w₅ hw₅ => ends_pure (hsame w₅ hw₅)

/-- **A warning** adds its record to the messages and does no more. -/
theorem ends_warn (h : w.store.Stands v f) (reason place origin : Value) :
    (warn v reason place origin).Ends w (Reported w.store v f)
    fun _ w' => w.store.Edited w'.store v f := by
  obtain ⟨data, messages, attributes, hf, -⟩ := h.holds
  obtain ⟨st, ts, hn⟩ := h.sound.history
  obtain ⟨r, rfl⟩ := Store.exists_ref hf.file
  have hsame : ∀ w' : World, w'.store = w.store → w.store.Edited w'.store (.ref r) f := fun _ hw' =>
    hw' ▸ h.edited
  rw [warn]
  refine ends_bind_same (outcome_file (Store.file?_of_cell? hf.file)) ?_
  dsimp only
  refine (consults_checkOperation f "message").reads.fixes.ends_bind rfl hsame fun _ w₁ hw₁ => ?_
  refine (consults_newMessage reason place origin).reads.fixes.ends_bind hw₁ hsame
    fun m w₂ hw₂ => ?_
  rw [hn]
  have hrecord : ∀ m {w' : World}, w'.store = w.store → (do
      let record ← alloc (.message m)
      push f.messages record
      note (.recorded (← shown m.name) (← shown m.reason))
      return record).Ends w' (Reported w.store (.ref r) f)
        fun _ w'' => w.store.Edited w''.store (.ref r) f := by
    intro m w' hw'
    rw [← hw'] at h ⊢
    exact ends_record h m
  refine ends_store_bind ?_
  split_ifs
  · -- the message is named after the path
    refine (fixes_shown _).ends_bind hw₂ hsame fun path w₃ hw₃ => ?_
    exact (fixes_shown _).ends_bind hw₃ hsame fun name w₄ hw₄ => hrecord _ hw₄
  · exact hrecord m hw₂

theorem outcome_setFatal {r : Ref} {m : Message} (hm : w.store.message? (.ref r) = some m)
    (fatal : Value) : (setFatal (.ref r) fatal).outcome w =
      (.ok (), { w with store := w.store.write r (.message { m with fatal }) }) := by
  rw [setFatal, outcome_bind_ok _ (outcome_store w)]
  simp only [hm]
  rfl

theorem returns_setFatal {s : Store} {record : Value} (h : Reported s v f record w)
    (fatal : Value) : (setFatal record fatal).Returns w fun _ w' => s.Edited w'.store v f := by
  obtain ⟨hnew, hmessage, f', hf', hcells, hkeeps⟩ := h
  obtain ⟨m, hm⟩ := Option.isSome_iff_exists.mp hmessage
  have hc := Store.message?_eq_some.mp hm
  obtain ⟨q, rfl⟩ := Store.exists_ref hc
  refine ⟨(), _, outcome_setFatal hm fatal, ?_⟩
  obtain ⟨data, messages, attributes, hf, hd, ha⟩ := hf'.holds
  have hnot := hf.not_mem_cells hc
  refine ⟨f', ⟨hf'.sound, data, messages, attributes, ?_, hd, ha⟩, hcells,
    hkeeps.write (.inr hnew) _⟩
  refine hf.keep (w.store.keeps_write_self q _) fun x hx => ?_
  simpa using fun hq : x = .ref q => hnot (hq ▸ hx)

theorem edits_report (h : w.store.Stands v f) (name : String) (reason place origin fatal : Value)
    {rest : Value → Action α} (hrest : ∀ record, (rest record).Fixes World.store) : (do
      let (_, f) ← file v
      checkOperation f name
      let record ← warn v reason place origin
      setFatal record fatal
      rest record).Edits w v f := by
  obtain ⟨data, messages, attributes, hf, -⟩ := h.holds
  obtain ⟨r, rfl⟩ := Store.exists_ref hf.file
  refine ends_bind_same (outcome_file (Store.file?_of_cell? hf.file)) ?_
  dsimp only
  refine (consults_checkOperation f name).reads.fixes.ends_bind rfl (fun _ hw =>
    hw ▸ h.edited) fun _ w₁ hw₁ => ?_
  rw [← hw₁] at h ⊢
  refine (ends_warn h reason place origin).bind fun record w₂ hrecord => ?_
  refine (returns_setFatal hrecord fatal).ends.bind fun _ w₃ hw₃ => ?_
  exact ((hrest record).ends w₃).mono (fun _ _ hw => hw ▸ hw₃) fun _ _ hw => hw ▸ hw₃

theorem edits_warn (h : w.store.Stands v f) (reason place origin : Value) :
    (warn v reason place origin).Edits w v f :=
  (ends_warn h reason place origin).mono (fun _ _ hr => hr.2.2) fun _ _ hw => hw

theorem edits_inform (h : w.store.Stands v f) (reason place origin : Value) :
    (inform v reason place origin).Edits w v f :=
  edits_report h "info" reason place origin .null fun record => fixes_pure record

theorem edits_fail (h : w.store.Stands v f) (reason place origin : Value) :
    (fail v reason place origin : Action α).Edits w v f :=
  edits_report h "fail" reason place origin (.bool true) fun record =>
    (fixes_shown record).bind fun _ => fixes_store.bind fun _ => fixes_throw _

/-! ### Items -/

theorem outcome_readAttribute (hf : w.store.cell? v = some (.file f)) (name : String) {x : Value}
    (hfield : f.fields.lookup name = some x) (hfacet : Facet.ofLabel? name = none)
    (hname : name ≠ "history") : (readAttribute v name).outcome w = (.ok x, w) := by
  obtain ⟨r, rfl⟩ := Store.exists_ref hf
  have hpath : name ≠ "path" := by
    rintro rfl
    exact absurd hfacet (by decide)
  have hattribute : w.store.attribute? (.ref r) name = some x := by
    simp only [Store.attribute?, hf, hpath, if_false, List.lookup_append, hfield, Option.some_or]
  rw [readAttribute, outcome_bind_ok _ (outcome_store w)]
  simp only [hf, hfacet, hname, if_false, readAttribute.plain, ownAttribute, hattribute]
  rfl

theorem returns_assignItem {r : Ref} {es : Entries} (hes : w.store.dict? (.ref r) = some es)
    (hkeys : TextKeys es) (key : Text) (new : Value) :
    (assignItem (.ref r) (.text key) new).Returns w
      fun _ w' => w'.store = w.store.write r (.dict (Options.putText key new es)) := by
  have hinsert : (fun s : Store => s.insert (.text key) new es) w.store =
      .ok (Options.putText key new es) := Store.insert_eq_putText _ key new hkeys
  rw [assignItem]
  refine returns_store_bind ?_
  simp only [Store.dict?_eq_some.mp hes]
  refine returns_ofStore_bind hinsert ?_
  exact ⟨(), _, rfl, rfl⟩

end Action

/-! ### Runs -/

/-- **A change to a file**: a facet is set, something is reported, or an item is put under a text
into the data or the attributes. -/
inductive Edit
  | facet (facet : Facet) (new : Value)
  | report (severity : Severity) (reason place origin : Value)
  | data (key : Text) (new : Value)
  | attributes (key : Text) (new : Value)
  deriving DecidableEq, Repr

/-- Makes a change. -/
def Edit.run (v : Value) : Edit → Action Unit
  | .facet part new => Action.setFacet v part new
  | .report .warning reason place origin => do let _ ← Action.warn v reason place origin
  | .report .info reason place origin => do let _ ← Action.inform v reason place origin
  | .report .fatal reason place origin => Action.fail v reason place origin
  | .data key new => do Action.assignItem (← Action.readAttribute v "data") (.text key) new
  | .attributes key new =>
    do Action.assignItem (← Action.readAttribute v "attributes") (.text key) new

/-- The world after a run of changes, some of which may be refused. -/
def edited (v : Value) (w : World) (es : List Edit) : World :=
  es.foldl (fun w e => ((e.run v).outcome w).2) w

variable {w : World} {v : Value} {f : File}

/-- **One change** leaves the file in its cells. -/
theorem edits_run (h : w.store.Stands v f) (e : Edit) : (e.run v).Edits w v f := by
  obtain ⟨data, messages, attributes, hf, hd, ha⟩ := h.holds
  cases e with
  | facet part new => exact Action.edits_setFacet h part new
  | report severity reason place origin =>
    have hdone : ∀ w' f', w'.store.Stands v f' → (pure () : Action Unit).Edits w' v f' :=
      fun w' f' hf' =>
        Action.ends_pure hf'.edited
    cases severity with
    | warning => exact (Action.edits_warn h reason place origin).bind fun _ => hdone
    | info => exact (Action.edits_inform h reason place origin).bind fun _ => hdone
    | fatal => exact Action.edits_fail h reason place origin
  | data key new =>
    obtain ⟨r, hr⟩ := Store.exists_ref (Store.dict?_eq_some.mp hf.data)
    refine Action.ends_bind_same
      (Action.outcome_readAttribute hf.file "data" rfl rfl (by decide)) ?_
    rw [hr]
    exact ((Action.returns_assignItem (hr ▸ hf.data) hd.keys key new).mono fun _ w' hw' =>
      hw' ▸ h.edited_data hr (hd.putText key new)).ends
  | attributes key new =>
    obtain ⟨r, hr⟩ := Store.exists_ref (Store.dict?_eq_some.mp hf.attributes)
    refine Action.ends_bind_same (Action.outcome_readAttribute hf.file "attributes" rfl rfl
      (by decide)) ?_
    rw [hr]
    exact ((Action.returns_assignItem (hr ▸ hf.attributes) ha.keys key new).mono fun _ w' hw' =>
      hw' ▸ h.edited_attributes hr (ha.putText key new)).ends

/-- **A run of changes** leaves the file in its cells. -/
theorem edited_run (h : w.store.Stands v f) (es : List Edit) :
    w.store.Edited (edited v w es).store v f := by
  induction es generalizing w f with
  | nil => exact h.edited
  | cons e es ih => exact (edits_run h e).after.then fun f' hf' => ih hf'

end VirtualFile
