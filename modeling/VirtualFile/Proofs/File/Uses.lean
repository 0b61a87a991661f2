import VirtualFile.Proofs.File.Edits
import VirtualFile.Proofs.World.Reading
/-!
# Uses of a file

A caller changes a file, reads its content, assigns its attributes, and adds members and
items to what stands in them. Of all this only two things touch the file itself: a facet
that is set renames it, and an assignment puts a value into one of its fields. Everything
else goes to other cells, or nowhere (`file?_run`). So what renaming and the assignments
of a run keep of a file is kept by the run (`file?_used`).

* `Use`, `used`: the uses, and the world after a run of them.
* `World.files`: the files of a world, which all other actions leave as they are.
* `World.Secluded`: the parts of a world that share this with the files.
* `File.IsRenamed`: the file under another path.
-/

namespace VirtualFile

/-! ### Uses -/

/-- **A use of a file.** Members and items go to what an attribute of the file refers to. -/
inductive Use
  | edit (e : Edit)
  /-- The content is read as text. -/
  | content (encoding : Value)
  | assign (name : String) (new : Value)
  /-- A value is added at the end of a list. -/
  | append (name : String) (new : Value)
  /-- An item is put under any key. -/
  | put (name : String) (key new : Value)
  deriving DecidableEq, Repr

/-- Makes use of a file. -/
def Use.run (v : Value) : Use → Action Unit
  | .edit e => e.run v
  | .content encoding => do let _ ← Action.content v encoding
  | .assign name new => Action.assign v name new
  | .append name new => do Action.push (← Action.readAttribute v name) new
  | .put name key new => do Action.assignItem (← Action.readAttribute v name) key new

/-- The world after a run of uses, some of which may be refused. -/
def used (v : Value) (w : World) (us : List Use) : World :=
  us.foldl (fun w u => ((u.run v).outcome w).2) w

/-! ### The files of a world -/

/-- The files of a world by reference. -/
def World.files (w : World) : Value → Option File := w.store.file?

def Cell.isFile : Cell → Bool
  | .file _ => true
  | _ => false

theorem Cell.not_isFile {c : Cell} (hc : c.isContainer) : c.isFile = false := by
  cases c with
  | file f => exact absurd hc (by simp [isContainer])
  | _ => rfl

namespace Store
variable {s : Store} {r : Ref} {c d : Cell}

theorem file?_eq_none {v : Value} (h : s.cell? v = some c) (hc : c.isFile = false) :
    s.file? v = none := by
  rw [file?, h]
  cases c with
  | file f => exact absurd hc (by simp [Cell.isFile])
  | _ => rfl

/-- The value of a new cell is known; every other value refers to what it did before. -/
theorem cell?_alloc_cases (s : Store) (c : Cell) (v : Value) :
    (s.cell? v = none ∧ (s.alloc c).1.cell? v = some c) ∨ (s.alloc c).1.cell? v = s.cell? v := by
  cases v with
  | ref r =>
    rcases Nat.lt_trichotomy r s.cells.size with h | rfl | h
    · exact .inr (cell?_alloc_of_lt s c h)
    · exact .inl ⟨by simp [cell?], cell?_alloc s c⟩
    · refine .inr ?_
      have hnone : s.cells[r]? = none := Array.getElem?_eq_none h.le
      have hnone' : (s.cells.push c)[r]? = none :=
        Array.getElem?_eq_none (by simpa using Nat.succ_le_of_lt h)
      simp only [alloc, cell?, hnone, hnone']
  | _ => exact .inr rfl

theorem files_alloc (hc : c.isFile = false) : (s.alloc c).1.file? = s.file? := by
  funext v
  obtain ⟨hnone, hsome⟩ | hsame := cell?_alloc_cases s c v
  · rw [file?_eq_none hsome hc, file?, hnone]
  · rw [file?, file?, hsame]

theorem files_write (h : s.cell? (.ref r) = some c) (hc : c.isFile = false)
    (hd : d.isFile = false) : (s.write r d).file? = s.file? := by
  funext v
  by_cases hv : v = .ref r
  · rw [hv, file?_eq_none h hc, file?_eq_none (cell?_write_self d h) hd]
  · cases v with
    | ref q => rw [file?, file?, cell?_write_of_ne s d fun hr => hv (congrArg _ hr.symm)]
    | _ => rfl

end Store

/-- **A part of the world that only files and further entries reach**: new cells, changed cells and
warnings leave it as it is, as long as the cells are no files. -/
structure World.Secluded {γ : Type} (part : World → γ) : Prop where
  alloc : ∀ {c : Cell}, c.isFile = false → (Action.alloc c).Fixes part
  write : ∀ {w : World} {r : Ref} {c d : Cell}, w.store.cell? (.ref r) = some c → c.isFile = false →
    d.isFile = false → part { w with store := w.store.write r d } = part w
  warned : ∀ {w w' : World}, w.Warned w' → part w' = part w

theorem World.secluded_files : World.Secluded World.files :=
  ⟨fun hc _ => Store.files_alloc hc, fun h hc hd => Store.files_write h hc hd,
    fun h => congrArg Store.file? h.store⟩

theorem World.secluded_pathEntries : World.Secluded World.pathEntries :=
  ⟨fun _ _ => rfl, fun _ _ _ => rfl, fun h => h.pathEntries⟩

theorem World.secluded_reports : World.Secluded World.reports :=
  ⟨fun _ _ => rfl, fun _ _ _ => rfl, fun h => h.reports⟩

namespace Action
variable {α γ : Type} {part : World → γ}

theorem fixes_file (v : Value) : (file v).Fixes part := by
  rw [file]
  refine fixes_store.bind fun s => ?_
  split
  · exact fixes_pure _
  · exact fixes_throw _

theorem after_ofStore_bind {β : Type} {w : World} {f : Store → Except Fault α}
    {g : α → Action β} (h : ∀ x, part ((g x).outcome w).2 = part w) :
    part ((ofStore f >>= g).outcome w).2 = part w := by
  rw [outcome_bind, outcome_ofStore]
  cases f w.store with
  | ok x => exact h x
  | error e => rfl

section Secluded
variable (hpart : World.Secluded part)
include hpart

theorem Consults.fixes {a : Action α} (h : a.Consults) : a.Fixes part :=
  fun w => hpart.warned (h.warned w)

theorem fixes_readPart (v : Value) (name : String) : (readAttribute v name).Fixes part :=
  fixes_readAttribute (fun _ hc => hpart.alloc (Cell.not_isFile hc)) v name

theorem fixes_push (target v : Value) : (push target v).Fixes part := by
  intro w
  rw [push, outcome_bind_ok _ (outcome_store w)]
  split
  · next h => exact hpart.write h rfl rfl
  · next h =>
    split
    · split_ifs
      · exact hpart.write h rfl rfl
      · rfl
    · rfl
  · rfl

theorem fixes_assignItem (v key new : Value) : (assignItem v key new).Fixes part := by
  intro w
  rw [assignItem, outcome_bind_ok _ (outcome_store w)]
  split
  · next h => exact after_ofStore_bind fun _ => hpart.write h rfl rfl
  · next h => exact after_ofStore_bind fun _ => hpart.write h rfl rfl
  · next h =>
    dsimp only
    split_ifs
    · rfl
    · exact after_ofStore_bind fun b => after_ofStore_bind fun i => hpart.write h rfl rfl
  · rfl

theorem fixes_setFatal (record fatal : Value) : (setFatal record fatal).Fixes part := by
  intro w
  rw [setFatal, outcome_bind_ok _ (outcome_store w)]
  split
  · next h => exact hpart.write (Store.message?_eq_some.mp h) rfl rfl
  · rfl

/-! ### Reports -/

section Reports
variable (hrecorded : ∀ name reason, (note (.recorded name reason)).Fixes part)
include hrecorded

theorem fixes_warn (v reason place origin : Value) : (warn v reason place origin).Fixes part := by
  have hshown : ∀ v, (shown v).Fixes part := fun v => (consults_shown v).fixes hpart
  have hrecord : ∀ (f : File) m, (do
      let record ← alloc (.message m)
      push f.messages record
      note (.recorded (← shown m.name) (← shown m.reason))
      return record : Action Value).Fixes part := fun f m =>
    (hpart.alloc rfl).bind fun record => (fixes_push hpart _ _).bind fun _ =>
      (hshown _).bind fun _ => (hshown _).bind fun _ => (hrecorded _ _).bind fun _ => fixes_pure _
  rw [warn]
  refine (fixes_file v).bind fun file =>
    ((consults_checkOperation file.2 "message").fixes hpart).bind fun _ => ?_
  refine ((consults_newMessage reason place origin).fixes hpart).bind fun m => ?_
  dsimp only
  split
  · refine fixes_store.bind fun s => ?_
    split_ifs
    · refine (hshown _).bind fun path => (hshown _).bind fun name => ?_
      exact (fixes_pure _).bind fun m => hrecord file.2 m
    · exact (fixes_pure _).bind fun m => hrecord file.2 m
  · exact fixes_throw _

theorem fixes_flagged {α : Type} (name : String) (v reason place origin fatal : Value)
    {rest : Value → Action α} (hrest : ∀ record, (rest record).Fixes part) : (do
      let (_, f) ← file v
      checkOperation f name
      let record ← warn v reason place origin
      setFatal record fatal
      rest record).Fixes part :=
  (fixes_file v).bind fun _ => ((consults_checkOperation _ _).fixes hpart).bind fun _ =>
    (fixes_warn hpart hrecorded v reason place origin).bind fun record =>
      (fixes_setFatal hpart record _).bind fun _ => hrest record

/-- **A report** leaves every part as it is that its entry leaves as it is. -/
theorem fixes_report (v : Value) (severity : Severity) (reason place origin : Value) :
    ((Edit.report severity reason place origin).run v).Fixes part := by
  cases severity with
  | warning => exact (fixes_warn hpart hrecorded v _ _ _).bind fun _ => fixes_pure _
  | info =>
    exact (fixes_flagged hpart hrecorded "info" v _ _ _ .null fixes_pure).bind fun _ => fixes_pure _
  | fatal =>
    refine fixes_flagged hpart hrecorded "fail" v _ _ _ (.bool true) fun record => ?_
    exact ((consults_shown _).fixes hpart).bind fun _ => fixes_store.bind fun _ => fixes_throw _

end Reports

end Secluded

theorem fixes_content (v encoding : Value) : (content v encoding).Fixes World.store :=
  (consults_content v encoding).reads.fixes

end Action

/-! ### Assigning -/

theorem Fields.lookup_assign_of_ne {fs : Fields} {name other : String} (h : other ≠ name)
    (v : Value) : (fs.assign name v).lookup other = fs.lookup other := by
  induction fs with
  | nil => simp [Fields.assign, List.lookup_cons, beq_false_of_ne h]
  | cons x fs ih =>
    obtain ⟨k, u⟩ := x
    rw [Fields.assign]
    split_ifs with hk
    · subst hk
      simp [List.lookup_cons, beq_false_of_ne h]
    · rw [List.lookup_cons, List.lookup_cons, ih]

theorem File.lookup_extra_assign {f : File} {name other : String} (h : other ≠ name) (v : Value) :
    (f.assign name v).extra.lookup other = f.extra.lookup other := by
  rw [File.assign.eq_def]
  split
  all_goals first
    | rfl
    | exact Fields.lookup_assign_of_ne h v

/-! ### Renaming -/

/-- **A file under another path**, or the one that it had. -/
def File.IsRenamed (f f' : File) : Prop :=
  ∃ n p, f.naming = some n ∧ p ≠ [] ∧ f' = { f with naming := some (n.rename p).1 }

namespace Action
variable {w : World} {v : Value} {f : File}

/-- **Setting a facet** changes nothing or renames the file. -/
theorem store_setFacet (hf : w.store.file? v = some f) (facet : Facet) (new : Value) :
    ((setFacet v facet new).outcome w).2.store = w.store ∨
      ∃ r f', v = .ref r ∧ f.IsRenamed f' ∧
        ((setFacet v facet new).outcome w).2.store = w.store.write r (.file f') := by
  obtain ⟨r, rfl⟩ := Store.exists_ref (Store.cell?_eq_of_file? hf)
  cases hn : f.naming with
  | none =>
    refine .inl ?_
    have hnaming : (naming f).outcome w = (.error .noAttribute, w) := by
      rw [naming, hn]
      rfl
    rw [setFacet, outcome_bind_ok _ (outcome_file hf), outcome_bind_error _ hnaming]
  | some n =>
    rw [outcome_setFacet hf hn]
    have hset := Naming.set_yields w.store n new facet
    cases hres : n.set w.store facet new with
    | error e => exact .inl rfl
    | ok m =>
      rw [hres] at hset
      obtain ⟨p, hp, rfl⟩ := hset
      exact .inr ⟨r, _, rfl, ⟨n, p, hn, hp, rfl⟩, rfl⟩

theorem keeps_setFacet (hf : w.store.file? v = some f) (facet : Facet) (new : Value) :
    w.store.Keeps ((setFacet v facet new).outcome w).2.store [v] := by
  obtain hsame | ⟨r, f', rfl, -, hwrite⟩ := store_setFacet hf facet new
  · rw [hsame]
    exact (Store.Extends.refl _).keeps _
  · rw [hwrite]
    exact w.store.keeps_write_self r _

theorem file?_setFacet (hf : w.store.file? v = some f) (facet : Facet) (new : Value) :
    ∃ f', ((setFacet v facet new).outcome w).2.store.file? v = some f' ∧
    (f' = f ∨ f.IsRenamed f') := by
  obtain hsame | ⟨r, f', rfl, hrenamed, hwrite⟩ := store_setFacet hf facet new
  · exact ⟨f, hsame ▸ hf, .inl rfl⟩
  · exact ⟨f', hwrite ▸ Store.file?_write f' hf, .inr hrenamed⟩

end Action

/-! ### One use -/

/-- **What a use leaves of a file**: the file as it is, under another
path, or with a field assigned. -/
def Use.Leaves (u : Use) (f f' : File) : Prop :=
  f' = f ∨ f.IsRenamed f' ∨ ∃ name new, u = .assign name new ∧ f' = f.assign name new

section Run
variable {w : World} {v : Value} {f : File}

theorem exists_left {a : Action Unit} (ha : a.Fixes World.files) (hf : w.store.file? v = some f)
    (u : Use) : ∃ f', (a.outcome w).2.store.file? v = some f' ∧ u.Leaves f f' :=
  ⟨f, (congrFun (ha w) v).trans hf, .inl rfl⟩

theorem exists_left_facet (hf : w.store.file? v = some f) (facet : Facet) (new : Value) (u : Use) :
    ∃ f', ((Action.setFacet v facet new).outcome w).2.store.file? v = some f' ∧ u.Leaves f f' := by
  obtain ⟨f', hf', hleft⟩ := Action.file?_setFacet hf facet new
  exact ⟨f', hf', hleft.elim .inl fun h => .inr (.inl h)⟩

/-- **One use of a file** leaves a file that has changed as the use says. -/
theorem file?_run (hf : w.store.file? v = some f) (u : Use) :
    ∃ f', ((u.run v).outcome w).2.store.file? v = some f' ∧ u.Leaves f f' := by
  cases u with
  | edit e =>
    have hitem : ∀ name key new, (do
        Action.assignItem (← Action.readAttribute v name) key new :
          Action Unit).Fixes World.files :=
      fun name key new => (Action.fixes_readPart World.secluded_files v name).bind fun x =>
        Action.fixes_assignItem World.secluded_files x key new
    cases e with
    | facet facet new => exact exists_left_facet hf facet new _
    | report severity reason place origin =>
      exact exists_left (Action.fixes_report World.secluded_files
        (fun _ _ _ => rfl) v severity _ _ _) hf _
    | data key new => exact exists_left (hitem "data" (.text key) new) hf _
    | attributes key new => exact exists_left (hitem "attributes" (.text key) new) hf _
  | content encoding =>
    exact exists_left (((Action.consults_content v encoding).fixes World.secluded_files).bind
      fun _ => Action.fixes_pure _) hf _
  | assign name new =>
    have hc := Store.cell?_eq_of_file? hf
    obtain ⟨r, rfl⟩ := Store.exists_ref hc
    rw [Use.run, Action.assign, Action.outcome_bind_ok _ (Action.outcome_store w)]
    simp only [hc]
    split
    · exact exists_left_facet hf _ new _
    · split_ifs
      · exact ⟨f, hf, .inl rfl⟩
      · exact ⟨f.assign name new, Store.file?_write _ hf, .inr (.inr ⟨name, new, rfl, rfl⟩)⟩
  | append name new =>
    exact exists_left ((Action.fixes_readPart World.secluded_files v name).bind fun x =>
      Action.fixes_push World.secluded_files x new) hf _
  | put name key new =>
    exact exists_left ((Action.fixes_readPart World.secluded_files v name).bind fun x =>
      Action.fixes_assignItem World.secluded_files x key new) hf _

/-! ### A run of uses -/

/-- **What a run of uses keeps of a file**: whatever renaming keeps
and the assignments in it keep. -/
theorem file?_used {P : File → Prop} (hrenamed : ∀ f f', P f → f.IsRenamed f' → P f')
    {us : List Use} (hassign : ∀ name new, .assign name new ∈ us → ∀ f, P f → P (f.assign name new))
    (hf : w.store.file? v = some f) (hP : P f) :
    ∃ f', (used v w us).store.file? v = some f' ∧ P f' := by
  induction us generalizing w f with
  | nil => exact ⟨f, hf, hP⟩
  | cons u us ih =>
    obtain ⟨f', hf', hleft⟩ := file?_run hf u
    have hP' : P f' := by
      obtain rfl | hr | ⟨name, new, rfl, rfl⟩ := hleft
      · exact hP
      · exact hrenamed f f' hP hr
      · exact hassign name new (by simp) f hP
    exact ih (fun name new hmem => hassign name new (List.mem_cons_of_mem u hmem)) hf' hP'

/-- **A run of uses that change a file** and nothing else leaves it in its cells. -/
theorem edited_used_of (h : w.store.Stands v f) {us : List Use}
    (hus : ∀ u ∈ us, ∀ w f, w.store.Stands v f → (u.run v).Edits w v f) :
    w.store.Edited (used v w us).store v f := by
  induction us generalizing w f with
  | nil => exact h.edited
  | cons u us ih =>
    obtain ⟨hu, hus⟩ := List.forall_mem_cons.mp hus
    exact (hu w f h).after.then fun f' hf' => ih hf' hus

end Run

end VirtualFile
