import VirtualFile.Proofs.File.Fresh
import VirtualFile.Proofs.Place.Agreement
/-!
# One report

A report puts one new record at the end of the messages of a file, and one entry for it into the
journal, or it is refused before there is a record and changes nothing but for warnings in the
journal (`report_cases`). It is refused only for what cannot be shown: a place that is a range whose
ends are not both points, a reason without a text, or a path without one.

* `Message.Drafts`, `Message.Reports`: what a message says before it
  belongs to a file, and the record.
* `Store.Unfit`: what cannot be shown.
* `Store.Enters`: the record in the log.
* `World.Tells`: the entry in the journal.
-/

namespace VirtualFile

/-! ### Records -/

/-- The flag of a severity. -/
def Severity.flag : Severity → Value
  | .fatal => .bool true
  | .warning => .bool false
  | .info => .null

/-- The current path of a file. -/
def File.path (f : File) : Value := (f.naming.map Naming.path).getD .null

/-- The text of a place, or that of a place that has none. -/
def rendered (label : Text) : Text := if label = [] then noPlace else label

/-- **What a record says of a report**: the text of the reason, and
the place after the path, if there is one. -/
structure Message.Reports (s : Store) (path reason place origin fatal : Value) (m : Message) :
    Prop where
  fatal : m.fatal = fatal
  origin : m.origin = origin
  cause : m.cause = Action.causeOf s reason
  reason : ∃ t, s.shownText reason = .ok t ∧ m.reason = .text t
  name : ∃ label, s.describe place = .ok label ∧
    if s.truthy path then
      m.file = path ∧ ∃ p, s.shownText path = .ok p ∧ m.name = .text (p ++ ':' :: rendered label)
    else m.file = .text [] ∧ m.name = .text (rendered label)

/-- The line and the column of the start of a range, neither without one. -/
def Store.startOf (s : Store) : Option Position → Except Fault (Value × Value)
  | some p => p.startPlace s
  | none => .ok (.null, .null)

/-- **What a message says that belongs to no file yet**: the text of
the reason, and the place with its range. -/
structure Message.Drafts (s : Store) (reason place origin : Value) (m : Message) : Prop where
  fatal : m.fatal = .bool false
  file : m.file = .text []
  origin : m.origin = origin
  cause : m.cause = Action.causeOf s reason
  reason : ∃ t, s.shownText reason = .ok t ∧ m.reason = .text t
  name : ∃ label, s.describe place = .ok label ∧ m.name = .text (rendered label)
  place : ∃ range, s.resolve place = .ok range ∧
  m.position = (range.map Position.toValue).getD .null ∧
    s.startOf range = .ok (m.line, m.column)

theorem Message.Reports.exists_name {s : Store} {path reason place origin fatal : Value}
    {m : Message} (h : m.Reports s path reason place origin fatal) : ∃ t, m.name = .text t := by
  obtain ⟨label, -, hname⟩ := h.name
  split_ifs at hname
  · obtain ⟨-, p, -, hname⟩ := hname
    exact ⟨_, hname⟩
  · exact ⟨_, hname.2⟩

namespace Store

theorem cell?_alloc_eq_none {s : Store} {x : Value} (h : s.cell? x = none) (c : Cell) :
    x = (s.alloc c).2 ∨ (s.alloc c).1.cell? x = none := by
  cases x with
  | ref r =>
    by_cases hr : r = s.cells.size
    · exact .inl (congrArg _ hr)
    · exact .inr (by simpa [cell?, alloc, Array.getElem?_push, hr] using h)
  | _ => exact .inr rfl

theorem cell?_write_eq_none {s : Store} {x : Value} (h : s.cell? x = none) (r : Ref) (c : Cell) :
    (s.write r c).cell? x = none := by
  cases x with
  | ref q =>
    have hq : s.cells.size ≤ q := by simpa [cell?] using h
    simp [cell?, write, hq]
  | _ => rfl

/-- A place that can be read: its range and its text. -/
def CanRead (s : Store) (place : Value) : Prop :=
  ∃ range, s.resolve place = .ok range ∧ s.Legible (s.describe place) range

/-- **A report that cannot be made**, for the place, the reason or the path. -/
def Unfit (s : Store) (path reason place : Value) : Prop :=
  ¬ s.CanRead place ∨ (∃ e, s.shownText reason = .error e) ∨ ∃ e, s.shownText path = .error e

/-- Of places with an innermost one, only ranges that are not between points cannot be read. -/
theorem Innermost.canRead {s : Store} {place x : Value} (h : s.Innermost place x)
    (hx : ∀ a b, x = .position a b → a.isPoint ∧ b.isPoint) : s.CanRead place :=
  ⟨s.rangeAt x, h.resolve_eq, h.describe_eq ▸ legible_innermost h.2 hx⟩

theorem shownText_message {s : Store} {v : Value} {m : Message} (hm : s.cell? v = some (.message m))
    {n t : Text} (hname : m.name = .text n) (hreason : m.reason = .text t) :
    s.shownText v = .ok (n ++ ':' :: ' ' :: t) := by
  obtain ⟨r, rfl⟩ := exists_ref hm
  rw [shownText, Action.shown, Action.outcome_bind_ok _ (Action.outcome_store _)]
  have hcell : (Action.cell? (.ref r)).outcome { store := s } =
      (.ok (some (.message m)), { store := s }) := by
    rw [← hm]
    rfl
  simp only [Action.showTo]
  rw [Action.outcome_bind_ok _ hcell]
  simp only [hname, hreason]
  rfl

/-- **A report is entered in the log** under a new record. -/
structure Enters (s s' : Store) (v : Value) (f : File) (log : List Value)
    (reason place origin fatal record : Value) : Prop where
  new : s.cell? record = none
  message : ∃ m, s'.message? record = some m ∧ m.Reports s f.path reason place origin fatal
  log : s'.Logs v f (log ++ [record])
  keeps : s.Keeps s' [f.messages]
  only : ∀ x, s.cell? x = none → x = record ∨ s'.cell? x = none

theorem Enters.causeOf_eq {s s' : Store} {v : Value} {f : File} {log : List Value}
    {reason place origin fatal record : Value} (hlogs : s.Logs v f log)
    (h : s.Enters s' v f log reason place origin fatal record) (u : Value) :
    Action.causeOf s' u = Action.causeOf s u := by
  suffices hfailure : s'.failure? u = s.failure? u by rw [Action.causeOf, Action.causeOf, hfailure]
  by_cases hu : u = f.messages
  · rw [hu, failure?, failure?, hlogs.messages, h.log.messages]
  cases hc : s.cell? u with
  | some c => rw [failure?, failure?, hc, h.keeps u c hc (by simpa using hu)]
  | none =>
    obtain rfl | hnone := h.only u hc
    · obtain ⟨m, hm, -⟩ := h.message
      rw [failure?, failure?, hc, message?_eq_some.mp hm]
    · rw [failure?, failure?, hc, hnone]

end Store

/-- A record with a name and a reason. -/
def Store.Says (s : Store) (told : Text × Text) (record : Value) : Prop :=
  ∃ m, s.message? record = some m ∧ m.name = .text told.1 ∧ m.reason = .text told.2

/-- **A report is told in the journal**, with the name and the reason of its record. -/
def World.Tells (w w' : World) (record : Value) : Prop :=
  ∃ told, w'.store.Says told record ∧ w'.reports = w.reports ++ [told]

theorem World.Tells.of_warned {w w₁ w' w'' : World} {record : Value} (h : w₁.Tells w' record)
    (hw : w.Warned w₁) (hw' : w'.Warned w'') : w.Tells w'' record := by
  obtain ⟨told, hsays, hreports⟩ := h
  exact ⟨told, hw'.store ▸ hsays, by rw [hw'.reports, hreports, hw.reports]⟩

/-! ### One report -/

namespace Action
variable {w : World} {v : Value} {f : File} {log : List Value}

/-- **A message that belongs to no file yet** is about the place alone. -/
theorem ends_newMessage (path reason place origin : Value) (w : World) :
    (newMessage reason place origin).Ends w (fun m w' => w.Warned w' ∧
      m.Drafts w.store reason place origin)
      fun _ w' => w.Warned w' ∧ w.store.Unfit path reason place := by
  have hplace : ∀ w' : World, w.Warned w' → ¬ w.store.CanRead place →
      w.Warned w' ∧ w.store.Unfit path reason place := fun _ hw h => ⟨hw, .inl h⟩
  rw [newMessage]
  refine ends_ofStore_bind (fun e he => hplace w (.refl w) ?_) fun range hrange => ?_
  · rintro ⟨range, hrange, -⟩
    exact absurd (he.symm.trans hrange) (by simp)
  refine ends_shown_bind reason (fun w' e he hw => ⟨hw, .inr (.inl ⟨e, he⟩)⟩)
    fun w₁ t ht hwarned => ?_
  have hw₁ := hwarned.store
  refine ends_ofStore_bind (fun e he => hplace w₁ hwarned ?_) fun label hlabel => ?_
  · rintro ⟨range', -, ⟨label, hlabel⟩, -⟩
    exact absurd ((hw₁ ▸ he).symm.trans hlabel) (by simp)
  rw [hw₁] at hlabel
  have hmessage : ∀ line column position, position = (range.map Position.toValue).getD .null →
      w.store.startOf range = .ok (line, column) → (do
      return {
        reason := .text t
        name := .text (if label = [] then noPlace else label)
        line, column, position, origin
        cause := causeOf (← store) reason } : Action Message).Ends w₁
      (fun m w' => w.Warned w' ∧ m.Drafts w.store reason place origin)
      fun _ w' => w.Warned w' ∧ w.store.Unfit path reason place := by
    intro line column position hposition hstart
    refine ends_store_bind ?_
    rw [hw₁]
    exact ends_pure
      ⟨hwarned, rfl, rfl, rfl, rfl, ⟨t, ht, rfl⟩, ⟨label, hlabel, rfl⟩, range, hrange,
        hposition, hstart⟩
  cases range with
  | none => exact ends_bind_same (outcome_pure _ w₁) (hmessage _ _ _ rfl rfl)
  | some p =>
    refine ends_ofStore_bind (fun e he => hplace w₁ hwarned ?_) fun start hstart =>
      hmessage _ _ _ rfl (hw₁ ▸ hstart)
    rintro ⟨range', hrange', -, hstart⟩
    obtain rfl : some p = range' := Except.ok.inj (hrange.symm.trans hrange')
    obtain ⟨l, c, hlc⟩ := hstart p rfl
    exact absurd ((hw₁ ▸ he).symm.trans hlc) (by simp)

theorem returns_record (h : w.store.Logs v f log) {m : Message} {n t : Text}
    (hname : m.name = .text n) (hreason : m.reason = .text t) : (do
      let record ← alloc (.message m)
      push f.messages record
      note (.recorded (← shown m.name) (← shown m.reason))
      return record).Returns w fun record w' => w.store.cell? record = none ∧
        w'.store.message? record = some m ∧ w'.store.Logs v f (log ++ [record]) ∧
        w.store.Keeps w'.store [f.messages] ∧
        (∀ x, w.store.cell? x = none → x = record ∨ w'.store.cell? x = none) ∧
        w'.reports = w.reports ++ [(n, t)] := by
  obtain ⟨r, hr⟩ := Store.exists_ref h.messages
  obtain ⟨record, w₁, halloc, hle, hnew, hrecord⟩ := succeeds_alloc_new (.message m) w
  have hreports : w₁.reports = w.reports := by
    cases halloc
    rfl
  have honly : ∀ x, w.store.cell? x = none → x = record ∨ w₁.store.cell? x = none := fun x hx => by
    cases halloc
    exact Store.cell?_alloc_eq_none hx _
  rw [Returns, outcome_bind_ok _ halloc]
  have h₁ := h.extend hle
  have hmessages := h₁.messages
  rw [hr] at hmessages ⊢
  obtain ⟨q, rfl⟩ := Store.exists_ref hrecord
  -- the record is not the list of messages
  have hne : r ≠ q := by
    rintro rfl
    exact absurd hrecord (by simp [hmessages])
  refine ((returns_push hmessages _).fixing (fixes_push World.secluded_reports _ _)).bind
    fun _ w₂ ⟨hw₂, hreports₂⟩ => ?_
  rw [hname, hreason]
  refine returns_bind_same (outcome_shown_text n w₂)
    (returns_bind_same (outcome_shown_text t w₂) ?_)
  refine ⟨.ref q, _, rfl, hnew, ?_, ?_, ?_, fun x hx => (honly x hx).imp_right fun hnone => ?_, ?_⟩
  · rw [Store.message?_eq_some]
    change w₂.store.cell? _ = _
    rw [hw₂, Store.cell?_write_of_ne _ _ hne, hrecord]
  · change w₂.store.Logs v f _
    rw [hw₂]
    exact h₁.write_messages hr _
  · change w.store.Keeps w₂.store _
    rw [hw₂]
    exact (hle.keeps _).write (.inl (by simp)) _
  · change w₂.store.cell? x = none
    rw [hw₂, Store.cell?_write_eq_none hnone]
  · rw [← hreports, ← hreports₂]
    exact List.filterMap_append

theorem outcome_checkOperation (h : w.store.Logs v f log) (name : String) :
    (checkOperation f name).outcome w = (.ok (), w) := by
  rw [checkOperation, h.extra]
  rfl

/-- **A warning** is entered in the log, or it is refused before there is a record. -/
theorem ends_warn_log (h : w.store.Logs v f log) (reason place origin : Value) :
    (warn v reason place origin).Ends w
      (fun record w' =>
        w.store.Enters w'.store v f log reason place origin (.bool false) record ∧
        w.Tells w' record)
      fun _ w' => w.Warned w' ∧ w.store.Unfit f.path reason place := by
  obtain ⟨r, rfl⟩ := Store.exists_ref h.file
  obtain ⟨n, hn⟩ := Option.isSome_iff_exists.mp h.naming
  have hpath : f.path = n.path := by rw [File.path, hn]; rfl
  rw [warn]
  refine ends_bind_same (outcome_file (Store.file?_of_cell? h.file)) ?_
  dsimp only
  refine ends_bind_same (outcome_checkOperation h "message") ?_
  refine (ends_newMessage f.path reason place origin w).bind fun m w₁ hm => ?_
  obtain ⟨hwarned, hm⟩ := hm
  obtain ⟨t, ht, hreason⟩ := hm.reason
  obtain ⟨label, hlabel, hname⟩ := hm.name
  have hw₁ := hwarned.store
  rw [hn]
  dsimp only
  -- under either name the record is entered
  have hrecord : ∀ {m' : Message} {w' : World} {x : Text}, w.Warned w' → m'.name = .text x →
      m'.reason = .text t → m'.Reports w.store f.path reason place origin (.bool false) → (do
        let record ← alloc (.message m')
        push f.messages record
        note (.recorded (← shown m'.name) (← shown m'.reason))
        return record).Ends w'
      (fun record w' =>
        w.store.Enters w'.store (.ref r) f log reason place origin (.bool false) record ∧
        w.Tells w' record)
      fun _ w' => w.Warned w' ∧ w.store.Unfit f.path reason place := by
    intro m' w' x hw' hx hreason' hreports
    refine (Returns.mono (returns_record (hw'.store ▸ h) hx hreason')
      fun record w'' hentered => ?_).ends
    obtain ⟨hnew, hmessage, hlog, hkeeps, honly, htold⟩ := hentered
    rw [hw'.store] at hnew hkeeps honly
    rw [hw'.reports] at htold
    exact ⟨⟨hnew, ⟨m', hmessage, hreports⟩, hlog, hkeeps, honly⟩, _,
      ⟨m', hmessage, hx, hreason'⟩, htold⟩
  refine ends_store_bind ?_
  rw [hw₁]
  split_ifs with htruthy
  · refine ends_shown_bind n.path (fun w' e he hw' => ⟨hwarned.trans hw', .inr (.inr ⟨e, ?_⟩)⟩)
      fun w₂ p hp hw₂ => ?_
    · rw [hpath, ← hw₁, he]
    rw [hname]
    refine ends_bind_same (outcome_shown_text _ w₂) (ends_bind_same (outcome_pure _ w₂) ?_)
    refine hrecord (hwarned.trans hw₂) rfl hreason ⟨hm.fatal, hm.origin, hm.cause, ⟨t, ht, hreason⟩,
      label, hlabel, ?_⟩
    rw [hpath, if_pos htruthy]
    exact ⟨rfl, p, hw₁ ▸ hp, rfl⟩
  · refine ends_bind_same (outcome_pure _ w₁) ?_
    refine hrecord hwarned hname hreason ⟨hm.fatal, hm.origin, hm.cause, ⟨t, ht, hreason⟩, label,
      hlabel, ?_⟩
    rw [hpath, if_neg htruthy]
    exact ⟨hm.file, hname⟩

theorem returns_setFatal_entered {w₀ : World} {reason place origin record : Value}
    (h : w₀.store.Enters w.store v f log reason place origin (.bool false) record)
    (htells : w₀.Tells w record) (fatal : Value) : (setFatal record fatal).Returns w fun _ w' =>
      w₀.store.Enters w'.store v f log reason place origin fatal record ∧ w₀.Tells w' record := by
  obtain ⟨m, hm, hreports⟩ := h.message
  obtain ⟨told, ⟨m', hm', hsays⟩, htold⟩ := htells
  obtain rfl := Option.some.inj (hm.symm.trans hm')
  have hc := Store.message?_eq_some.mp hm
  obtain ⟨q, rfl⟩ := Store.exists_ref hc
  have hset := Store.message?_eq_some.mpr (Store.cell?_write_self (.message { m with fatal }) hc)
  refine ⟨(), _, outcome_setFatal hm fatal, ⟨h.new, ?_, ?_, ?_,
    fun x hx => (h.only x hx).imp_right fun hnone => Store.cell?_write_eq_none hnone q _⟩,
    told, ⟨_, hset, hsays⟩, htold⟩
  · exact ⟨_, hset, rfl, hreports.origin, hreports.cause, hreports.reason, hreports.name⟩
  · -- the record is neither the file nor the list
    refine h.log.keep (w.store.keeps_write_self q _) ?_ ?_
    · rw [List.mem_singleton]
      rintro rfl
      exact absurd h.log.file (by simp [hc])
    · rw [List.mem_singleton]
      intro hq
      exact absurd h.log.messages (by simp [hq, hc])
  · exact h.keeps.write (.inr h.new) _

theorem warn_cases {α : Type} (h : w.store.Logs v f log) (reason place origin : Value)
    (rest : Value → Action α) :
    (∃ e w', (warn v reason place origin >>= rest).outcome w = (.error e, w') ∧ w.Warned w' ∧
        w.store.Unfit f.path reason place) ∨
      ∃ record w', (w.store.Enters w'.store v f log reason place origin (.bool false) record ∧
        w.Tells w' record) ∧
        (warn v reason place origin >>= rest).outcome w = (rest record).outcome w' := by
  have hends := ends_warn_log h reason place origin
  rw [Ends] at hends
  rcases hwarn : (warn v reason place origin).outcome w with ⟨e | record, w'⟩
  all_goals rw [hwarn] at hends
  · exact .inl ⟨e, w', outcome_bind_error _ hwarn, hends⟩
  · exact .inr ⟨record, w', hends, outcome_bind_ok _ hwarn⟩

theorem flagged_cases {α : Type} (h : w.store.Logs v f log) (name : String)
    (reason place origin fatal : Value) (rest : Value → Action α) :
    let report := do
      let (_, f) ← file v
      checkOperation f name
      let record ← warn v reason place origin
      setFatal record fatal
      rest record
    (∃ e w', report.outcome w = (.error e, w') ∧ w.Warned w' ∧ w.store.Unfit f.path reason place) ∨
      ∃ record w', (w.store.Enters w'.store v f log reason place origin fatal record ∧
        w.Tells w' record) ∧
        report.outcome w = (rest record).outcome w' := by
  intro report
  obtain ⟨r, rfl⟩ := Store.exists_ref h.file
  have hreport : report.outcome w = (do
      let record ← warn (.ref r) reason place origin
      setFatal record fatal
      rest record).outcome w := by
    rw [outcome_bind_ok _ (outcome_file (Store.file?_of_cell? h.file))]
    exact outcome_bind_ok _ (outcome_checkOperation h name)
  rw [hreport]
  obtain hrefused | ⟨record, w₁, ⟨hentered, htells⟩, hrest⟩ :=
    warn_cases h reason place origin fun record => do
      setFatal record fatal
      rest record
  · exact .inl hrefused
  · obtain ⟨_, w₂, hset, hentered₂⟩ := returns_setFatal_entered hentered htells fatal
    exact .inr ⟨record, w₂, hentered₂, hrest.trans (outcome_bind_ok _ hset)⟩

end Action

/-- How a report ends that has been entered: a fatal one is refused with its record, its text and
its cause, the others return. -/
def Severity.Concludes (severity : Severity) (s s' : Store) (reason record : Value)
    (result : Except Fault Unit) : Prop :=
  match severity with
  | .fatal => ∃ text, s'.shownText record = .ok text ∧
      result = .error (.fatal record text (Action.causeOf s reason))
  | _ => result = .ok ()

section Step
variable {w : World} {v : Value} {f : File} {log : List Value}

theorem outcome_fatal {s : Store} {reason place origin fatal record : Value}
    (hlogs : s.Logs v f log) (h : s.Enters w.store v f log reason place origin fatal record) :
    ∃ text w', w.store.shownText record = .ok text ∧ w.Warned w' ∧ (do
      throw (.fatal record (← Action.shown record) (Action.causeOf (← Action.store) reason)) :
      Action Unit).outcome w =
        (.error (.fatal record text (Action.causeOf s reason)), w') := by
  obtain ⟨m, hm, hreports⟩ := h.message
  obtain ⟨n, hname⟩ := hreports.exists_name
  obtain ⟨t, -, hreason⟩ := hreports.reason
  have htext := Store.shownText_message (Store.message?_eq_some.mp hm) hname hreason
  obtain ⟨_, w', hshown, rfl, hw'⟩ := Action.returns_shown htext
  refine ⟨_, w', htext, hw', ?_⟩
  rw [Action.outcome_bind_ok _ hshown, Action.outcome_bind_ok _ (Action.outcome_store w'),
    hw'.store, h.causeOf_eq hlogs]
  rfl

/-- **One report** is refused and changes nothing but for warnings, or
it is entered in the log and told in the journal. -/
theorem report_cases (h : w.store.Logs v f log) (severity : Severity)
    (reason place origin : Value) :
    let outcome := ((Edit.report severity reason place origin).run v).outcome w
    ((∃ e, outcome.1 = .error e) ∧ w.Warned outcome.2 ∧ w.store.Unfit f.path reason place) ∨
      ∃ record, w.store.Enters outcome.2.store v f log reason place origin severity.flag record ∧
        severity.Concludes w.store outcome.2.store reason record outcome.1 ∧
        w.Tells outcome.2 record := by
  intro outcome
  have hrefused :
      (∃ e w', outcome = (.error e, w') ∧ w.Warned w' ∧ w.store.Unfit f.path reason place) →
      (∃ e, outcome.1 = .error e) ∧ w.Warned outcome.2 ∧ w.store.Unfit f.path reason place := by
    rintro ⟨e, w', ho, hwarned, hunfit⟩
    exact ⟨⟨e, by rw [ho]⟩, by rw [ho]; exact hwarned, hunfit⟩
  cases severity with
  | warning =>
    obtain h' | ⟨record, w', ⟨hentered, htells⟩, ho⟩ :=
      Action.warn_cases h reason place origin fun _ => pure ()
    · exact .inl (hrefused h')
    · have ho : outcome = (.ok (), w') := ho
      exact .inr ⟨record, by rw [ho]; exact hentered, by rw [ho]; rfl, by rw [ho]; exact htells⟩
  | info =>
    obtain ⟨e, w', ho, h'⟩ | ⟨record, w', ⟨hentered, htells⟩, ho⟩ :=
      Action.flagged_cases h "info" reason place origin .null fun record => pure record
    · exact .inl (hrefused ⟨e, w', Action.outcome_bind_error _ ho, h'⟩)
    · have ho : outcome = (.ok (), w') := Action.outcome_bind_ok _ ho
      exact .inr ⟨record, by rw [ho]; exact hentered, by rw [ho]; rfl, by rw [ho]; exact htells⟩
  | fatal =>
    obtain h' | ⟨record, w₁, ⟨hentered, htells⟩, ho⟩ :=
      Action.flagged_cases h "fail" reason place origin (.bool true) fun record => do
        throw (.fatal record (← Action.shown record) (Action.causeOf (← Action.store) reason))
    · exact .inl (hrefused h')
    · obtain ⟨text, w', htext, hw', hthrow⟩ := outcome_fatal h hentered
      have ho : outcome = (.error (.fatal record text (Action.causeOf w.store reason)), w') :=
        ho.trans hthrow
      refine .inr ⟨record, ?_, ⟨text, ?_, by rw [ho]⟩, ?_⟩
      · rw [ho]
        exact hw'.store ▸ hentered
      · rw [ho]
        exact (congrArg (·.shownText record) hw'.store).trans htext
      · rw [ho]
        exact htells.of_warned (.refl w) hw'

end Step

end VirtualFile
