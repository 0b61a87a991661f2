import VirtualFile.Proofs.File.Report
/-!
# The log of a file

While facets are set, something is reported and the content is read, the log of a file only grows,
by one record for each report that is not refused. Neither a record nor its place in the log ever
changes after that (`Construction.log_used`).

* `Store.Grows`, `logs_run`, `logs_used`: one use of a file, and the induction over a run of them.
* `ReportStep`, `LogStep`: what one use does to the log.
-/

namespace VirtualFile

/-! ### Runs -/

/-- Whether a use leaves the log to reports: a facet is set, something
is reported, or the content is read. -/
def Use.SparesLog : Use → Prop
  | .edit (.facet _ _) | .edit (.report _ _ _ _) | .content _ => True
  | _ => False

/-- **A log that has only grown.** No cell that was there has changed but the file and its list. -/
def Store.Grows (s s' : Store) (v : Value) (f : File) (log : List Value) : Prop :=
  ∃ f' log', s'.Logs v f' log' ∧ log <+: log' ∧ f'.messages = f.messages ∧
  s.Keeps s' [v, f.messages]

namespace Store
variable {s s' s'' : Store} {v : Value} {f : File} {log : List Value}

theorem Logs.grows (h : s.Logs v f log) : s.Grows s v f log :=
  ⟨f, log, h, List.prefix_rfl, rfl, (Extends.refl s).keeps _⟩

theorem Grows.then (h : s.Grows s' v f log)
    (hnext : ∀ f' log', s'.Logs v f' log' → s'.Grows s'' v f' log') : s.Grows s'' v f log := by
  obtain ⟨f₁, log₁, hlogs, hprefix, hmessages, hkeeps⟩ := h
  obtain ⟨f₂, log₂, hlogs₂, hprefix₂, hmessages₂, hkeeps₂⟩ := hnext f₁ log₁ hlogs
  rw [hmessages] at hmessages₂ hkeeps₂
  exact ⟨f₂, log₂, hlogs₂, hprefix.trans hprefix₂, hmessages₂, hkeeps.trans hkeeps₂⟩

theorem Enters.grows {reason place origin fatal record : Value}
    (h : s.Enters s' v f log reason place origin fatal record) : s.Grows s' v f log :=
  ⟨f, log ++ [record], h.log, List.prefix_append _ _, rfl, h.keeps.mono (by simp)⟩

theorem Grows.message? (hlogs : s.Logs v f log) (h : s.Grows s' v f log) {u : Value} {m : Message}
    (hm : s.message? u = some m) : s'.message? u = some m := by
  obtain ⟨f', log', -, -, -, hkeeps⟩ := h
  have hc := message?_eq_some.mp hm
  refine message?_eq_some.mpr (hkeeps _ _ hc ?_)
  simp only [List.mem_cons, List.not_mem_nil, or_false, not_or]
  constructor
  · rintro rfl
    exact absurd hlogs.file (by simp [hc])
  · rintro rfl
    exact absurd hlogs.messages (by simp [hc])

end Store

section Run
variable {w : World} {v : Value} {f : File} {log : List Value}

theorem logs_facet (h : w.store.Logs v f log) (facet : Facet) (new : Value) :
    w.store.Grows ((Action.setFacet v facet new).outcome w).2.store v f log := by
  have hkeeps := Action.keeps_setFacet (Store.file?_of_cell? h.file) facet new
  obtain ⟨f', hlogs, rfl | ⟨n, p, -, -, rfl⟩⟩ := Action.logs_setFacet h facet new
  · exact ⟨f', log, hlogs, List.prefix_rfl, rfl, hkeeps.mono (by simp)⟩
  · exact ⟨_, log, hlogs, List.prefix_rfl, rfl, hkeeps.mono (by simp)⟩

theorem warned_content (v encoding : Value) (w : World) :
    w.Warned (((Use.content encoding).run v).outcome w).2 :=
  ((Action.consults_content v encoding).bind fun _ => Action.consults_pure ()).warned w

/-- **One use** lets the log grow. -/
theorem logs_run (h : w.store.Logs v f log) {u : Use} (hu : u.SparesLog) :
    w.store.Grows ((u.run v).outcome w).2.store v f log := by
  cases u with
  | edit e =>
    cases e with
    | facet facet new => exact logs_facet h facet new
    | report severity reason place origin =>
      obtain ⟨-, hwarned, -⟩ | ⟨record, hentered, -⟩ := report_cases h severity reason place origin
      · exact hwarned.store.symm ▸ h.grows
      · exact hentered.grows
    | _ => exact hu.elim
  | content encoding => exact (warned_content v encoding w).store.symm ▸ h.grows
  | _ => exact hu.elim

/-- **A run of uses** lets the log grow. -/
theorem logs_used (h : w.store.Logs v f log) {us : List Use} (hus : ∀ u ∈ us, u.SparesLog) :
    w.store.Grows (used v w us).store v f log := by
  induction us generalizing w f log with
  | nil => exact h.grows
  | cons u us ih =>
    obtain ⟨hu, hus⟩ := List.forall_mem_cons.mp hus
    exact (logs_run h hu).then fun f' log' h' => ih h' hus

end Run

/-! ### Logs over whole runs -/

/-- **What one report does to the log.** If its place leads to an innermost one, it is refused and
changes nothing, for what cannot be shown, or it is entered. -/
def ReportStep (w : World) (v : Value) (f : File) (log : List Value) (severity : Severity)
    (reason place origin : Value) : Prop :=
  ∀ x outcome, w.store.Innermost place x →
  ((Edit.report severity reason place origin).run v).outcome w = outcome →
    ((∃ e, outcome.1 = .error e) ∧ outcome.2.store = w.store ∧
      ((∃ a b, x = .position a b ∧ ¬ (a.isPoint ∧ b.isPoint)) ∨
        (∃ e, w.store.shownText reason = .error e) ∨
        ∃ e, w.store.shownText f.path = .error e)) ∨
    ∃ record, w.store.Enters outcome.2.store v f log reason place origin severity.flag record ∧
      severity.Concludes w.store outcome.2.store reason record outcome.1

/-- **What one use does to the log.** All but reports leave it as it is. -/
def LogStep (w : World) (v : Value) (f : File) (log : List Value) : Use → Prop
  | .edit (.report severity reason place origin) =>
    ReportStep w v f log severity reason place origin
  | u => ∃ f', ((u.run v).outcome w).2.store.Logs v f' log

theorem logStep {w : World} {v : Value} {f : File} {log : List Value} (h : w.store.Logs v f log)
    {u : Use} (hu : u.SparesLog) : LogStep w v f log u := by
  cases u with
  | edit e =>
    cases e with
    | facet facet new =>
      obtain ⟨f', hlogs, -⟩ := Action.logs_setFacet h facet new
      exact ⟨f', hlogs⟩
    | report severity reason place origin =>
      rintro x _ hx rfl
      obtain ⟨herror, hwarned, hunfit⟩ | ⟨record, hentered, hconcludes, -⟩ :=
        report_cases h severity reason place origin
      · refine .inl ⟨herror, hwarned.store, hunfit.imp_left fun hplace => ?_⟩
        by_contra hpoints
        exact hplace (hx.canRead fun a b hab => not_not.mp fun hends => hpoints ⟨a, b, hab, hends⟩)
      · exact .inr ⟨record, hentered, hconcludes⟩
    | _ => exact hu.elim
  | content encoding => exact ⟨f, (warned_content v encoding w).store.symm ▸ h⟩
  | _ => exact hu.elim

/-- **The log of a file over whole runs.** However a file is made, at each moment of a run
every use does to its log what is said above, and after that the log only grows: its
records keep their order, and no message changes. -/
theorem Construction.log_used {m : Maker} {k : Construction} {w₀ w₁ : World} {file : Value}
    (hmade : (k.run m).outcome w₀ = (.ok file, w₁)) {before later : List Use} {u : Use}
    (hbefore : ∀ u ∈ before, u.SparesLog) (hu : u.SparesLog) (hlater : ∀ u ∈ later, u.SparesLog) :
    let w := used file w₁ before
    let w' := ((u.run file).outcome w).2
    ∃ f log, w.store.Logs file f log ∧ LogStep w file f log u ∧
      ∃ f' log', w'.store.Logs file f' log' ∧
        ∃ f'' log'', (used file w' later).store.Logs file f'' log'' ∧ log' <+: log'' ∧
          ∀ record m, w'.store.message? record = some m →
          (used file w' later).store.message? record = some m := by
  intro w w'
  obtain ⟨f₀, log₀, h₀, -⟩ := (k.ends_logs m w₀).of_ok hmade
  obtain ⟨f, log, h, -⟩ := logs_used h₀ hbefore
  obtain ⟨f', log', h', -⟩ := logs_run h hu
  have hgrows := logs_used h' hlater
  obtain ⟨f'', log'', h'', hprefix, -⟩ := id hgrows
  exact ⟨f, log, h, logStep h hu, f', log', h', f'', log'', h'', hprefix,
    fun _ _ => hgrows.message? h'⟩

/-- The world with an empty file that has a path, made as the settings say by default. -/
def named : World :=
  (((Construction.path (.ofString "a.txt")).run (Maker.ofSettings {})).outcome {}).2

/-- A warning. -/
def complaints : List Use := [.edit (.report .warning (.ofString "odd") .null .null)]

/-- A fatal error at a point. -/
def breakdown : Use :=
  .edit (.report .fatal (.ofString "boom") (.point (.int 2) (.int 3) .null) .null)

/-- A fatal error keeps its flag and its reason when the file is
renamed and reported on after it. -/
theorem Construction.log_used_named : ∃ record m,
    (used (.ref 7) ((breakdown.run (.ref 7)).outcome (used (.ref 7) named complaints)).2
      (.edit (.facet .stem (.ofString "b")) :: complaints)).store.message? record = some m ∧
      m.fatal = .bool true ∧ m.reason = .ofString "boom" := by
  have hmade : ((Construction.path (.ofString "a.txt")).run (Maker.ofSettings {})).outcome {} =
      (.ok (.ref 7), named) := by
    rw [named]
    exact Action.outcome_of_fst (by decide +kernel)
  have hbefore : ∀ u ∈ complaints, u.SparesLog := by simp [complaints, Use.SparesLog]
  have hlater : ∀ u ∈ Use.edit (.facet .stem (.ofString "b")) :: complaints, u.SparesLog := by
    simp [complaints, Use.SparesLog]
  have hrun := Construction.log_used (u := breakdown) hmade hbefore trivial hlater
  have hpath : ((used (.ref 7) named complaints).store.file? (.ref 7)).map File.path =
      some (.ofString "a.txt") := by
    decide +kernel
  -- nothing else has to be known of the world
  generalize used (.ref 7) named complaints = w at hrun hpath ⊢
  obtain ⟨f, log, hlogs, hstep, f', log', -, f'', log'', -, -, hkept⟩ := hrun
  rw [Store.file?_of_cell? hlogs.file, Option.map_some, Option.some_inj] at hpath
  obtain ⟨-, -, hunfit⟩ | ⟨record, hentered, -⟩ :=
    hstep (.point (.int 2) (.int 3) .null) _ ⟨.here _, rfl⟩ rfl
  · obtain ⟨a, b, hab, -⟩ | ⟨e, he⟩ | ⟨e, he⟩ := hunfit
    · exact absurd hab (by simp)
    · exact absurd he (by simp [Value.ofString, Store.shownText_text])
    · exact absurd he (by simp [hpath, Value.ofString, Store.shownText_text])
  · obtain ⟨m, hm, hreports⟩ := hentered.message
    obtain ⟨t, ht, hreason⟩ := hreports.reason
    obtain rfl : "boom".toList = t := Except.ok.inj ht
    exact ⟨record, m, hkept record m hm, hreports.fatal, hreason⟩

/-- Makes a file that is its own content, so that it has no text. -/
def makeSelfHeld : Action Value := do
  let file ← (Maker.ofSettings {}).make .null
  Action.assign file "value" file
  return file

/-- Makes a file, and an error about one that has no text. -/
def makeUntold : Action (Value × Value) := do
  let args ← Action.alloc (.tuple [← makeSelfHeld])
  let reason ← Action.alloc (.failure { kind := .badValue, label := "ValueError", args })
  return (← (Maker.ofSettings {}).make .null, reason)

/-- Makes a file whose record of options has been given a path that has no text. -/
def makeUnnamed : Action Value := do
  let history ← Action.alloc (.list [← makeSelfHeld])
  let record ← Action.checkOptions []
  Action.assign record "history" history
  (Maker.ofSettings {}).ofOptions record

/-- **Reasons and paths without a text** cannot be reported: no record is made, though there is no
place that could not be read. -/
theorem warn_withoutText :
    (∃ file reason w, makeUntold.outcome {} = (.ok (file, reason), w) ∧
      ((Action.warn file reason .null .null).outcome w).1 = .error .tooDeep) ∧
    ∃ file w, makeUnnamed.outcome {} = (.ok file, w) ∧
      ((Action.warn file (.ofString "odd") .null .null).outcome w).1 = .error .tooDeep := by
  refine ⟨⟨.ref 17, .ref 9, _, Action.outcome_of_fst ?_, ?_⟩, .ref 16, _,
    Action.outcome_of_fst ?_, ?_⟩
  · decide +kernel
  · decide +kernel
  · decide +kernel
  · decide +kernel

end VirtualFile
