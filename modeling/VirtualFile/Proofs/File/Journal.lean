import VirtualFile.Proofs.File.Log
import VirtualFile.Proofs.Naming.History
/-!
# The journal of a run

While facets are set, something is reported and the content is read, the journal tells of each path
that the file gets and of each message that joins its log, in the order of both, and of no others
(`journal_used`). The entries about paths lead from path to path, so the history of the file can be
read off them (`Renaming.Chained`).

* `CallNotes`: what one call of a setter notes.
* `NotesPaths`, `NotesMessages`: what a run notes.
-/

namespace VirtualFile
open VirtualFile.Path (Style)

/-! ### Paths -/

/-- **Changes of path that lead on from a history**: each is from the path that was current before
it, or from null if there was none. -/
def Renaming.Chained : List Text → List Renaming → Prop
  | _, [] => True
  | h, r :: rs => r.previous = .ofText? h.getLast? ∧ Chained (h ++ [r.path]) rs

theorem Renaming.Chained.append {h : List Text} {rs rs' : List Renaming} (hrs : Chained h rs)
    (hrs' : Chained (h ++ rs.map (·.path)) rs') : Chained h (rs ++ rs') := by
  induction rs generalizing h with
  | nil => simpa using hrs'
  | cons r rs ih => exact ⟨hrs.1, ih hrs.2 (by simpa using hrs')⟩

/-- **What one call of a setter notes.** Either the history stays and the journal too, or the call
returns, there is one path more, and one entry of it with the path that was current before. -/
def CallNotes (w : World) (v : Value) (st : Style) (h : List Text) (facet : Facet)
    (new : Value) : Prop :=
  ∀ outcome, (Action.setFacet v facet new).outcome w = outcome →
    (outcome.2.journal = w.journal ∧ outcome.2.store.Named v st h) ∨
    outcome.1 = .ok () ∧ ∃ p, outcome.2.journal = w.journal ++ [.renamed ⟨p, .ofText? h.getLast?⟩] ∧
      outcome.2.store.Named v st (h ++ [p])

/-- **What a run notes about paths**: the paths that the file has got, one after the other. -/
def NotesPaths (w w' : World) (v : Value) (st : Style) (h : List Text) : Prop :=
  ∃ rs : List Renaming, w'.pathEntries = w.pathEntries ++ rs.map .renamed ∧ Renaming.Chained h rs ∧
    w'.store.Named v st (h ++ rs.map (·.path))

section Paths
variable {w w' w'' : World} {v : Value} {st : Style} {h : List Text}

theorem NotesPaths.same (hv : w.store.Named v st h) (hentries : w'.pathEntries = w.pathEntries)
    (hfiles : w'.files = w.files) : NotesPaths w w' v st h := by
  refine ⟨[], by simpa using hentries, trivial, ?_⟩
  obtain ⟨f, hf, hn⟩ := hv
  exact ⟨f, (congrFun hfiles v).trans hf, by simpa using hn⟩

theorem NotesPaths.then (hnotes : NotesPaths w w' v st h)
    (hnext : ∀ h', w'.store.Named v st h' → NotesPaths w' w'' v st h') :
    NotesPaths w w'' v st h := by
  obtain ⟨rs, hentries, hchained, hnamed⟩ := hnotes
  obtain ⟨rs', hentries', hchained', hnamed'⟩ := hnext _ hnamed
  refine ⟨rs ++ rs', ?_, hchained.append hchained', ?_⟩
  · rw [hentries', hentries, List.map_append, List.append_assoc]
  · rwa [List.map_append, ← List.append_assoc]

theorem callNotes (hv : w.store.Named v st h) (facet : Facet) (new : Value) :
    CallNotes w v st h facet new := by
  rintro _ rfl
  obtain ⟨f, hf, hn⟩ := id hv
  obtain ⟨r, rfl⟩ := Store.exists_ref (Store.cell?_eq_of_file? hf)
  have hset := Naming.set_yields w.store ⟨st, h.map .text⟩ new facet
  rw [Action.outcome_setFacet hf hn]
  cases hres : Naming.set w.store ⟨st, h.map .text⟩ facet new with
  | error e => exact .inl ⟨rfl, hv⟩
  | ok m =>
    rw [hres] at hset
    obtain ⟨p, -, rfl⟩ := hset
    have hnamed : (Action.renamed w r f (Naming.rename ⟨st, h.map .text⟩ p)).store.Named (.ref r) st
        (Naming.visit h p) := named_renamed hf p
    have hjournal : (Action.renamed w r f (Naming.rename ⟨st, h.map .text⟩ p)).journal =
        w.journal ++ (Naming.rename ⟨st, h.map .text⟩ p).2.map .renamed := rfl
    rw [Naming.rename_snd] at hjournal
    rw [Naming.visit] at hnamed
    by_cases hp : h.getLast? = some p
    · rw [if_pos hp] at hnamed hjournal
      exact .inl ⟨hjournal.trans (List.append_nil _), hnamed⟩
    · rw [if_neg hp] at hnamed hjournal
      exact .inr ⟨rfl, p, hjournal, hnamed⟩

theorem CallNotes.notesPaths {facet : Facet} {new : Value} (hcall : CallNotes w v st h facet new) :
    NotesPaths w ((Action.setFacet v facet new).outcome w).2 v st h := by
  obtain ⟨hjournal, hnamed⟩ | ⟨-, p, hjournal, hnamed⟩ := hcall _ rfl
  · exact ⟨[], by simp [World.pathEntries, hjournal], trivial, by simpa using hnamed⟩
  · refine ⟨[⟨p, .ofText? h.getLast?⟩], ?_, ⟨rfl, trivial⟩, hnamed⟩
    rw [World.pathEntries, hjournal, List.filter_append]
    rfl

/-- **What one use notes about paths.** Only setters note them. -/
theorem notesPaths_run (hv : w.store.Named v st h) {u : Use} (hu : u.SparesLog) :
    NotesPaths w ((u.run v).outcome w).2 v st h := by
  cases u with
  | edit e =>
    cases e with
    | facet facet new => exact (callNotes hv facet new).notesPaths
    | report severity reason place origin =>
      exact .same hv
        (Action.fixes_report World.secluded_pathEntries
          (fun _ _ _ => (List.filter_append _ _).trans (List.append_nil _)) v severity reason place
            origin w)
        (Action.fixes_report World.secluded_files
          (fun _ _ _ => rfl) v severity reason place origin w)
    | _ => exact hu.elim
  | content encoding =>
    have hwarned := warned_content v encoding w
    exact .same hv hwarned.pathEntries (congrArg Store.file? hwarned.store)
  | _ => exact hu.elim

/-- **A run of uses**, by induction on them. -/
theorem notesPaths_used (hv : w.store.Named v st h) {us : List Use} (hus : ∀ u ∈ us, u.SparesLog) :
    NotesPaths w (used v w us) v st h := by
  induction us generalizing w h with
  | nil => exact .same hv rfl rfl
  | cons u us ih =>
    obtain ⟨hu, hus⟩ := List.forall_mem_cons.mp hus
    exact (notesPaths_run hv hu).then fun h' hv' => ih hv' hus

end Paths

/-! ### Messages -/

/-- **What a run notes about messages**: the names and the reasons of
the records that have joined the log. -/
def NotesMessages (w w' : World) (v : Value) (log : List Value) : Prop :=
  ∃ f' records told, w'.store.Logs v f' (log ++ records) ∧ w'.reports = w.reports ++ told ∧
    List.Forall₂ w'.store.Says told records

section Messages
variable {w w' w'' : World} {v : Value} {f : File} {log : List Value}

theorem NotesMessages.same (h : w'.store.Logs v f log) (hreports : w'.reports = w.reports) :
    NotesMessages w w' v log :=
  ⟨f, [], [], by simpa using h, by simpa using hreports, .nil⟩

theorem NotesMessages.of_warned (h : w.store.Logs v f log) (hwarned : w.Warned w') :
    NotesMessages w w' v log :=
  .same (hwarned.store.symm ▸ h) hwarned.reports

theorem fixes_reports_setFacet (v : Value) (facet : Facet) (new : Value) :
    (Action.setFacet v facet new).Fixes World.reports := by
  have hnotes : ∀ rs : List Renaming,
      (rs.forM fun x => Action.note (.renamed x)).Fixes World.reports := by
    intro rs w
    have hnone : (rs.map Entry.renamed).filterMap Entry.report? = [] := by
      simp [List.filterMap_map, Entry.report?]
    rw [Action.outcome_notes, World.reports, List.filterMap_append, hnone, List.append_nil,
      World.reports]
  rw [Action.setFacet]
  refine (Action.fixes_file v).bind fun _ => (Action.fixes_naming _).bind fun n => ?_
  refine (Action.fixes_ofStore _).bind fun m => ?_
  exact Action.Fixes.bind (fun _ => rfl) fun _ => hnotes m.2

/-- **What one use notes about messages.** Only reports that are entered note them. -/
theorem notesMessages_run (h : w.store.Logs v f log) {u : Use} (hu : u.SparesLog) :
    NotesMessages w ((u.run v).outcome w).2 v log := by
  cases u with
  | edit e =>
    cases e with
    | facet facet new =>
      obtain ⟨f', hlogs, -⟩ := Action.logs_setFacet h facet new
      exact .same hlogs (fixes_reports_setFacet v facet new w)
    | report severity reason place origin =>
      obtain ⟨-, hwarned, -⟩ | ⟨record, hentered, -, told, hsays, hreports⟩ :=
        report_cases h severity reason place origin
      · exact .of_warned h hwarned
      · exact ⟨f, [record], [told], hentered.log, hreports, .cons hsays .nil⟩
    | _ => exact hu.elim
  | content encoding => exact .of_warned h (warned_content v encoding w)
  | _ => exact hu.elim

/-- **A run of uses**, by induction on them. A record keeps its name
and its reason while the log grows. -/
theorem notesMessages_used (h : w.store.Logs v f log) {us : List Use}
    (hus : ∀ u ∈ us, u.SparesLog) : NotesMessages w (used v w us) v log := by
  induction us generalizing w f log with
  | nil => exact .same h rfl
  | cons u us ih =>
    obtain ⟨hu, hus⟩ := List.forall_mem_cons.mp hus
    obtain ⟨f₁, records₁, told₁, h₁, hreports₁, hsays₁⟩ := notesMessages_run h hu
    obtain ⟨f₂, records₂, told₂, h₂, hreports₂, hsays₂⟩ := ih h₁ hus
    refine ⟨f₂, records₁ ++ records₂, told₁ ++ told₂, ?_, ?_,
      List.rel_append (hsays₁.imp ?_) hsays₂⟩
    · rwa [← List.append_assoc]
    · rw [← List.append_assoc, ← hreports₁]
      exact hreports₂
    · rintro told record ⟨m, hm, hsays⟩
      exact ⟨m, (logs_used h₁ hus).message? h₁ hm, hsays⟩

end Messages

/-- **The journal is faithful.** Over any run in which facets are set, something is reported and the
content is read, whatever the arguments are:
* the entries about paths are one for each path that the file gets, in their order, each
  with the path that was current before, so that the history after the run is the one
  before it and the paths of the entries;
* at each moment a call of a setter that is refused or leaves the
  history as it is adds nothing to the journal;
* the names and reasons of messages are those of the records that join the log, in their order. -/
theorem journal_used {w : World} {v : Value} {us : List Use} (hus : ∀ u ∈ us, u.SparesLog) :
    (∀ st h, w.store.Named v st h → NotesPaths w (used v w us) v st h ∧
      ∀ before facet new later, us = before ++ .edit (.facet facet new) :: later →
        ∃ h', (used v w before).store.Named v st h' ∧
        CallNotes (used v w before) v st h' facet new) ∧
    ∀ f log, w.store.Logs v f log → NotesMessages w (used v w us) v log := by
  refine ⟨fun st h hv => ⟨notesPaths_used hv hus, ?_⟩, fun f log h => notesMessages_used h hus⟩
  rintro before facet new later rfl
  obtain ⟨rs, -, -, hv'⟩ := notesPaths_used hv fun u hu => hus u (List.mem_append_left _ hu)
  exact ⟨_, hv', callNotes hv' facet new⟩

/-- A stem that is set twice, an extension that is refused, a fatal error and a warning. -/
def mishaps : List Use :=
  [.edit (.facet .stem (.ofString "b")), .edit (.facet .extname (.int 1)), breakdown,
    .edit (.facet .stem (.ofString "b")), .content .null] ++ complaints

/-- One path and two messages are told. -/
theorem journal_used_named : ∃ rs : List Renaming, ∃ records told,
    (used (.ref 7) named mishaps).pathEntries = named.pathEntries ++ rs.map .renamed ∧
      rs.map (·.path) = ["b.txt".toList] ∧
      (used (.ref 7) named mishaps).reports = named.reports ++ told ∧
      told.map (·.2) = ["boom".toList, "odd".toList] ∧
      List.Forall₂ (used (.ref 7) named mishaps).store.Says told records := by
  have hmade : ((Construction.path (.ofString "a.txt")).run (Maker.ofSettings {})).outcome {} =
      (.ok (.ref 7), named) := by
    rw [named]
    exact Action.outcome_of_fst (by decide +kernel)
  obtain ⟨f, log, hlogs, -⟩ := ((Construction.path (.ofString "a.txt")).ends_logs _ _).of_ok hmade
  have hnaming : (named.store.file? (.ref 7)).bind File.naming =
      some ⟨.posix, ["a.txt".toList].map .text⟩ := by
    decide +kernel
  rw [Store.file?_of_cell? hlogs.file, Option.bind_some] at hnaming
  have hmishaps : ∀ u ∈ mishaps, u.SparesLog := by
    simp [mishaps, complaints, breakdown, Use.SparesLog]
  have hnaming' : ((used (.ref 7) named mishaps).store.file? (.ref 7)).bind File.naming =
      some ⟨.posix, (["a.txt".toList] ++ ["b.txt".toList]).map .text⟩ := by decide +kernel
  have htold' : (used (.ref 7) named mishaps).reports.map (·.2) =
      named.reports.map (·.2) ++ ["boom".toList, "odd".toList] := by decide +kernel
  obtain ⟨hpaths, hmessages⟩ := journal_used (w := named) (v := .ref 7) hmishaps
  obtain ⟨⟨rs, hentries, -, g, hg, hn⟩, -⟩ :=
    hpaths .posix _ ⟨f, Store.file?_of_cell? hlogs.file, hnaming⟩
  obtain ⟨-, records, told, -, hreports, hsays⟩ := hmessages f log hlogs
  refine ⟨rs, records, told, hentries, ?_, hreports, ?_, hsays⟩
  · rw [hg, Option.bind_some, hn] at hnaming'
    have hhistory := congrArg Naming.history (Option.some.inj hnaming')
    exact List.append_cancel_left (List.map_injective_iff.mpr (fun _ _ => Value.text.inj) hhistory)
  · rw [hreports, List.map_append] at htold'
    exact List.append_cancel_left htold'

end VirtualFile
