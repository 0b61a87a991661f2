import VirtualFile.Proofs.World.Endings
/-!
# What the journal says

The journal is read by who writes to it: the entries about paths, and those that give the name and
the reason of a message (`World.pathEntries`, `World.reports`). Showing a value adds at most
warnings about encodings, which are neither (`World.Warned`).
-/

namespace VirtualFile

/-- The name and the reason of a message that an entry gives. -/
def Entry.report? : Entry → Option (Text × Text)
  | .recorded name reason => some (name, reason)
  | _ => none

/-- Whether an entry is about a path. -/
def Entry.isAboutPath (e : Entry) : Bool := e.source == "vfile.domain.value_objects.path_identity"

namespace World

/-- **The entries about paths.** -/
def pathEntries (w : World) : List Entry := w.journal.filter Entry.isAboutPath

/-- **The names and reasons of messages** that the journal gives. -/
def reports (w : World) : List (Text × Text) := w.journal.filterMap Entry.report?

/-- **A world to whose journal warnings have been added**, and nothing else. -/
def Warned (w w' : World) : Prop :=
  ∃ warnings : List Entry, (∀ e ∈ warnings, e.level = .warning) ∧
  w' = { w with journal := w.journal ++ warnings }

variable {w w' w'' : World}

theorem Warned.refl (w : World) : w.Warned w := ⟨[], by simp, by simp⟩

theorem Warned.trans (h : w.Warned w') (h' : w'.Warned w'') : w.Warned w'' := by
  obtain ⟨es, hes, rfl⟩ := h
  obtain ⟨fs, hfs, rfl⟩ := h'
  exact ⟨es ++ fs, List.forall_mem_append.mpr ⟨hes, hfs⟩, by simp⟩

theorem Warned.store (h : w.Warned w') : w'.store = w.store := by
  obtain ⟨-, -, rfl⟩ := h
  rfl

theorem warning_cases {e : Entry} (h : e.level = .warning) : e.isAboutPath = false ∧
    e.report? = none := by
  cases e with
  | unknownEncoding label path fallback => exact ⟨rfl, rfl⟩
  | _ => exact absurd h (by simp [Entry.level])

theorem Warned.pathEntries (h : w.Warned w') : w'.pathEntries = w.pathEntries := by
  obtain ⟨es, hes, rfl⟩ := h
  have hnone : es.filter Entry.isAboutPath = [] :=
    List.filter_eq_nil_iff.mpr fun e he => by simp [(warning_cases (hes e he)).1]
  rw [World.pathEntries, List.filter_append, hnone, List.append_nil, World.pathEntries]

theorem Warned.reports (h : w.Warned w') : w'.reports = w.reports := by
  obtain ⟨es, hes, rfl⟩ := h
  have hnone : es.filterMap Entry.report? = [] :=
    List.filterMap_eq_nil_iff.mpr fun e he => (warning_cases (hes e he)).2
  rw [World.reports, List.filterMap_append, hnone, List.append_nil, World.reports]

end World

end VirtualFile
