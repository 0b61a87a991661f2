import VirtualFile.Proofs.Maker.Blank
import VirtualFile.Proofs.Maker.CopyFields
/-!
# Who asks for the working directory

A maker asks for the working directory of a new file, and only if the options name none
(`Maker.fixes_asked_blank`). Reading the options for a copy off a file and checking them does not
ask (`Action.fixes_asked_optionsOfFile`).
-/

namespace VirtualFile

namespace Action

/-! ### Options -/

theorem fixes_asked_newOptions (c : Checked) : (newOptions c).Fixes World.asked := by
  have hlist : ∀ vs, (allocList? vs).Fixes World.asked := fun vs => by
    cases vs with
    | none => exact fixes_pure _
    | some vs => exact fixes_asked_alloc _
  have hdict : ∀ es, (allocDict? es).Fixes World.asked := fun es => by
    cases es with
    | none => exact fixes_pure _
    | some es => exact fixes_asked_alloc _
  rw [newOptions]
  exact (hlist _).bind fun _ => (hdict _).bind fun _ => (hlist _).bind fun _ =>
    (fixes_asked_alloc _).bind
    fun _ => (fixes_asked_alloc _).bind fun _ => fixes_asked_alloc _

theorem fixes_asked_checkOptions (es : Entries) : (checkOptions es).Fixes World.asked := by
  rw [checkOptions]
  refine fixes_store.bind fun s => ?_
  split
  · exact fixes_asked_newOptions _
  · exact fixes_throw _

theorem fixes_asked_optionsOfFile (v : Value) : (optionsOfFile v).Fixes World.asked := by
  rw [optionsOfFile_eq]
  exact (fixes_readCopy (fun c _ => fixes_asked_alloc c) v).bind fixes_asked_checkOptions

/-! ### The file -/

theorem fixes_asked_newFile (n : Naming) (parts : FileParts) :
    (newFile n parts).Fixes World.asked := by
  rw [newFile]
  refine fixes_ite_bind ((fixes_ite (fixes_asked_alloc _) (fixes_pure _)).bind fun data => ?_)
  exact (fixes_ownItems _).bind fun _ => (fixes_asked_alloc _).bind fun _ =>
    (fixes_ownEntries _).bind fun _ => (fixes_asked_alloc _).bind fun _ => fixes_asked_alloc _

end Action

namespace Maker
variable {m : Maker} {o : Options}

theorem fixes_asked_blank (ho : o.cwd ≠ .null) : (m.blank o).Fixes World.asked := by
  have hnaming : (Action.newNaming m.style o.history).Fixes World.asked := by
    rw [Action.newNaming]
    exact (Action.fixes_ownItems _).bind fun _ => Action.fixes_pure _
  rw [blank]
  refine hnaming.bind fun naming => ?_
  rw [if_neg ho]
  exact (Action.fixes_pure _).bind fun _ => (Action.fixes_ofStore _).bind fun _ =>
    (Action.fixes_asked_alloc _).bind fun _ => Action.fixes_asked_newFile _ _

end Maker

end VirtualFile
