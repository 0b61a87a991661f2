import VirtualFile.Proofs.World.Endings
/-!
# Reading parts of values

Reading an attribute leaves every cell as it is. It may add one: the history of a file is a new
tuple, the extras of options are a new dictionary. So what reading leaves as it is can be told from
the parts of the world that new containers leave as they are (`Action.fixes_readAttribute`).
-/

namespace VirtualFile

/-- Whether a cell is a list, a tuple or a dictionary. -/
def Cell.isContainer : Cell → Bool
  | .list _ | .tuple _ | .dict _ => true
  | _ => false

namespace Action
variable {γ : Type} {part : World → γ}

theorem fixes_ownAttribute (s : Store) (v : Value) (name : String) :
    (ownAttribute s v name).Fixes part := by
  rw [ownAttribute]
  split
  · exact fixes_pure _
  · exact fixes_throw _

theorem fixes_recordAttribute (name : String) (depth : Nat) (v : Value) :
    (recordAttribute name depth v).Fixes part := by
  induction depth generalizing v with
  | zero => exact fixes_throw _
  | succ depth ih =>
    rw [recordAttribute]
    refine fixes_store.bind fun s => ?_
    split
    · exact fixes_ite (ih _) (fixes_ownAttribute s v name)
    · exact fixes_ownAttribute s v name

theorem fixes_naming (f : File) : (naming f).Fixes part := by
  rw [naming]
  split
  · exact fixes_pure _
  · exact fixes_throw _

theorem fixes_ownItems (v : Value) : (ownItems v).Fixes part := by
  rw [ownItems]
  exact fixes_store.bind fun _ => fixes_ite (fixes_ofStore _) (fixes_pure _)

theorem fixes_ownEntries (v : Value) : (ownEntries v).Fixes part := by
  rw [ownEntries]
  exact fixes_store.bind fun _ => fixes_ite (fixes_ofStore _) (fixes_pure _)

section Containers
variable (halloc : ∀ c : Cell, c.isContainer → (alloc c).Fixes part)
include halloc

theorem fixes_history (f : File) : (history f).Fixes part := by
  rw [history]
  exact (fixes_naming f).bind fun n => halloc _ rfl

/-- **Reading an attribute** adds at most a container. -/
theorem fixes_readAttribute (v : Value) (name : String) : (readAttribute v name).Fixes part := by
  have hplain : ∀ s, (readAttribute.plain v name s).Fixes part :=
    fun s => fixes_ownAttribute s v name
  rw [readAttribute]
  refine fixes_store.bind fun s => ?_
  split
  · exact (fixes_naming _).bind fun n => fixes_ofStore _
  · exact fixes_ite (fixes_history halloc _) (hplain s)
  · refine fixes_ite ?_ (fixes_ite (fixes_pure _) (hplain s))
    exact (fixes_ofStore _).bind fun es => halloc _ rfl
  · exact fixes_ite (fixes_recordAttribute name _ _) (hplain s)
  · exact hplain s

theorem fixes_copyItems (v : Value) : (copyItems v).Fixes part := by
  rw [copyItems]
  exact (fixes_ofStore _).bind fun vs => halloc _ rfl

theorem fixes_copyEntries (v : Value) : (copyEntries v).Fixes part := by
  rw [copyEntries]
  exact (fixes_ofStore _).bind fun es => halloc _ rfl

end Containers

end Action

end VirtualFile
