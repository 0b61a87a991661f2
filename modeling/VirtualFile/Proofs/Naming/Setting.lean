import Mathlib.Tactic.SplitIfs
import VirtualFile.Naming
/-!
# What setting a facet does

Every setter ends by making some non-empty text the current path, or is refused before it has
changed anything. Which refusals there are is settled here once, for arguments of every kind: faults
of the library's own family, and the two that tell of a value of the wrong kind (`Fault.IsRefusal`).

* `Yields`: what an operation returns, unless it is refused.
* `Naming.set_yields`: every setter renames.
* `Naming.visit`, `Naming.rename_fst`: what renaming does to the history.
-/

namespace VirtualFile

/-- A refusal that callers of a setter have to expect. -/
def Fault.IsRefusal (e : Fault) : Prop :=
  e.kind.isFileError = true ∨ e.kind = .mistyped ∨ e.kind = .noAttribute

/-- **What an operation yields**: a result with a property, or a refusal. -/
def Yields {α : Type} (P : α → Prop) : Except Fault α → Prop
  | .ok a => P a
  | .error e => e.IsRefusal

section Yields
variable {α β : Type} {P : α → Prop} {Q : β → Prop}

theorem Yields.bind {x : Except Fault α} {f : α → Except Fault β} (hx : Yields P x)
    (hf : ∀ a, P a → Yields Q (f a)) : Yields Q (x >>= f) := by
  cases x with
  | ok a => exact hf a hx
  | error e => exact hx

theorem Yields.then {x : Except Fault α} {f : α → Except Fault β} (hx : Yields (fun _ => True) x)
    (hf : ∀ a, Yields Q (f a)) : Yields Q (x >>= f) :=
  hx.bind fun a _ => hf a

theorem Yields.map {x : Except Fault α} {f : α → β} (hx : Yields (fun _ => True) x) :
    Yields (fun _ => True) (x.map f) := by
  cases x with
  | ok a => trivial
  | error e => exact hx

theorem yields_throw_bind {γ : Type} {e : Fault} (he : e.IsRefusal) (f : γ → Except Fault β) :
    Yields Q ((throw e : Except Fault γ) >>= f) := he

theorem isRefusal_mistyped : Fault.IsRefusal .mistyped := Or.inr (Or.inl rfl)

theorem isRefusal_noAttribute : Fault.IsRefusal .noAttribute := Or.inr (Or.inr rfl)

theorem isRefusal_family {e : Fault} (h : e.kind.isFileError = true) : e.IsRefusal := Or.inl h

end Yields

/-! ### Reading the argument -/

namespace Store
variable (s : Store) (v : Value)

theorem filePath_yields (st : Path.Style) (host path : Text) :
    Yields (fun _ => True) ((Url.filePath st host path).mapError .url) := by
  cases Url.filePath st host path with
  | ok p => trivial
  | error f => exact isRefusal_family rfl

theorem urlPath_yields (st : Path.Style) : Yields (fun _ => True) (s.urlPath st v) := by
  rw [urlPath]
  split_ifs with hscheme
  · exact isRefusal_family rfl
  · dsimp only
    split
    · exact filePath_yields _ _ _
    · split_ifs
      · exact isRefusal_family rfl
      · exact isRefusal_mistyped
    · exact isRefusal_family rfl
    · split_ifs
      · exact isRefusal_family rfl
      · exact isRefusal_mistyped
    · exact isRefusal_mistyped

theorem pathSource_yields (st : Path.Style) : Yields (fun _ => True) (s.pathSource st v) := by
  rw [pathSource]
  split_ifs with hurl
  · exact (urlPath_yields s v st).map
  · split
    · split
      · trivial
      · trivial
      · exact isRefusal_mistyped
    · trivial

theorem isRefusal_textFault (operation : String) : (s.textFault operation v).IsRefusal := by
  rw [textFault.eq_def]
  split
  · exact isRefusal_mistyped
  · exact isRefusal_mistyped
  · split_ifs
    · exact isRefusal_mistyped
    · exact isRefusal_noAttribute

theorem items_yields : Yields (fun _ => True) (s.items v) := by
  rw [items.eq_def]
  split
  · trivial
  · trivial
  · split
    all_goals first | trivial | exact isRefusal_mistyped

theorem equal_text (w : Value) (t : Text) : ∃ b, s.equal w (.text t) = .ok b := by
  rw [equal, equalTo.eq_def]
  simp only
  split <;> first
    | exact ⟨_, rfl⟩
    | (split <;> exact ⟨_, rfl⟩)
    | simp_all

theorem isAmong_text_yields (t : Text) (ws : List Value) :
    Yields (fun _ => True) (s.isAmong (.text t) ws) := by
  induction ws with
  | nil => trivial
  | cons w ws ih =>
    obtain ⟨b, hb⟩ := equal_text s w t
    rw [isAmong, hb]
    cases b with
    | true => trivial
    | false => exact ih

theorem checkPart_yields (sep : Char) (facet : Facet)
    (hf : facet = .basename ∨ facet = .stem ∨ facet = .extname) :
    Yields (fun _ => True) (s.checkPart sep facet v) := by
  have hpart : Fault.IsRefusal (.partIsPath facet sep) := by
    rcases hf with rfl | rfl | rfl <;> exact isRefusal_family rfl
  rw [checkPart.eq_def]
  split_ifs with htrue
  · trivial
  · split
    · split_ifs
      · exact hpart
      · trivial
    · exact isRefusal_mistyped
    · exact isRefusal_mistyped
    · trivial
    · -- a value with members is searched for the separator
      refine (items_yields s _).then fun vs => ?_
      refine (isAmong_text_yields s [sep] vs).then fun b => ?_
      cases b with
      | true => exact hpart
      | false => trivial

theorem textOnly_yields : Yields (fun _ => True) (textOnly v) := by
  rw [textOnly.eq_def]
  split
  · trivial
  · exact isRefusal_mistyped

end Store

/-! ### The setters -/

namespace Naming
variable (s : Store) (n : Naming) (v : Value)

/-- The result of renaming to some text that is not empty. -/
def Renames (m : Naming × List Renaming) : Prop := ∃ p, p ≠ [] ∧ m = n.rename p

theorem facet_yields (read : Text → Text) : Yields (fun _ => True) (n.facet s read) := by
  rw [facet]
  split
  · trivial
  · trivial
  · exact Store.isRefusal_textFault s _ _

theorem setPath_yields : Yields n.Renames (n.setPath s v) := by
  rw [setPath]
  refine (Store.pathSource_yields s v n.style).then fun source => ?_
  split_ifs with htrue
  · exact yields_throw_bind (isRefusal_family rfl) _
  · dsimp only
    split
    · next p =>
      refine ⟨p, ?_, rfl⟩
      rintro rfl
      exact htrue rfl
    · exact isRefusal_family rfl

theorem setJoined_yields (segments : List Text) : Yields n.Renames (n.setJoined s segments) :=
  setPath_yields s n _

theorem setDirectory_yields : Yields n.Renames (n.setDirectory s v) := by
  rw [setDirectory]
  refine (facet_yields s n _).then fun name => ?_
  dsimp only
  by_cases hname : name.getD [] = []
  · rw [if_pos hname]
    split_ifs
    all_goals exact yields_throw_bind (isRefusal_family rfl) _
  · rw [if_neg hname]
    split_ifs
    · exact setJoined_yields s n _
    · split
      · exact setJoined_yields s n _
      · exact Store.isRefusal_textFault s _ _

theorem setBasename_yields : Yields n.Renames (n.setBasename s v) := by
  rw [setBasename]
  split_ifs with hv
  · exact yields_throw_bind (isRefusal_family rfl) _
  · refine (Store.checkPart_yields s v _ _ (Or.inl rfl)).then fun _ => ?_
    refine (facet_yields s n _).then fun directory => ?_
    refine (Store.textOnly_yields v).then fun b => ?_
    exact setJoined_yields s n _

theorem checkExtension_yields : Yields (fun _ => True) (checkExtension s v) := by
  rw [checkExtension.eq_def]
  split_ifs with hv
  · trivial
  · split
    · split_ifs
      · exact isRefusal_family rfl
      · trivial
    · exact isRefusal_family rfl
    · exact Store.isRefusal_textFault s _ _

theorem setExtension_yields : Yields n.Renames (n.setExtension s v) := by
  rw [setExtension]
  refine (Store.checkPart_yields s v _ _ (Or.inr (Or.inr rfl))).then fun _ => ?_
  refine (facet_yields s n _).then fun directory => ?_
  cases directory with
  | none => exact isRefusal_family rfl
  | some directory =>
    refine (checkExtension_yields s v).then fun e => ?_
    refine (facet_yields s n _).then fun stem => ?_
    exact setJoined_yields s n _

theorem setStem_yields : Yields n.Renames (n.setStem s v) := by
  rw [setStem]
  split_ifs with hv
  · exact yields_throw_bind (isRefusal_family rfl) _
  · refine (Store.checkPart_yields s v _ _ (Or.inr (Or.inl rfl))).then fun _ => ?_
    refine (facet_yields s n _).then fun name => ?_
    dsimp only
    split_ifs with hname
    · exact yields_throw_bind (isRefusal_family rfl) _
    · refine (facet_yields s n _).then fun directory => ?_
      refine (Store.textOnly_yields v).then fun t => ?_
      refine (facet_yields s n _).then fun e => ?_
      exact setJoined_yields s n _

/-- **Every setter renames**, or is refused. -/
theorem set_yields (facet : Facet) : Yields n.Renames (n.set s facet v) := by
  cases facet with
  | path => exact setPath_yields s n v
  | basename => exact setBasename_yields s n v
  | stem => exact setStem_yields s n v
  | extname => exact setExtension_yields s n v
  | dirname => exact setDirectory_yields s n v

/-! ### Renaming -/

/-- The paths after one more. The current path is not added again. -/
def visit (h : List Text) (p : Text) : List Text := if h.getLast? = some p then h else h ++ [p]

theorem path_of_history {st : Path.Style} (h : List Text) :
    Naming.path ⟨st, h.map .text⟩ = Value.ofText? h.getLast? := by
  rw [Naming.path, List.getLast?_map]
  cases h.getLast? <;> rfl

theorem ofText?_eq_text {o : Option Text} {p : Text} : Value.ofText? o = .text p ↔ o = some p := by
  cases o <;> simp [Value.ofText?]

/-- **Renaming visits a path.** -/
theorem rename_fst (st : Path.Style) (h : List Text) (p : Text) :
    (Naming.rename ⟨st, h.map .text⟩ p).1 = ⟨st, (visit h p).map .text⟩ := by
  rw [rename, visit, path_of_history]
  by_cases hp : h.getLast? = some p
  · rw [if_pos (ofText?_eq_text.mpr hp), if_pos hp]
  · rw [if_neg (mt ofText?_eq_text.mp hp), if_neg hp, List.map_append, List.map_singleton]

theorem rename_snd (st : Path.Style) (h : List Text) (p : Text) :
    (Naming.rename ⟨st, h.map .text⟩ p).2 =
      if h.getLast? = some p then [] else [⟨p, .ofText? h.getLast?⟩] := by
  rw [rename, path_of_history]
  by_cases hp : h.getLast? = some p
  · rw [if_pos (ofText?_eq_text.mpr hp), if_pos hp]
  · rw [if_neg (mt ofText?_eq_text.mp hp), if_neg hp]

theorem getLast?_visit (h : List Text) (p : Text) : (visit h p).getLast? = some p := by
  rw [visit]
  split_ifs with hp
  · exact hp
  · simp

/-- The paths that are added when paths are visited one after the
other: those that differ from the one just before them. -/
def changes : Option Text → List Text → List Text
  | _, [] => []
  | last, p :: ps => if last = some p then changes last ps else p :: changes (some p) ps

theorem foldl_visit (h ps : List Text) : ps.foldl visit h = h ++ changes h.getLast? ps := by
  induction ps generalizing h with
  | nil => simp [changes]
  | cons p ps ih =>
    rw [List.foldl_cons, ih, getLast?_visit, changes]
    split_ifs with hp
    · rw [visit, if_pos hp, hp]
    · rw [visit, if_neg hp, List.append_assoc, List.singleton_append]

theorem getLast?_foldl_visit (h ps : List Text) :
    (ps.foldl visit h).getLast? = ps.getLast?.or h.getLast? := by
  induction ps generalizing h with
  | nil => simp
  | cons p ps ih =>
    rw [List.foldl_cons, ih, getLast?_visit, List.getLast?_cons]
    cases ps.getLast? <;> rfl

theorem prefix_visit (h : List Text) (p : Text) : h <+: visit h p := by
  rw [visit]
  split_ifs
  · exact List.prefix_rfl
  · exact List.prefix_append h [p]

end Naming

end VirtualFile
