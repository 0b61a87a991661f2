import VirtualFile.Proofs.Naming.Setting
import VirtualFile.Proofs.World.Outcome
/-!
# The history only grows

A file is renamed by calls of its setters, one after the other, with arguments of any kind. Whatever
the arguments are, the paths that the file has had stay where they are: a call that is refused
changes nothing in the world, and one that returns adds at most one path, which is not empty and not
the current one (`turns_grow`).

* `Store.Named`: a file with a style and a history of texts.
* `Turn`, `turns`: the calls of a run, each with the worlds before and after it.
* `grows_setFacet`: one call; the run is by induction on the calls.
-/

namespace VirtualFile
open VirtualFile.Path (Style)

/-- A value is a file of the given style that has had the given paths. -/
def Store.Named (s : Store) (v : Value) (st : Style) (h : List Text) : Prop :=
  ∃ f, s.file? v = some f ∧ f.naming = some ⟨st, h.map .text⟩

/-- One call of a setter. -/
structure Turn where
  before : World
  outcome : Except Fault Unit
  after : World

/-- The calls of setters on a file, each in the world that the one before it left. -/
def turns (v : Value) : World → List (Facet × Value) → List Turn
  | _, [] => []
  | w, (facet, new) :: calls =>
    let (outcome, w') := (Action.setFacet v facet new).outcome w
    ⟨w, outcome, w'⟩ :: turns v w' calls

/-- **What a call does to the history** `h` of a file, which is `h'` after it. -/
structure Turn.Grows (t : Turn) (v : Value) (st : Style) (h h' : List Text) : Prop where
  before : t.before.store.Named v st h
  after : t.after.store.Named v st h'
  le : h <+: h'
  refused : ∀ e, t.outcome = .error e → e.IsRefusal ∧ t.after = t.before ∧ h' = h
  returned : t.outcome = .ok () →
    h' = h ∨ ∃ p, p ≠ [] ∧ h.getLast? ≠ some p ∧ h' = h ++ [p]

variable {st : Style} {h : List Text} {v : Value} {w : World}

theorem named_renamed {r : Ref} {f : File} (hf : w.store.file? (.ref r) = some f) (p : Text) :
    (Action.renamed w r f (Naming.rename ⟨st, h.map .text⟩ p)).store.Named (.ref r) st
      (Naming.visit h p) := by
  refine ⟨_, Store.file?_write _ hf, ?_⟩
  rw [Naming.rename_fst]

theorem Naming.visit_cases (h : List Text) (p : Text) :
    visit h p = h ∨ (h.getLast? ≠ some p ∧ visit h p = h ++ [p]) := by
  rw [visit]
  split_ifs with hp
  · exact Or.inl rfl
  · exact Or.inr ⟨hp, rfl⟩

theorem grows_setFacet (hv : w.store.Named v st h) (facet : Facet) (new : Value) :
    ∃ h', Turn.Grows ⟨w, ((Action.setFacet v facet new).outcome w).1,
      ((Action.setFacet v facet new).outcome w).2⟩ v st h h' := by
  obtain ⟨f, hf, hn⟩ := id hv
  obtain ⟨r, rfl⟩ := Store.exists_ref (Store.cell?_eq_of_file? hf)
  have hset := Naming.set_yields w.store ⟨st, h.map .text⟩ new facet
  rw [Action.outcome_setFacet hf hn]
  cases hres : Naming.set w.store ⟨st, h.map .text⟩ facet new with
  | error e =>
    rw [hres] at hset
    refine ⟨h, hv, hv, List.prefix_rfl, ?_, fun hok => absurd hok (by simp)⟩
    rintro _ ⟨⟩
    exact ⟨hset, rfl, rfl⟩
  | ok m =>
    -- whichever setter it was, it has renamed the file to some text
    rw [hres] at hset
    obtain ⟨p, hp, rfl⟩ := hset
    refine ⟨Naming.visit h p, hv, named_renamed hf p, Naming.prefix_visit h p,
      fun e he => absurd he (by simp), fun _ => ?_⟩
    rcases Naming.visit_cases h p with hsame | ⟨hlast, hmore⟩
    · exact Or.inl hsame
    · exact Or.inr ⟨p, hp, hlast, hmore⟩

/-- **The history of a file only grows**, in every run of its setters. -/
theorem turns_grow (hv : w.store.Named v st h) (calls : List (Facet × Value)) :
    ∀ t ∈ turns v w calls, ∃ h₁ h₂, h <+: h₁ ∧ t.Grows v st h₁ h₂ := by
  induction calls generalizing w h with
  | nil => simp [turns]
  | cons call calls ih =>
    obtain ⟨facet, new⟩ := call
    obtain ⟨h', hstep⟩ := grows_setFacet hv facet new
    rw [turns, List.forall_mem_cons]
    refine ⟨⟨h, h', List.prefix_rfl, hstep⟩, fun t ht => ?_⟩
    obtain ⟨h₁, h₂, hle, hgrows⟩ := ih hstep.after t ht
    exact ⟨h₁, h₂, hstep.le.trans hle, hgrows⟩

/-- A world with one file. -/
def World.ofNaming (n : Naming) : World where
  store := { cells := #[.file ⟨some n, .null, .null, .null, .null, .null, .null, .null, .null,
    .null, []⟩] }

/-- A run in which a call renames, one is refused and one changes nothing. -/
theorem turns_grow_ofNaming :
    (World.ofNaming ⟨.windows, [.ofString "a.txt"]⟩).store.Named (.ref 0) .windows
      ["a.txt".toList] ∧
    (turns (.ref 0) (World.ofNaming ⟨.windows, [.ofString "a.txt"]⟩)
      [(.stem, .ofString "b"), (.extname, .int 1), (.basename, .ofString "b.txt")]).map
        (·.outcome) = [.ok (), .error .mistyped, .ok ()] ∧
    ∀ t ∈ turns (.ref 0) (World.ofNaming ⟨.windows, [.ofString "a.txt"]⟩)
      [(.stem, .ofString "b"), (.extname, .int 1), (.basename, .ofString "b.txt")],
      ∃ h₁ h₂, ["a.txt".toList] <+: h₁ ∧ t.Grows (.ref 0) .windows h₁ h₂ :=
  ⟨⟨_, rfl, rfl⟩, rfl, turns_grow ⟨_, rfl, rfl⟩ _⟩

end VirtualFile
