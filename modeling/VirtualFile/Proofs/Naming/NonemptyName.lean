import VirtualFile.Proofs.Naming.Targets
/-!
# When a file loses its name

The setters of facets compose a name and join it to a directory. They refuse empty names
and names with separators, but not `.` and `..`, which joining takes as directions. So a
posix file keeps a name exactly as long as no call composes one of these two where they
lead to a root (`names_kept_iff`).

* `Path.name_normalize_eq_nil`: of the paths in normal form, the roots are those without a name.
* `Naming.visits`: a run of setters; a call that is refused leaves the naming as it is.
* `Write.Unnames`: a call that leads to a root.
* `hasName_step`: one call; the run is by induction on the calls.
-/

namespace VirtualFile
open VirtualFile.Path (Style)

/-! ### Roots -/

namespace Path

/-- A path that is a root and nothing else. -/
def IsRoot (p : Text) : Prop := p = ['/'] ∨ p = ['/', '/']

instance (p : Text) : Decidable (IsRoot p) := inferInstanceAs (Decidable (_ ∨ _))

theorem name_written_concat (p : Text) {ks : List Text} {n : Text} (hk : ∀ c ∈ ks, '/' ∉ c)
    (hne : ∀ c ∈ ks, c ≠ []) (hn : n ≠ []) (hsep : '/' ∉ n) :
    Style.posix.name (Style.posix.written (posixRoot p) (ks ++ [n])) = n := by
  have hn' := no_sep_iff.mpr hsep
  rw [Style.name, Style.trim_written p ks hn hn', Style.splitName_written hk hne hn']

/-- **A path in normal form has no name exactly if it is a root.** -/
theorem name_normalize_eq_nil (p : Text) :
    Style.posix.name (Style.posix.normalize p) = [] ↔ IsRoot (Style.posix.normalize p) := by
  rcases List.eq_nil_or_concat' (Style.posix.kept p) with hk | ⟨ks, n, hk⟩
  · rw [normalize_posix, hk]
    rcases posixRoot_cases p with h | h | h <;> rw [h] <;> decide
  · have hmem : ∀ c ∈ ks ++ [n], '/' ∉ c ∧ c ≠ [] := fun c hc =>
      have hkept : c ∈ Style.posix.kept p := hk ▸ hc
      ⟨Style.sep_not_mem_kept hkept, Style.ne_nil_of_mem_kept hkept⟩
    obtain ⟨hsep, hne⟩ := hmem n (by simp)
    have hname : Style.posix.name (Style.posix.normalize p) = n := by
      rw [Style.normalize_eq_written, hk]
      exact name_written_concat p (fun c hc => (hmem c (by simp [hc])).1)
        (fun c hc => (hmem c (by simp [hc])).2) hne hsep
    -- a root would have no name
    refine iff_of_false (fun h => hne (hname ▸ h)) fun h => hne ?_
    rw [← hname]
    rcases h with h | h <;> rw [h] <;> rfl

theorem exists_join_eq_normalize (d : Text) {x : Text} (hx : x ≠ []) :
    ∃ p, Style.posix.join [d, x] = Style.posix.normalize p := by
  by_cases hd : d = []
  · exact ⟨x, by simp [Style.join, hd, hx]⟩
  · exact ⟨Style.posix.append d x, by simp [Style.join, hd, hx]⟩

/-- **A joined path has no name** exactly if the name given was `.` or `..` and led to a root. -/
theorem name_join_eq_nil (d : Text) {x : Text} (hx : x ≠ []) (hsep : '/' ∉ x) :
    Style.posix.name (Style.posix.join [d, x]) = [] ↔
      (x = here ∨ x = up) ∧ IsRoot (Style.posix.join [d, x]) := by
  obtain ⟨p, hp⟩ := exists_join_eq_normalize d hx
  rcases component_cases x with rfl | rfl | rfl | hproper
  · exact absurd rfl hx
  · simp [hp, name_normalize_eq_nil]
  · simp [hp, name_normalize_eq_nil]
  · rw [name_join d ⟨hproper, no_sep_iff.mpr hsep⟩]
    simp [hx, hproper.ne_here, hproper.ne_up]

end Path

/-! ### Runs -/

namespace Naming

/-- The naming after a call, which is the one before it if the call is refused. -/
def after (s : Store) (n : Naming) (w : Write) : Naming :=
  match n.set s w.call.1 w.call.2 with
  | .ok m => m.1
  | .error _ => n

/-- The calls of a run, each with the naming that it finds. -/
def visits (s : Store) : Naming → List Write → List (Naming × Write)
  | _, [] => []
  | n, w :: ws => (n, w) :: (n.after s w).visits s ws

/-- A naming whose current path has a name and a stem. -/
def HasName (s : Store) (n : Naming) : Prop :=
  ∃ b t, n.basename s = .ok (some b) ∧ b ≠ [] ∧ n.stem s = .ok (some t) ∧ t ≠ []

/-- **A call that takes the name away** from a file: the name that it composes is `.` or `..`, and
together with the directory it leads to a root. -/
def Write.Unnames (n : Naming) (w : Write) : Prop :=
  match n.path with
  | .text p =>
    match w.target n.style (some p) with
    | .ok (d, x) => (x = Path.here ∨ x = Path.up) ∧ Path.IsRoot (Style.posix.join [d, x])
    | .error _ => False
  | _ => False

instance (n : Naming) (w : Write) : Decidable (w.Unnames n) := by
  unfold Write.Unnames
  split
  · split <;> infer_instance
  · infer_instance

section Step
variable {s : Store} {n : Naming} {p : Text} {w : Write}

theorem hasName_iff (hst : n.style = .posix) (hp : n.path = .text p) :
    n.HasName s ↔ Style.posix.name p ≠ [] := by
  have hp' : n.path = .ofText? (some p) := hp
  simp only [HasName, basename, stem, facet_ofText? s hp', hst, Option.map_some]
  constructor
  · rintro ⟨b, -, hb, hne, -⟩
    obtain rfl := Option.some.inj (Except.ok.inj hb)
    exact hne
  · intro hne
    exact ⟨_, _, rfl, hne, rfl, mt (Style.nameWithout_eq_nil _ _ _).mp hne⟩

/-- **One call** keeps the name unless it leads to a root. -/
theorem hasName_step (hst : n.style = .posix) (hp : n.path = .text p)
    (hname : Style.posix.name p ≠ []) : (n.after s w).HasName s ↔ ¬ w.Unnames n := by
  have hset := set_text s (p := some p) hp w
  simp only [after, hset, Write.Unnames, hp, hst]
  cases htarget : w.target .posix (some p) with
  | error e =>
    -- refused, the call changes nothing
    simpa [Except.map, hasName_iff hst hp] using hname
  | ok x =>
    obtain ⟨-, hsep, hne, -⟩ := Write.target_eq_ok htarget
    have hst' := (style_rename n (Style.posix.join [x.1, x.2])).trans hst
    rw [Except.map, hasName_iff hst' (path_rename n _), ne_eq,
      Path.name_join_eq_nil x.1 (hne hname) hsep]

theorem after_path (s : Store) (w : Write) (hp : n.path = .text p) :
    (n.after s w).style = n.style ∧ ∃ q, (n.after s w).path = .text q := by
  rw [after, set_text s (p := some p) hp w]
  cases w.target n.style (some p) with
  | error e => exact ⟨rfl, p, hp⟩
  | ok x => exact ⟨style_rename n _, _, path_rename n _⟩

end Step

/-- **A file keeps a name as long as no call leads to a root.** A posix file that has a name goes
through any run of setters of its directory, its name, its stem and its extension, some of which may
be refused: it has a name and a stem after each of them if and only if none of them composes `.` or
`..` where that leads to a root. -/
theorem names_kept_iff {n : Naming} {p : Text} (hst : n.style = .posix) (hp : n.path = .text p)
    (hname : Style.posix.name p ≠ []) (s : Store) (ws : List Write) :
    (∀ x ∈ n.visits s ws, (x.1.after s x.2).HasName s) ↔
      ∀ x ∈ n.visits s ws, ¬ x.2.Unnames x.1 := by
  induction ws generalizing n p with
  | nil => simp [visits]
  | cons w ws ih =>
    rw [visits, List.forall_mem_cons, List.forall_mem_cons, hasName_step hst hp hname]
    refine and_congr_right fun hkeeps => ?_
    -- the call has kept the name, so the rest of the run starts with one
    obtain ⟨hst', q, hq⟩ := after_path s w hp
    have hst' := hst'.trans hst
    exact ih hst' hq ((hasName_iff hst' hq).mp ((hasName_step hst hp hname).mpr hkeeps))

/-- A run with `..` in it that keeps a name: the directory is left
twice, and one call is refused. -/
theorem names_kept_iff_below : Naming.HasName {} ⟨.posix, [.ofString "/a/b/c.d"]⟩ ∧
    ∀ x ∈ Naming.visits {} ⟨.posix, [.ofString "/a/b/c.d"]⟩
      [.basename "..".toList, .stem [], .extension ".e".toList, .directory (some "..".toList)],
    (x.1.after {} x.2).HasName {} :=
  have hname : Style.posix.name "/a/b/c.d".toList ≠ [] := by decide +kernel
  ⟨(hasName_iff rfl rfl).mpr hname, (names_kept_iff rfl rfl hname {} _).mpr (by decide +kernel)⟩

/-- **A name can be taken away**: `..` is accepted as the name of a file below the root. -/
theorem setBasename_up :
    ∃ m, Naming.setBasename {} ⟨.posix, [.ofString "/a"]⟩ (.ofString "..") = .ok m ∧
    Naming.basename {} ⟨.posix, [.ofString "/a"]⟩ = .ok (some "a".toList) ∧
    m.1.basename {} = .ok (some []) ∧ m.1.stem {} = .ok (some []) :=
  ⟨_, rfl, by decide +kernel, by decide +kernel, by decide +kernel⟩

end Naming

end VirtualFile
