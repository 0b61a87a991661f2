import VirtualFile.Path.Name
import VirtualFile.Proofs.Path.Components
/-!
# Splitting off the name

A path that ends with a name is split into the text before the name and the name, in either style.
What stands before it is a drive and either separators only, which all stay, or a directory that
does not end with a separator, which loses those after it.

* `trim_append_cons`, `trim_cases`: what is left of a path without the separators at its end.
* `splitName_below_root`, `splitName_below_seps`: the two ways in which a name stands in a path.
* `IsCut`, `exists_isCut`: every path is cut in one of them.
-/

namespace VirtualFile.Path.Style
variable {st : Style} {p drive n : Text}

/-! ### Without the separators at the end -/

theorem trim_append_cons (a : Text) {c : Char} {seps : Text} (hc : st.isSep c = false)
    (hseps : ∀ x ∈ seps, st.isSep x = true) : st.trim (a ++ c :: seps) = a ++ [c] := by
  rw [trim, Text.dropTrailing_append_cons a hc hseps]
  split
  · next hnil => exact absurd hnil (List.concat_ne_nil _ _)
  · rfl

theorem trim_append_seps (hne : p ≠ []) {seps : Text} (hseps : ∀ c ∈ seps, st.isSep c = true) :
    st.trim (p ++ seps) = st.trim p := by
  rw [trim, trim, Text.dropTrailing_append p hseps,
    List.take_append_of_le_length (List.length_pos_iff.mpr hne)]

/-- **Trimming** leaves the first of separators; any other path loses
those behind its last other character. -/
theorem trim_cases (st : Style) (p : Text) :
    ((∀ c ∈ p, st.isSep c = true) ∧ st.trim p = p.take 1) ∨
      ∃ u c seps, p = u ++ [c] ++ seps ∧ st.isSep c = false ∧ (∀ x ∈ seps, st.isSep x = true) ∧
        st.trim p = u ++ [c] := by
  obtain hall | ⟨u, c, seps, rfl, hc, hseps⟩ := Text.exists_last st.isSep p
  · exact .inl ⟨hall, by rw [trim, Text.dropTrailing_of_all hall]⟩
  · exact .inr ⟨u, c, seps, by simp, hc, hseps, trim_append_cons u hc hseps⟩

theorem exists_trim_append (st : Style) (a : Text) {c : Char} (hc : st.isSep c = false) (t : Text) :
    ∃ u, st.trim (a ++ c :: t) = a ++ c :: u ∧ u <+: t := by
  obtain hall | ⟨u, d, seps, rfl, hd, hseps⟩ := Text.exists_last st.isSep t
  · exact ⟨[], trim_append_cons a hc hall, List.nil_prefix⟩
  · have htrim := trim_append_cons (a ++ c :: u) hd hseps
    exact ⟨u ++ [d], by simpa using htrim, ⟨seps, by simp⟩⟩

theorem exists_trim_cons (st : Style) (c : Char) (t : Text) : ∃ u, st.trim (c :: t) = c :: u ∧
    u <+: t := by
  obtain ⟨-, htrim⟩ | ⟨u, d, seps, heq, -, -, htrim⟩ := trim_cases st (c :: t)
  · exact ⟨[], htrim, List.nil_prefix⟩
  · rcases u with _ | ⟨x, u⟩
    · obtain ⟨rfl, rfl⟩ := List.cons.inj heq
      exact ⟨[], htrim, List.nil_prefix⟩
    · obtain ⟨rfl, rfl⟩ := List.cons.inj heq
      exact ⟨u ++ [d], htrim, List.prefix_append _ _⟩

theorem trim_isPrefix (st : Style) (p : Text) : st.trim p <+: p := by
  rcases p with _ | ⟨c, t⟩
  · exact List.nil_prefix
  · obtain ⟨u, htrim, hu⟩ := exists_trim_cons st c t
    rw [htrim]
    exact List.cons_prefix_cons.mpr ⟨rfl, hu⟩

theorem trim_append (a : Text) (hne : n ≠ []) (hn : ∀ c ∈ n, st.isSep c = false) :
    st.trim (a ++ n) = a ++ n := by
  obtain ⟨m, c, rfl⟩ := (List.eq_nil_or_concat' n).resolve_left hne
  rw [← List.append_assoc]
  exact trim_append_cons (a ++ m) (hn c (by simp)) (List.forall_mem_nil _)

/-! ### Where the name stands -/

theorem splitName_below_root {root : Text} (hp : st.drive p = (drive, root ++ n))
    (hroot : ∀ c ∈ root, st.isSep c = true) (hn : ∀ c ∈ n, st.isSep c = false) :
    st.splitName p = (drive ++ root, n) := by
  have hfront : (root ++ n).dropTrailing (!st.isSep ·) = root := by
    rw [Text.dropTrailing_append root (by simpa using hn)]
    rcases List.eq_nil_or_concat' root with rfl | ⟨u, c, rfl⟩
    · rfl
    · exact Text.dropTrailing_concat u (by simp [hroot c (by simp)])
  have hhead : root.dropTrailing st.isSep = [] := Text.dropTrailing_of_all hroot
  have hname : (root ++ n).takeTrailing (!st.isSep ·) = n := by
    rcases List.eq_nil_or_concat' root with rfl | ⟨u, c, rfl⟩
    · exact Text.takeTrailing_of_all (by simpa using hn)
    · rw [List.append_assoc]
      exact Text.takeTrailing_append_cons u (by simp [hroot c (by simp)]) (by simpa using hn)
  simp only [splitName, hp, hfront, hname, hhead]

theorem splitName_below_seps {u seps : Text} {c sep : Char}
    (hp : st.drive p = (drive, u ++ [c] ++ (seps ++ sep :: n))) (hc : st.isSep c = false)
    (hseps : ∀ x ∈ seps, st.isSep x = true) (hsep : st.isSep sep = true)
    (hn : ∀ x ∈ n, st.isSep x = false) : st.splitName p = (drive ++ (u ++ [c]), n) := by
  rw [← List.append_assoc] at hp
  have hn' : ∀ x ∈ n, (!st.isSep x) = true := by simpa using hn
  have hsep' : (!st.isSep sep) = false := by simpa using hsep
  have hfront : (u ++ [c] ++ seps ++ sep :: n).dropTrailing (!st.isSep ·) =
      u ++ [c] ++ (seps ++ [sep]) := by
    rw [Text.dropTrailing_append_cons _ hsep' hn', List.append_assoc]
  have hhead : (u ++ [c] ++ (seps ++ [sep])).dropTrailing st.isSep = u ++ [c] := by
    rw [Text.dropTrailing_append _ (List.forall_mem_append.mpr ⟨hseps, by simpa using hsep⟩),
      Text.dropTrailing_concat u hc]
  have hname : (u ++ [c] ++ seps ++ sep :: n).takeTrailing (!st.isSep ·) = n :=
    Text.takeTrailing_append_cons _ hsep' hn'
  simp only [splitName, hp, hfront, hname, hhead]
  split
  · next h => simp at h
  · rfl

theorem splitName_below {u : Text} {c sep : Char} (hp : st.drive p = (drive, u ++ [c] ++ sep :: n))
    (hc : st.isSep c = false) (hsep : st.isSep sep = true) (hn : ∀ x ∈ n, st.isSep x = false) :
    st.splitName p = (drive ++ (u ++ [c]), n) :=
  splitName_below_seps hp hc (List.forall_mem_nil _) hsep hn

/-- **How a path is cut before its name**: what stands before it is separators only, which all stay,
or text that ends otherwise, without the separators behind it. -/
inductive IsCut (st : Style) (rest head name : Text) : Prop
  | root (hrest : rest = head ++ name) (hhead : ∀ c ∈ head, st.isSep c = true)
      (hname : ∀ c ∈ name, st.isSep c = false)
  | below (u seps : Text) (c sep : Char) (hrest : rest = head ++ (seps ++ sep :: name))
      (hhead : head = u ++ [c])
      (hc : st.isSep c = false) (hseps : ∀ x ∈ seps, st.isSep x = true) (hsep : st.isSep sep = true)
      (hname : ∀ c ∈ name, st.isSep c = false)

/-- **Every path is cut** in one of the two ways behind its drive. -/
theorem exists_isCut (st : Style) (p : Text) : ∃ head name,
    st.splitName p = ((st.drive p).1 ++ head, name) ∧ st.IsCut (st.drive p).2 head name := by
  obtain ⟨drive, rest, hp⟩ : ∃ drive rest, st.drive p = (drive, rest) := ⟨_, _, rfl⟩
  rw [hp]
  obtain hall | ⟨front, sep, n, rfl, hsep, hn⟩ := Text.exists_last (!st.isSep ·) rest
  · have hrest : ∀ c ∈ rest, st.isSep c = false := by simpa using hall
    exact ⟨[], rest, splitName_below_root hp (List.forall_mem_nil _) hrest,
      .root rfl (List.forall_mem_nil _) hrest⟩
  have hsep' : st.isSep sep = true := by simpa using hsep
  have hn' : ∀ c ∈ n, st.isSep c = false := by simpa using hn
  obtain hroot | ⟨u, c, seps, rfl, hc, hseps⟩ := Text.exists_last st.isSep front
  · have hroot' : ∀ c ∈ front ++ [sep], st.isSep c = true :=
      List.forall_mem_append.mpr ⟨hroot, by simpa using hsep'⟩
    have hrest : front ++ sep :: n = (front ++ [sep]) ++ n := by simp
    exact ⟨front ++ [sep], n, splitName_below_root (hrest ▸ hp) hroot' hn', .root hrest hroot' hn'⟩
  · have hrest : u ++ c :: seps ++ sep :: n = u ++ [c] ++ (seps ++ sep :: n) := by simp
    exact ⟨u ++ [c], n, splitName_below_seps (hrest ▸ hp) hc hseps hsep' hn',
      .below u seps c sep hrest rfl hc hseps hsep' hn'⟩

namespace IsCut
variable {rest head name : Text} {c : Char}

theorem prefix_of (h : st.IsCut rest head name) : head <+: rest := by
  cases h with
  | root hrest => exact ⟨name, hrest.symm⟩
  | below u seps c sep hrest => exact ⟨seps ++ sep :: name, hrest.symm⟩

theorem exists_cons {t : Text} (h : st.IsCut (c :: t) head name) (hc : st.isSep c = true) :
    ∃ u, head = c :: u := by
  have hne : head ≠ [] := by
    rintro rfl
    cases h with
    | root hrest _ hname =>
      obtain rfl : c :: t = name := hrest
      exact absurd hc (by simp [hname c List.mem_cons_self])
    | below u seps d sep _ hhead => exact absurd hhead.symm (List.concat_ne_nil _ _)
  obtain ⟨d, u, rfl⟩ := List.exists_cons_of_ne_nil hne
  obtain ⟨rfl, -⟩ := List.cons_prefix_cons.mp h.prefix_of
  exact ⟨u, rfl⟩

theorem exists_concat {a : Text} (h : st.IsCut (a ++ [c]) head name) (hc : st.isSep c = false) :
    ∃ m, name = m ++ [c] := by
  -- before the name there is nothing, or a separator
  obtain ⟨x, hx, hlast⟩ : ∃ x, a ++ [c] = x ++ name ∧ ∀ d, x.getLast? = some d →
    st.isSep d = true := by
    cases h with
    | root hrest hhead => exact ⟨head, hrest, fun d hd => hhead d (List.mem_of_getLast? hd)⟩
    | below u seps d sep hrest _ _ _ hsep =>
      exact ⟨head ++ (seps ++ [sep]), by simp [hrest], by simp [hsep]⟩
  obtain rfl | ⟨m, d, rfl⟩ := List.eq_nil_or_concat' name
  · rw [List.append_nil] at hx
    exact absurd (hlast c (by simp [← hx])) (by simp [hc])
  · rw [← List.append_assoc] at hx
    exact ⟨m, by rw [(List.cons.inj (List.append_inj' hx rfl).2).1]⟩

theorem isSep_of_self (h : st.IsCut rest rest name) : ∀ c ∈ rest, st.isSep c = true := by
  cases h with
  | root _ hhead => exact hhead
  | below u seps c sep hrest =>
    have hlength := congrArg List.length hrest
    simp only [List.length_append, List.length_cons] at hlength
    omega

end IsCut

/-- **The parent of a path** is what stands before its name, or `.` if nothing does. -/
theorem parent_cases (st : Style) (p : Text) :
    ∃ head name, st.IsCut (st.drive (st.trim p)).2 head name ∧
    ((st.drive (st.trim p)).1 ++ head = [] ∧ st.parent p = here ∨
      (st.drive (st.trim p)).1 ++ head ≠ [] ∧ st.parent p = (st.drive (st.trim p)).1 ++ head) := by
  obtain ⟨head, name, hsplit, hcut⟩ := exists_isCut st (st.trim p)
  refine ⟨head, name, hcut, ?_⟩
  rw [parent, hsplit]
  split
  · next hnil => exact .inl ⟨hnil, rfl⟩
  · next hne => exact .inr ⟨hne, rfl⟩

/-- **What is left of a path without its name** is its parent, `.` if that is nothing. -/
theorem parent_of_splitName {anchor : Text} {ks : List Text}
    (h : st.splitName (st.trim p) = (anchor ++ Text.join st.sep ks, n)) (hks : ∀ c ∈ ks, c ≠ []) :
    st.parent p = st.written anchor ks := by
  rw [parent, h, written]
  split_ifs with hnil
  · rw [hnil.1, hnil.2]
    rfl
  · split
    · next hempty =>
      rw [List.append_eq_nil_iff] at hempty
      exact absurd ⟨hempty.1, Text.join_eq_nil hks hempty.2⟩ hnil
    · rfl

end VirtualFile.Path.Style
