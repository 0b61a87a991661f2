import VirtualFile.Proofs.Path.Posix
/-!
# Stems and extensions

A name with an extension is a stem, which has a character other than a dot, and a dot with
the characters after it, none of them a dot. Splitting a name finds the two
(`eq_append_of_splitExtension`), and any two of this form are found again in their
concatenation (`splitExtension_append`).

* `IsSplit`, `isSplit_splitExtension`: where a name is split.
* `Style.name_parts`: the stem and the extension of every path.
* `Parted`: the directory, the stem and the extension of a posix path.
* `parted_of_extension`, `parted_join`: paths with an extension have
  parts, and joining parts gives them.
-/

namespace VirtualFile.Path

/-- A stem: not only dots. -/
def IsStem (s : Text) : Prop := ∃ c ∈ s, c ≠ '.'

/-- An extension: a dot and no other one. -/
def IsExtension (e : Text) : Prop := ∃ t, e = '.' :: t ∧ '.' ∉ t

theorem IsExtension.ne_nil {e : Text} (he : IsExtension e) : e ≠ [] := by
  obtain ⟨t, rfl, -⟩ := he
  simp

theorem IsStem.append {s : Text} (hs : IsStem s) (e : Text) : IsStem (s ++ e) := by
  obtain ⟨c, hc, hne⟩ := hs
  exact ⟨c, List.mem_append_left e hc, hne⟩

theorem IsStem.proper {s : Text} (hs : IsStem s) : Proper s := by
  obtain ⟨c, hc, hne⟩ := hs
  refine ⟨?_, ?_, ?_⟩ <;> rintro rfl <;> simp_all [here, up]

theorem splitExtension_dot (a : Text) {t : Text} (ht : '.' ∉ t) :
    splitExtension (a ++ '.' :: t) =
      if a.any (· != '.') then (a, '.' :: t) else (a ++ '.' :: t, []) := by
  have ht' : ∀ c ∈ t, (c != '.') = true := fun c hc => by
    rw [bne_iff_ne]
    rintro rfl
    exact ht hc
  have hdrop : (a ++ '.' :: t).dropTrailing (· != '.') = a ++ ['.'] :=
    Text.dropTrailing_append_cons a rfl ht'
  have htake : (a ++ '.' :: t).takeTrailing (· != '.') = t :=
    Text.takeTrailing_append_cons a rfl ht'
  simp only [splitExtension, hdrop, htake, List.dropLast_concat]

theorem splitExtension_of_not_mem {n : Text} (hn : '.' ∉ n) : splitExtension n = (n, []) := by
  have hdrop : n.dropTrailing (· != '.') = [] := Text.dropTrailing_of_all fun c hc => by
    rw [bne_iff_ne]
    rintro rfl
    exact hn hc
  simp [splitExtension, hdrop]

theorem any_iff_isStem {s : Text} : s.any (· != '.') = true ↔ IsStem s := by
  simp [IsStem]

/-- **A stem and an extension are found again.** -/
theorem splitExtension_append {s e : Text} (hs : IsStem s) (he : IsExtension e) :
    splitExtension (s ++ e) = (s, e) := by
  obtain ⟨t, rfl, ht⟩ := he
  rw [splitExtension_dot s ht, if_pos (any_iff_isStem.mpr hs)]

theorem exists_last_dot {n : Text} (hn : '.' ∈ n) : ∃ a t, n = a ++ '.' :: t ∧ '.' ∉ t := by
  obtain ⟨t, a, h, ht⟩ := List.eq_append_cons_of_mem (List.mem_reverse.mpr hn)
  refine ⟨a.reverse, t.reverse, ?_, by simpa using ht⟩
  rw [← List.reverse_reverse n, h]
  simp

/-- **A name with an extension** is its stem and its extension. -/
theorem eq_append_of_splitExtension {n : Text} (h : (splitExtension n).2 ≠ []) :
    n = (splitExtension n).1 ++ (splitExtension n).2 ∧ IsStem (splitExtension n).1 ∧
      IsExtension (splitExtension n).2 := by
  by_cases hn : '.' ∈ n
  · obtain ⟨a, t, rfl, ht⟩ := exists_last_dot hn
    rw [splitExtension_dot a ht] at h ⊢
    split_ifs at h ⊢ with ha
    · exact ⟨rfl, any_iff_isStem.mp ha, t, rfl, ht⟩
    · exact absurd rfl h
  · rw [splitExtension_of_not_mem hn] at h
    exact absurd rfl h

/-- **A name split at its last dot**, if something other than a dot comes before it. If there is no
such dot, the name has no extension. -/
def IsSplit (n stem ext : Text) : Prop :=
  n = stem ++ ext ∧ (IsStem stem ∧ IsExtension ext ∨ ext = [] ∧ ∀ a t, n = a ++ '.' :: t →
    ¬ IsStem a)

/-- A dot after something other than a dot begins an extension, or a later one does. -/
theorem splitExtension_ne_nil {a : Text} (ha : IsStem a) (t : Text) :
    (splitExtension (a ++ '.' :: t)).2 ≠ [] := by
  by_cases hdot : '.' ∈ t
  · obtain ⟨b, u, rfl, hu⟩ := exists_last_dot hdot
    rw [← List.cons_append, ← List.append_assoc, splitExtension_dot _ hu,
      if_pos (any_iff_isStem.mpr (ha.append _))]
    simp
  · rw [splitExtension_dot a hdot, if_pos (any_iff_isStem.mpr ha)]
    simp

theorem splitExtension_of_nil {n : Text} (h : (splitExtension n).2 = []) :
    (splitExtension n).1 = n := by
  rw [splitExtension] at h ⊢
  split_ifs at h ⊢
  rfl

/-- **Splitting a name** finds the dot. -/
theorem isSplit_splitExtension (n : Text) :
    IsSplit n (splitExtension n).1 (splitExtension n).2 := by
  by_cases h : (splitExtension n).2 = []
  · refine ⟨by rw [h, splitExtension_of_nil h, List.append_nil], .inr ⟨h, ?_⟩⟩
    rintro a t rfl ha
    exact splitExtension_ne_nil ha t h
  · obtain ⟨hn, hs, he⟩ := eq_append_of_splitExtension h
    exact ⟨hn, .inl ⟨hs, he⟩⟩

/-- Before a dot of a name without an extension there are only dots. -/
theorem IsSplit.forall_dot {stem a t : Text} (h : IsSplit (a ++ '.' :: t) stem []) :
    ∀ c ∈ a, c = '.' := by
  obtain ⟨-, ⟨-, he⟩ | ⟨-, hnone⟩⟩ := h
  · exact absurd rfl he.ne_nil
  · intro c hc
    by_contra hne
    exact hnone a t rfl ⟨c, hc, hne⟩

/-- A name is split in one way only. -/
theorem IsSplit.eq {n stem ext : Text} (h : IsSplit n stem ext) :
    splitExtension n = (stem, ext) := by
  obtain ⟨rfl, ⟨hs, he⟩ | ⟨rfl, hnone⟩⟩ := h
  · exact splitExtension_append hs he
  · have hnil : (splitExtension (stem ++ [])).2 = [] := by
      by_contra hne
      obtain ⟨hn, hs, t, ht, -⟩ := eq_append_of_splitExtension hne
      exact hnone _ t (ht ▸ hn) hs
    exact Prod.ext ((splitExtension_of_nil hnil).trans (List.append_nil stem)) hnil

/-! ### Facets of a path -/

section Facets
variable {st : Style} {p s e : Text}

theorem extension_of_name (hp : st.name p = s ++ e) (hs : IsStem s) (he : IsExtension e) :
    st.extension p = e := by
  rw [Style.extension, hp, splitExtension_append hs he]

theorem nameWithout_of_name (hp : st.name p = s ++ e) (hs : IsStem s) (he : IsExtension e) :
    st.nameWithout p e = s := by
  have hne : s ++ e ≠ e := fun h => hs.proper.ne_nil (by simpa using h)
  have hsuf : e.isSuffixOf (s ++ e) = true :=
    List.isSuffixOf_iff_suffix.mpr (List.suffix_append s e)
  rw [Style.nameWithout, hp]
  simp only [he.ne_nil, hne, hsuf, ne_eq, not_false_eq_true, and_self, if_true, List.length_append,
    Nat.add_sub_cancel, List.take_left']

theorem Style.mem_name_of_mem_extension {c : Char} (h : c ∈ st.extension p) : c ∈ st.name p := by
  have hne : (splitExtension (st.name p)).2 ≠ [] := List.ne_nil_of_mem h
  rw [(eq_append_of_splitExtension hne).1]
  exact List.mem_append_right _ h

theorem Style.mem_name_of_mem_nameWithout {ext : Text} {c : Char} (h : c ∈ st.nameWithout p ext) :
    c ∈ st.name p := by
  rw [nameWithout] at h
  split_ifs at h
  · exact List.mem_of_mem_take h
  · exact h

theorem Style.nameWithout_eq_nil (st : Style) (p ext : Text) :
    st.nameWithout p ext = [] ↔ st.name p = [] := by
  rw [nameWithout]
  split_ifs with h
  · obtain ⟨-, hne, hsuffix⟩ := h
    obtain ⟨t, ht⟩ := List.isSuffixOf_iff_suffix.mp hsuffix
    rw [← ht] at hne ⊢
    simp at hne ⊢
    tauto
  · rfl

theorem Style.nameWithout_extension (st : Style) (p : Text) :
    st.nameWithout p (st.extension p) = (splitExtension (st.name p)).1 := by
  by_cases he : st.extension p = []
  · rw [he, nameWithout, if_neg (fun h => h.1 rfl)]
    exact (splitExtension_of_nil he).symm
  · obtain ⟨hname, hs, he⟩ := eq_append_of_splitExtension he
    exact nameWithout_of_name hname hs he

/-- **The stem and the extension of a path** are what its name is split into. -/
theorem Style.isSplit_name (st : Style) (p : Text) :
    IsSplit (st.name p) (st.nameWithout p (st.extension p)) (st.extension p) := by
  rw [nameWithout_extension]
  exact isSplit_splitExtension (st.name p)

/-- **The name of a path is its stem and its extension.** -/
theorem Style.nameWithout_append_extension (st : Style) (p : Text) :
    st.nameWithout p (st.extension p) ++ st.extension p = st.name p :=
  (st.isSplit_name p).1.symm

theorem no_sep_name (st : Style) (p : Text) : ∀ c ∈ st.name p, st.isSep c = false := fun c hc => by
  have := List.mem_rtakeWhile_imp hc
  simpa using this

/-- **The parts of the name of a path**, in either style. The name is the stem and the extension,
and has no separators. The extension is empty, or a dot and no other one behind something other than
a dot; if it is empty, only dots come before the last dot of the name. -/
theorem Style.name_parts (st : Style) (p : Text) :
    st.name p = st.nameWithout p (st.extension p) ++ st.extension p ∧
      (∀ c ∈ st.name p, st.isSep c = false) ∧
      (st.extension p = [] ∨ IsExtension (st.extension p)) ∧
      (st.extension p ≠ [] → IsStem (st.nameWithout p (st.extension p))) ∧
      (st.extension p = [] → ∀ a t, st.name p = a ++ '.' :: t → '.' ∉ t → ∀ c ∈ a, c = '.') := by
  obtain ⟨hname, hparts⟩ := st.isSplit_name p
  refine ⟨hname, no_sep_name st p, ?_, fun hne => ?_, fun hnil a t ha _ => ?_⟩
  · exact hparts.elim (fun h => .inr h.2) fun h => .inl h.1
  · exact (hparts.resolve_right fun h => hne h.1).1
  · have hsplit := st.isSplit_name p
    rw [hnil, ha] at hsplit
    exact hsplit.forall_dot

end Facets

/-! ### The parts of a posix path -/

/-- **The parts of a path**: its directory in normal form, a stem and an extension. -/
structure Parted (p d s e : Text) : Prop where
  parent : Style.posix.normalize (Style.posix.parent p) = d
  name : Style.posix.name p = s ++ e
  stem : IsStem s
  extension : IsExtension e

theorem parted_of_extension {p : Text} (h : Style.posix.extension p ≠ []) :
    Parted p (Style.posix.normalize (Style.posix.parent p))
      (Style.posix.nameWithout p (Style.posix.extension p)) (Style.posix.extension p) := by
  obtain ⟨hname, hs, he⟩ := eq_append_of_splitExtension h
  rw [Style.nameWithout_extension]
  exact ⟨rfl, hname, hs, he⟩

theorem isName_append {st : Style} {s e : Text} (hs : IsStem s)
    (hsep : ∀ c ∈ s ++ e, st.isSep c = false) : st.IsName (s ++ e) :=
  ⟨(hs.append e).proper, hsep⟩

theorem parted_join (d : Text) {s e : Text} (hs : IsStem s) (he : IsExtension e)
    (hsep : ∀ c ∈ s ++ e, Style.posix.isSep c = false) :
    Parted (Style.posix.join [d, s ++ e]) (Style.posix.normalize d) s e := by
  have hn := isName_append hs hsep
  refine ⟨?_, name_join d hn, hs, he⟩
  rw [parent_join d hn, normalize_normalize]

theorem name_of_no_sep {b : Text} (hb : ∀ c ∈ b, Style.posix.isSep c = false) :
    Style.posix.name b = b := by
  by_cases hne : b = []
  · subst hne
    rfl
  · have htrim : Style.posix.trim b = b := Style.trim_append [] hne hb
    rw [Style.name, htrim]
    exact congrArg Prod.snd (@Style.splitName_root [] b (by simp) hb)

namespace Parted
variable {p d s e : Text} (h : Parted p d s e)
include h

theorem no_sep : ∀ c ∈ s ++ e, Style.posix.isSep c = false := fun c hc =>
  no_sep_name Style.posix p c (h.name ▸ hc)

theorem no_sep_stem : ∀ c ∈ s, Style.posix.isSep c = false := fun c hc =>
  h.no_sep c (List.mem_append_left e hc)

theorem no_sep_extension : ∀ c ∈ e, Style.posix.isSep c = false := fun c hc =>
  h.no_sep c (List.mem_append_right s hc)

theorem isName : Style.posix.IsName (s ++ e) := isName_append h.stem h.no_sep

theorem extension_eq : Style.posix.extension p = e := extension_of_name h.name h.stem h.extension

theorem nameWithout_eq : Style.posix.nameWithout p (Style.posix.extension p) = s := by
  rw [h.extension_eq]
  exact nameWithout_of_name h.name h.stem h.extension

theorem join_parent {n : Text} (hn : Style.posix.IsName n) :
    Style.posix.join [Style.posix.parent p, n] = Style.posix.join [d, n] := by
  rw [← join_normalize _ hn, h.parent]

theorem normalize_directory : Style.posix.normalize d = d := by
  rw [← h.parent, normalize_normalize]

end Parted

end VirtualFile.Path
