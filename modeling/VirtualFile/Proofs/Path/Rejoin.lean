import VirtualFile.Proofs.Path.Posix
/-!
# A path is its directory and its name

Splitting the name off a posix path drops the slashes beside it, and the directory of a bare name is
written as `.`. None of this changes where the path leads: joining the two again gives the path in
normal form (`join_parent_name`).

* `reduce_split_slashes`: slashes in a row count as one.
* `exists_trim`, `exists_splitName`: where the name of a path stands in it.
-/

namespace VirtualFile.Path

/-! ### Slashes in a row -/

theorem reduce_split_slashes (rooted : Bool) (a : Text) {seps : Text} (hne : seps ≠ [])
    (hseps : ∀ c ∈ seps, c = '/') (b : Text) : reduce rooted ((a ++ (seps ++ b)).split (· == '/')) =
      reduce rooted (a.split (· == '/') ++ b.split (· == '/')) := by
  induction seps with
  | nil => exact absurd rfl hne
  | cons c seps ih =>
    obtain ⟨rfl, hrest⟩ := List.forall_mem_cons.mp hseps
    rw [List.cons_append, Text.split_append_cons rfl]
    cases seps with
    | nil => rfl
    | cons d seps =>
      -- the piece between the first two slashes is empty
      obtain ⟨rfl, -⟩ := List.forall_mem_cons.mp hrest
      have hempty : Text.split (· == '/') ('/' :: (seps ++ b)) =
          [] :: Text.split (· == '/') (seps ++ b) := by
        rw [← List.nil_append ('/' :: (seps ++ b)), Text.split_append_cons rfl]
        rfl
      rw [← ih (by simp) hrest, List.cons_append, hempty, reduce_append_nil_cons,
        Text.split_append_cons rfl]

theorem normalize_congr {p q : Text} (hroot : posixRoot p = posixRoot q)
    (hreduce : reduce (posixRoot q != []) (p.split (· == '/')) =
      reduce (posixRoot q != []) (q.split (· == '/'))) :
    Style.posix.normalize p = Style.posix.normalize q := by
  rw [normalize_posix, normalize_posix, kept_posix, kept_posix, hroot, hreduce]

theorem posixRoot_concat_append (u : Text) {c : Char} (hc : c ≠ '/') (w : Text) :
    posixRoot (u ++ [c] ++ w) = posixRoot (u ++ [c]) := by
  refine posixRoot_extend (List.concat_ne_nil _ _) ?_
  rintro ⟨v, hv⟩
  exact absurd (List.cons.inj (List.append_inj' hv rfl).2).1 hc

theorem normalize_append_slashes (u : Text) {c : Char} (hc : c ≠ '/') {seps : Text}
    (hseps : ∀ x ∈ seps, x = '/') :
    Style.posix.normalize (u ++ [c] ++ seps) = Style.posix.normalize (u ++ [c]) := by
  by_cases hne : seps = []
  · rw [hne, List.append_nil]
  · refine normalize_congr (posixRoot_concat_append u hc seps) ?_
    have hsplit := reduce_split_slashes (posixRoot (u ++ [c]) != []) (u ++ [c]) hne hseps []
    rw [List.append_nil] at hsplit
    rw [hsplit, Text.split, reduce_append_nil_cons, List.append_nil]

/-! ### The name within the path -/

/-- **How a directory stands before a name**: it is empty, or it is slashes, or it ends with
something else and there are slashes after it. -/
def Leads (d seps : Text) : Prop :=
  (d = [] ∧ seps = []) ∨ (d ≠ [] ∧ (∀ c ∈ d, c = '/') ∧ seps = []) ∨
    (∃ u c, d = u ++ [c] ∧ c ≠ '/') ∧ seps ≠ [] ∧ ∀ c ∈ seps, c = '/'

theorem eq_slash {c : Char} (h : Style.posix.isSep c = true) : c = '/' := by
  simpa [Style.isSep] using h

/-- A path with a name ends with it but for slashes. -/
theorem exists_trim {p : Text} (h : Style.posix.name p ≠ []) : ∃ a c tail, p = a ++ [c] ++ tail ∧
    c ≠ '/' ∧ (∀ x ∈ tail, x = '/') ∧ Style.posix.trim p = a ++ [c] := by
  obtain ⟨hall, htrim⟩ | ⟨a, c, tail, rfl, hc, htail, htrim⟩ := Style.trim_cases .posix p
  · -- of slashes only, there is no name
    refine absurd ?_ h
    rw [Style.name, htrim]
    rcases p with _ | ⟨d, p⟩
    · rfl
    · obtain rfl := eq_slash (hall d (by simp))
      rfl
  · refine ⟨a, c, tail, rfl, ?_, fun x hx => eq_slash (htail x hx), htrim⟩
    rintro rfl
    exact absurd hc (by decide)

/-- **Splitting the name off** a text that ends with no slash. -/
theorem exists_splitName (a : Text) {c : Char} (hc : c ≠ '/') : ∃ d seps m,
    Style.posix.splitName (a ++ [c]) = (d, m ++ [c]) ∧ a ++ [c] = d ++ (seps ++ (m ++ [c])) ∧
      '/' ∉ m ++ [c] ∧ Leads d seps := by
  have hc' : Style.posix.isSep c = false := by simpa [Style.isSep] using hc
  obtain ⟨d, n, hsplit, hcut⟩ := Style.exists_isCut .posix (a ++ [c])
  -- the name ends as the text does
  obtain ⟨m, rfl⟩ := hcut.exists_concat hc'
  cases hcut with
  | root hrest hd hname =>
    have hslash : ∀ x ∈ d, x = '/' := fun x hx => eq_slash (hd x hx)
    refine ⟨d, [], m, hsplit, hrest, no_sep_iff.mp hname, ?_⟩
    by_cases hnil : d = []
    · exact .inl ⟨hnil, rfl⟩
    · exact .inr (.inl ⟨hnil, hslash, rfl⟩)
  | below u seps e sep hrest hd he hseps hsep hname =>
    have he' : e ≠ '/' := by
      rintro rfl
      exact absurd he (by decide)
    have hseps' : ∀ x ∈ seps ++ [sep], x = '/' :=
      List.forall_mem_append.mpr ⟨fun x hx => eq_slash (hseps x hx), by simpa using eq_slash hsep⟩
    refine ⟨d, seps ++ [sep], m, hsplit, ?_, no_sep_iff.mp hname,
      .inr (.inr ⟨⟨u, e, hd, he'⟩, List.concat_ne_nil _ _, hseps'⟩)⟩
    rw [List.append_assoc seps]
    exact hrest

/-! ### Joining them again -/

/-- **Joining a name to the directory before it** gives the normal form of both as they stood. -/
theorem join_leads {d seps n : Text} (h : Leads d seps) (hne : n ≠ []) (hn : '/' ∉ n) :
    Style.posix.join [if d = [] then here else d, n] =
      Style.posix.normalize (d ++ (seps ++ n)) := by
  have hhead : n.head? ≠ some '/' := fun hhead => hn (List.mem_of_mem_head? hhead)
  have hjoin : ∀ {x : Text}, x ≠ [] → Style.posix.join [x, n] =
      Style.posix.normalize (Style.posix.append x n) :=
    fun hx => Style.posix.join_pair hx hne
  obtain ⟨rfl, rfl⟩ | ⟨hd, hall, rfl⟩ | ⟨⟨u, c, rfl, hc⟩, hseps, hslash⟩ := h
  · -- `.` before a name leads nowhere else
    rw [if_pos rfl, hjoin (by simp [here])]
    refine normalize_congr
      ((posixRoot_append (by simp [here]) hhead).trans (posixRoot_none hhead).symm) ?_
    have hsplit : (Style.posix.append here n).split (· == '/') = here :: n.split (· == '/') := by
      rw [show Style.posix.append here n = here ++ '/' :: n from rfl, Text.split_append_cons rfl]
      rfl
    rw [hsplit, reduce, List.foldl_cons, push_here]
    rfl
  · -- below a root the name is written as it stands
    rw [if_neg hd, hjoin hd]
    obtain ⟨u, c, rfl⟩ := (List.eq_nil_or_concat' d).resolve_left hd
    obtain rfl := hall c (by simp)
    exact congrArg _ ((Style.append_open u rfl n).trans (by simp))
  · have happend : Style.posix.append (u ++ [c]) n = u ++ [c] ++ '/' :: n :=
      Style.append_closed u (by simp [Style.isSep, hc]) n
    have hd : u ++ [c] ≠ [] := List.concat_ne_nil _ _
    rw [if_neg hd, hjoin hd]
    refine normalize_congr
      ((posixRoot_append hd hhead).trans (posixRoot_concat_append u hc _).symm) ?_
    rw [reduce_split_slashes _ _ hseps hslash, happend, Text.split_append_cons rfl]

/-- **Joining the directory and the name of a path** gives the path in normal form. -/
theorem join_parent_name {p : Text} (h : Style.posix.name p ≠ []) :
    Style.posix.join [Style.posix.parent p, Style.posix.name p] = Style.posix.normalize p := by
  obtain ⟨a, c, tail, rfl, hc, htail, htrim⟩ := exists_trim h
  obtain ⟨d, seps, m, hsplit, hpath, hm, hleads⟩ := exists_splitName a hc
  have hname : Style.posix.name (a ++ [c] ++ tail) = m ++ [c] := by rw [Style.name, htrim, hsplit]
  have hparent : Style.posix.parent (a ++ [c] ++ tail) = if d = [] then here else d := by
    rw [Style.parent, htrim, hsplit]
    cases d <;> simp [here]
  rw [hname, hparent, join_leads hleads (List.concat_ne_nil _ _) hm, ← hpath,
    normalize_append_slashes a hc htail]

end VirtualFile.Path
