import Mathlib.Logic.Function.Iterate
import VirtualFile.Proofs.Path.Parents
/-!
# Walking up

From parent to parent a path becomes shorter until nothing more can be cut off, so the walk ends
after no more than one step for each character of the path and one more, in which nothing becomes
`.` (`parent_iterate`). It ends where the path begins: at its drive, at its root, or at `.`. Each
step keeps this top of the path, since the drive is told the same from less text behind it.

* `splitDrive_append_cons`: the drive of a text that goes on below it.
* `Style.top`: where the walk ends.
* `Style.top_parent`, `Style.top_of_parent_eq`: one step keeps it, and
  where nothing is cut off it is reached.
-/

namespace VirtualFile.Path

/-! ### Drives before less text -/

theorem splitShare_fst_ne_nil (start : Nat) {p : Text} (hp : p ≠ []) :
    (splitShare start p).1 ≠ [] := by
  unfold splitShare
  split
  split
  · exact hp
  · split
    · exact hp
    · simp

/-- There is a drive where two separators begin a text, or a colon is its second character. -/
theorem splitDrive_fst_eq_nil_iff (a b : Char) (t : Text) : (splitDrive (a :: b :: t)).1 = [] ↔
    ¬ (Style.windows.isSep a = true ∧ Style.windows.isSep b = true) ∧ b ≠ ':' := by
  rw [splitDrive]
  by_cases hsep : Style.windows.isSep a = true ∧ Style.windows.isSep b = true
  · simp [hsep, splitShare_fst_ne_nil]
  · have hneither : (Style.windows.isSep a && Style.windows.isSep b) = false := by simpa using hsep
    simp only [hneither, Bool.false_eq_true, if_false]
    by_cases hcolon : b = ':' <;> simp [hcolon, hsep]

theorem drive_fst_isPrefix {st : Style} {x p : Text} (hx : x <+: p) (h : (st.drive p).1 = []) :
    (st.drive x).1 = [] := by
  obtain ⟨w, rfl⟩ := hx
  cases st with
  | posix => rfl
  | windows =>
    rcases x with _ | ⟨a, _ | ⟨b, t⟩⟩
    · rfl
    · rfl
    · exact (splitDrive_fst_eq_nil_iff a b t).mpr ((splitDrive_fst_eq_nil_iff a b (t ++ w)).mp h)

theorem drive_eq_of_fst {st : Style} {p : Text} (h : (st.drive p).1 = []) :
    st.drive p = ([], p) := by
  refine Prod.ext h ?_
  have happend := drive_append st p
  rwa [h, List.nil_append] at happend

theorem shareStart_isPrefix {x w : Text} (h : shareStart (x ++ w) ≤ x.length) :
    shareStart x = shareStart (x ++ w) := by
  by_cases hlong : 8 ≤ x.length
  · rw [shareStart, shareStart, hasUncMark_append hlong]
  have hshort : hasUncMark x = false := by
    by_contra hmark
    obtain ⟨a, b, c, u, n, k, d, t, rfl, -⟩ := exists_of_hasUncMark (Bool.not_eq_false _ ▸ hmark)
    simp at hlong
  have hmark : hasUncMark (x ++ w) = false := by
    by_contra hmark
    rw [shareStart, if_pos (Bool.not_eq_false _ ▸ hmark)] at h
    omega
  rw [shareStart, shareStart, hshort, hmark]

theorem splitShare_append_cons {drive r w : Text} {c : Char}
    (h : splitShare (shareStart (drive ++ c :: (r ++ w))) (drive ++ c :: (r ++ w)) =
      (drive, c :: (r ++ w))) :
    splitShare (shareStart (drive ++ c :: r)) (drive ++ c :: r) = (drive, c :: r) := by
  have hpath : drive ++ c :: (r ++ w) = drive ++ c :: r ++ w := by simp
  generalize hstart : shareStart (drive ++ c :: (r ++ w)) = start at h
  obtain hall | ⟨server, share, rest, hshare⟩ := splitShare_cases start (drive ++ c :: (r ++ w))
  · exact absurd (Prod.mk.inj (h.symm.trans hall)).2 (by simp)
  obtain ⟨drive', hcut, -⟩ := splitShare_of_isShare hshare
  obtain rfl := (Prod.mk.inj (h.symm.trans hcut)).2
  obtain ⟨⟨s, hnames, hs⟩, hserver, hname, d, b, hrest, hd⟩ := hshare
  -- the names stand before what is left out
  have hlength : start ≤ (drive ++ c :: r).length := by
    have hcount := congrArg List.length hnames
    simp only [List.length_drop, List.length_append, List.length_cons] at hcount ⊢
    omega
  rw [hpath, List.drop_append_of_le_length hlength] at hnames
  have hnames' : (drive ++ c :: r).drop start = server ++ s :: (share ++ c :: r) :=
    List.append_cancel_right (hnames.trans (by simp))
  have hshare' : IsShare ((drive ++ c :: r).drop start) server share (c :: r) :=
    ⟨⟨s, hnames', hs⟩, hserver, hname, c, r, rfl, (List.cons.inj hrest).1 ▸ hd⟩
  rw [hpath] at hstart
  have hsame := shareStart_isPrefix (hstart.symm ▸ hlength)
  obtain ⟨drive'', hcut', happend⟩ := splitShare_of_isShare hshare'
  rw [hsame, hstart, hcut', List.append_cancel_right happend]

/-- **A drive is told the same** from less text behind it, as long as a separator is left. -/
theorem splitDrive_append_cons {drive r w : Text} {c : Char}
    (h : splitDrive (drive ++ c :: (r ++ w)) = (drive, c :: (r ++ w))) (hdrive : drive ≠ []) :
    splitDrive (drive ++ c :: r) = (drive, c :: r) := by
  obtain hnone | ⟨letter, t, heq, hletter⟩ | ⟨a, b, t, heq, ha, hb, hshare⟩ :=
    splitDrive_cases (drive ++ c :: (r ++ w))
  · exact absurd (Prod.mk.inj (h.symm.trans hnone)).1 hdrive
  · obtain ⟨rfl, -⟩ := Prod.mk.inj (h.symm.trans hletter)
    exact splitDrive_colon letter (c :: r)
  · rw [← splitShare_append_cons (hshare.symm.trans h)]
    have hbegins : ∃ u, drive ++ c :: r = a :: b :: u := by
      rcases drive with _ | ⟨x, _ | ⟨y, drive⟩⟩
      · exact absurd rfl hdrive
      all_goals
        simp only [List.cons_append, List.nil_append, List.cons.injEq] at heq ⊢
        obtain ⟨rfl, rfl, -⟩ := heq
        exact ⟨_, rfl, rfl, rfl⟩
    obtain ⟨u, hu⟩ := hbegins
    rw [hu, splitDrive_seps ha hb]

namespace Style
variable {st : Style} {p drive rest : Text}

/-! ### The top of a path -/

/-- **The top of a path**: its drive without separators at the end, or
else the separator that it begins with, or `.`. -/
def top (st : Style) (p : Text) : Text :=
  if (st.drive p).1 = [] then
    if p.head?.any st.isSep then p.take 1 else here
  else st.trim (st.drive p).1

theorem top_of_drive (hdrive : st.drive p = (drive, rest)) (hne : drive ≠ []) :
    st.top p = st.trim drive := by
  rw [top, hdrive, if_neg hne]

theorem top_cons {c : Char} {t : Text} (hdrive : (st.drive (c :: t)).1 = []) :
    st.top (c :: t) = if st.isSep c then [c] else here := by
  rw [top, if_pos hdrive]
  rfl

theorem top_here (st : Style) : st.top here = here := by cases st <;> rfl

/-- **Where nothing is cut off** a path is its top. -/
theorem top_of_parent_eq (h : st.parent p = p) : st.top p = p := by
  obtain ⟨head, name, hcut, hparent⟩ := parent_cases st p
  obtain ⟨drive, rest, hdrive⟩ : ∃ drive rest, st.drive (st.trim p) = (drive, rest) := ⟨_, _, rfl⟩
  have hsplit : drive ++ rest = st.trim p := by
    have happend := drive_append st (st.trim p)
    rwa [hdrive] at happend
  rw [hdrive] at hcut hparent
  dsimp only at hcut hparent
  obtain ⟨-, hparent⟩ | ⟨hne, hparent⟩ := hparent
  · rw [← h, hparent, top_here]
  -- neither trimming nor cutting off the name takes anything away
  have hlength : head.length = rest.length ∧ (st.trim p).length = p.length := by
    have hhead := hcut.prefix_of.length_le
    have htrim := (trim_isPrefix st p).length_le
    have hwhole := congrArg List.length (hparent.symm.trans h)
    rw [← hsplit] at htrim ⊢
    simp only [List.length_append] at htrim hwhole ⊢
    omega
  have htrim : st.trim p = p := (trim_isPrefix st p).eq_of_length hlength.2
  obtain rfl := hcut.prefix_of.eq_of_length hlength.1
  have hseps := hcut.isSep_of_self
  rw [htrim] at hsplit hdrive
  obtain rfl | ⟨r, c, rfl⟩ := List.eq_nil_or_concat' head
  · rw [List.append_nil] at hsplit hne
    rw [top_of_drive hdrive hne, hsplit, htrim]
  have hc : st.isSep c = true := hseps c (by simp)
  obtain ⟨hall, hfirst⟩ | ⟨u, d, seps, -, hd, -, hlast⟩ := trim_cases st p
  · -- a path of separators is one of them
    obtain ⟨a, rfl⟩ : ∃ a, p = [a] := by
      rw [htrim] at hfirst
      rcases p with _ | ⟨a, p⟩
      · simp at hsplit
      · exact ⟨a, hfirst⟩
    have hnone : drive = [] := by
      have hwhole := congrArg List.length hsplit
      simp only [List.length_append, List.length_cons, List.length_nil] at hwhole
      exact List.length_eq_zero_iff.mp (by omega)
    rw [top_cons (by rw [hdrive, hnone]), if_pos (hall a (by simp))]
  · -- a path that ends otherwise has no separators behind its drive
    rw [htrim, ← hsplit, ← List.append_assoc] at hlast
    obtain rfl := (List.cons.inj (List.append_inj' hlast rfl).2).1
    exact absurd hc (by simp [hd])

/-- **A path without a drive** keeps its root, or has none. -/
theorem top_parent_of_noDrive (hdrive : (st.drive p).1 = []) : st.top (st.parent p) = st.top p := by
  rcases p with _ | ⟨c, t⟩
  · cases st <;> rfl
  have hpre := parent_isPrefix st (c :: t)
  rw [top_cons hdrive]
  by_cases hc : st.isSep c = true
  · obtain ⟨v, htrim, hv⟩ := exists_trim_cons st c t
    have htrimmed : st.drive (c :: v) = ([], c :: v) :=
      drive_eq_of_fst (drive_fst_isPrefix (List.cons_prefix_cons.mpr ⟨rfl, hv⟩) hdrive)
    obtain ⟨u, hparent, hu⟩ := parent_below_sep ((congrArg st.drive htrim).trans htrimmed) hc
    rw [hparent, List.nil_append, top_cons (drive_fst_isPrefix hu (congrArg Prod.fst htrimmed))]
  · obtain hhere | ⟨hne, hpre⟩ := hpre
    · rw [hhere, top_here, if_neg hc]
    · obtain ⟨d, u, hparent⟩ := List.exists_cons_of_ne_nil hne
      have hnone := drive_fst_isPrefix hpre hdrive
      rw [hparent] at hpre hnone ⊢
      rw [top_cons hnone, (List.cons_prefix_cons.mp hpre).1]

/-- **A path on a drive letter** stays on it. -/
theorem top_parent_letter (letter : Char) (t : Text) :
    Style.windows.top (Style.windows.parent (letter :: ':' :: t)) =
      Style.windows.top (letter :: ':' :: t) := by
  have htop : ∀ u, Style.windows.top (letter :: ':' :: u) = Style.windows.trim [letter, ':'] :=
    fun u =>
      top_of_drive (splitDrive_colon letter u) (List.cons_ne_nil _ _)
  have hcolon : Style.windows.isSep ':' = false := rfl
  obtain ⟨v, htrim, -⟩ := exists_trim_append .windows [letter] hcolon t
  have hdrive : Style.windows.drive (Style.windows.trim (letter :: ':' :: t)) =
      ([letter, ':'], v) :=
    (congrArg Style.windows.drive htrim).trans (splitDrive_colon letter v)
  obtain ⟨head, name, -, hparent⟩ := parent_cases .windows (letter :: ':' :: t)
  rw [hdrive] at hparent
  obtain ⟨hnil, -⟩ | ⟨-, hparent⟩ := hparent
  · exact absurd hnil (by simp)
  · rw [hparent, htop]
    exact htop head

/-- **A share with names below it** keeps its drive: one step leaves a separator behind it. -/
theorem top_parent_below_share {s c : Char} {t : Text} (hp : splitDrive p = (drive, s :: t))
    (hne : drive ≠ []) (hs : Style.windows.isSep s = true) (hmem : c ∈ t)
    (hc : Style.windows.isSep c = false) :
    Style.windows.top (Style.windows.parent p) = Style.windows.trim drive := by
  have hpath : drive ++ s :: t = p := by
    have happend := splitDrive_append p
    rwa [hp] at happend
  obtain ⟨x, y, rfl⟩ := List.append_of_mem hmem
  obtain ⟨v, htrim, w, rfl⟩ := exists_trim_append .windows (drive ++ s :: x) hc y
  simp only [List.append_assoc, List.cons_append] at htrim
  rw [hpath] at htrim
  -- trimming and cutting off the name both leave less text behind the same drive
  have hwhole : splitDrive (drive ++ s :: (x ++ c :: v ++ w)) =
      (drive, s :: (x ++ c :: v ++ w)) := by
    simp only [List.append_assoc, List.cons_append]
    rw [hpath, hp]
  have htrimmed : Style.windows.drive (drive ++ s :: (x ++ c :: v)) = (drive, s :: (x ++ c :: v)) :=
    splitDrive_append_cons hwhole hne
  obtain ⟨u, hparent, hu⟩ :=
    parent_below_sep ((congrArg Style.windows.drive htrim).trans htrimmed) hs
  obtain ⟨w', hw'⟩ := (List.cons_prefix_cons.mp hu).2
  rw [← hw'] at htrimmed
  have hcut : Style.windows.drive (drive ++ s :: u) = (drive, s :: u) :=
    splitDrive_append_cons htrimmed hne
  rw [hparent, top_of_drive hcut hne]

/-- **A share with nothing below it** is its own top, without the separators at its end. -/
theorem top_parent_bare_share {a b : Char} {t : Text} (ha : Style.windows.isSep a = true)
    (hb : Style.windows.isSep b = true) (hp : splitDrive (a :: b :: t) = (drive, rest))
    (hrest : ∀ c ∈ rest, Style.windows.isSep c = true) :
    Style.windows.top (Style.windows.parent (a :: b :: t)) = Style.windows.trim (a :: b :: t) := by
  obtain hall | ⟨u, c, htrim, hc, hdrive⟩ := drive_trim_share ha hb hp hrest
  · have htrim : Style.windows.trim (a :: b :: t) = [a] := by
      rw [trim, Text.dropTrailing_of_all hall]; rfl
    have hdrive : Style.windows.drive (Style.windows.trim (a :: b :: t)) = ([], [a]) :=
      congrArg Style.windows.drive htrim
    obtain ⟨u, hparent, hu⟩ := parent_below_sep hdrive ha
    obtain rfl := List.prefix_nil.mp (List.cons_prefix_cons.mp hu).2
    rw [hparent, htrim, List.nil_append, top_cons rfl, if_pos ha]
  · have hbare : Style.windows.drive (u ++ [c]) = (u ++ [c], []) := hdrive
    have hne := List.concat_ne_nil c u
    rw [htrim, parent_of_bare ((congrArg Style.windows.drive htrim).trans hbare) hne,
      top_of_drive hbare hne]
    exact trim_append u (List.cons_ne_nil c []) (by simpa using hc)

/-- **A path on a share** stays on it. -/
theorem top_parent_share {a b : Char} (ha : Style.windows.isSep a = true)
    (hb : Style.windows.isSep b = true) (t : Text) :
    Style.windows.top (Style.windows.parent (a :: b :: t)) = Style.windows.top (a :: b :: t) := by
  obtain ⟨drive, rest, hdrive⟩ : ∃ drive rest, splitDrive (a :: b :: t) = (drive, rest) :=
    ⟨_, _, rfl⟩
  have hne : drive ≠ [] := by
    rintro rfl
    exact ((splitDrive_fst_eq_nil_iff a b t).mp (congrArg Prod.fst hdrive)).1 ⟨ha, hb⟩
  have htop : Style.windows.top (a :: b :: t) = Style.windows.trim drive := top_of_drive hdrive hne
  rw [htop]
  by_cases hrest : ∀ c ∈ rest, Style.windows.isSep c = true
  · have happend := splitDrive_append (a :: b :: t)
    rw [hdrive] at happend
    rw [top_parent_bare_share ha hb hdrive hrest, ← happend, trim_append_seps hne hrest]
  · simp only [not_forall, Bool.not_eq_true, exists_prop] at hrest
    obtain ⟨c, hmem, hc⟩ := hrest
    -- names below a share stand behind a separator
    obtain hall | ⟨server, share, rest', hshare⟩ :=
      splitShare_cases (shareStart (a :: b :: t)) (a :: b :: t)
    · rw [splitDrive_seps ha hb, hall] at hdrive
      obtain ⟨-, rfl⟩ := Prod.mk.inj hdrive
      exact absurd hmem (by simp)
    obtain ⟨drive', hcut, -⟩ := splitShare_of_isShare hshare
    obtain ⟨s, r, rfl, hs⟩ := hshare.rest
    obtain ⟨-, rfl⟩ := Prod.mk.inj (hdrive.symm.trans ((splitDrive_seps ha hb t).trans hcut))
    obtain rfl | hmem := List.mem_cons.mp hmem
    · exact absurd hs (by simp [hc])
    · exact top_parent_below_share hdrive hne hs hmem hc

/-- **One step keeps the top** of a path. -/
theorem top_parent (st : Style) (p : Text) : st.top (st.parent p) = st.top p := by
  cases st with
  | posix => exact top_parent_of_noDrive rfl
  | windows =>
    obtain hnone | ⟨letter, t, rfl, -⟩ | ⟨a, b, t, rfl, ha, hb, -⟩ := splitDrive_cases p
    · exact top_parent_of_noDrive (congrArg Prod.fst hnone)
    · exact top_parent_letter letter t
    · exact top_parent_share ha hb t

/-! ### Walking up -/

theorem parent_here (st : Style) : st.parent here = here := by cases st <;> rfl

/-- After as many steps as a path has characters nothing more can be cut off. -/
theorem parent_iterate_fixed (st : Style) {n : ℕ} {p : Text} (hn : p.length ≤ n) :
    Function.IsFixedPt st.parent (st.parent^[n + 1] p) := by
  induction n generalizing p with
  | zero =>
    obtain rfl := List.length_eq_zero_iff.mp (Nat.le_zero.mp hn)
    cases st <;> rfl
  | succ n ih =>
    rw [Function.iterate_succ_apply]
    obtain hhere | ⟨-, hpre⟩ := parent_isPrefix st p
    · rw [hhere, Function.iterate_fixed (parent_here st)]
      exact parent_here st
    by_cases hsame : st.parent p = p
    · rw [hsame, Function.iterate_fixed hsame]
      exact hsame
    · refine ih ?_
      have hle := hpre.length_le
      have hlt : (st.parent p).length ≠ p.length := fun h => hsame (hpre.eq_of_length h)
      omega

theorem top_iterate (st : Style) (n : ℕ) (p : Text) : st.top (st.parent^[n] p) = st.top p := by
  induction n with
  | zero => rfl
  | succ n ih => rw [Function.iterate_succ_apply', top_parent, ih]

theorem top_posix (p : Text) : Style.posix.top p = if p.head? = some '/' then ['/'] else here := by
  rcases p with _ | ⟨c, t⟩
  · rfl
  · rw [top_cons rfl]
    by_cases hc : c = '/' <;> simp [isSep, hc]

/-- **Walking up ends** in either style, after no more steps than the path has characters,
and one. There it is at the top of the path: in posix style at the root if the path begins
with a slash, and at `.` otherwise. -/
theorem parent_iterate (st : Style) (p : Text) :
    st.parent (st.parent^[p.length + 1] p) = st.parent^[p.length + 1] p ∧
      st.parent^[p.length + 1] p = st.top p ∧
      Style.posix.parent^[p.length + 1] p = if p.head? = some '/' then ['/'] else here := by
  have hfixed := fun st => parent_iterate_fixed st (Nat.le_refl p.length)
  have htop : ∀ st : Style, st.parent^[p.length + 1] p = st.top p := fun st => by
    rw [← top_iterate st (p.length + 1) p, top_of_parent_eq (hfixed st)]
  exact ⟨hfixed st, htop st, by rw [htop, top_posix]⟩

/-- Below a share, with separators of both kinds and an empty name. -/
example : Style.windows.top "\\\\?/uNc\\srv/sh\\\\a/".toList = "\\\\?/uNc\\srv/sh".toList := by
  decide +kernel

end Style

end VirtualFile.Path
