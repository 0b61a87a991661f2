import VirtualFile.Proofs.Path.Shares
/-!
# The parent of a path

The parent of a path is a shorter text that the path begins with, or the path itself, or `.`. It
keeps the drive, and the separator behind it if something else is written below that. So the parent
of an absolute path is absolute, but for the root of a drive: its separator is trimmed, and the bare
drive is left (`parent_absolute_iff`).

* `parent_isPrefix`: the parent of every path.
* `parent_below_sep`, `parent_of_bare`: below a separator, and of a drive alone.
-/

namespace VirtualFile.Path

namespace Style
variable {st : Style} {p drive : Text}

/-- A path begins with its parent, unless that is `.`. -/
theorem parent_isPrefix (st : Style) (p : Text) : st.parent p = here ∨ st.parent p ≠ [] ∧
    st.parent p <+: p := by
  obtain ⟨head, name, hcut, ⟨-, hparent⟩ | ⟨hne, hparent⟩⟩ := parent_cases st p
  · exact .inl hparent
  · rw [hparent]
    refine .inr ⟨hne, List.IsPrefix.trans ?_ (trim_isPrefix st p)⟩
    conv_rhs => rw [← drive_append st (st.trim p)]
    exact (List.prefix_append_right_inj _).mpr hcut.prefix_of

/-- **Below a separator** the drive and the separator stay. -/
theorem parent_below_sep {c : Char} {t : Text} (hdrive : st.drive (st.trim p) = (drive, c :: t))
    (hc : st.isSep c = true) : ∃ u, st.parent p = drive ++ c :: u ∧ c :: u <+: c :: t := by
  obtain ⟨head, name, hcut, hparent⟩ := parent_cases st p
  rw [hdrive] at hcut hparent
  obtain ⟨u, rfl⟩ := hcut.exists_cons hc
  refine ⟨u, ?_, hcut.prefix_of⟩
  obtain ⟨hnil, -⟩ | ⟨-, hparent⟩ := hparent
  · exact absurd hnil (by simp)
  · exact hparent

theorem parent_of_bare (hdrive : st.drive (st.trim p) = (drive, [])) (hne : drive ≠ []) :
    st.parent p = drive := by
  obtain ⟨head, name, hcut, hparent⟩ := parent_cases st p
  rw [hdrive] at hcut hparent
  obtain rfl := List.prefix_nil.mp hcut.prefix_of
  rw [List.append_nil] at hparent
  obtain ⟨hnil, -⟩ | ⟨-, hparent⟩ := hparent
  · exact absurd hnil hne
  · exact hparent

end Style

/-! ### Absolute paths -/

theorem exists_parent_root (t : Text) : ∃ u, Style.posix.parent ('/' :: t) = '/' :: u := by
  obtain ⟨v, htrim, -⟩ := Style.exists_trim_cons .posix '/' t
  have hdrive : Style.posix.drive (Style.posix.trim ('/' :: t)) = ([], '/' :: v) :=
    congrArg Style.posix.drive htrim
  obtain ⟨u, hparent, -⟩ := Style.parent_below_sep hdrive rfl
  exact ⟨u, hparent⟩

theorem exists_parent_letter {letter sep c : Char} {t : Text}
    (hsep : Style.windows.isSep sep = true) (hmem : c ∈ t) (hc : Style.windows.isSep c = false) :
    ∃ u, Style.windows.parent (letter :: ':' :: sep :: t) = letter :: ':' :: sep :: u := by
  obtain ⟨a, b, rfl⟩ := List.append_of_mem hmem
  -- the separator behind the colon is not at the end
  obtain ⟨v, htrim, -⟩ := Style.exists_trim_append .windows (letter :: ':' :: sep :: a) hc b
  have hdrive : Style.windows.drive (letter :: ':' :: sep :: a ++ c :: v) =
      ([letter, ':'], sep :: (a ++ c :: v)) :=
    splitDrive_colon letter _
  obtain ⟨u, hparent, -⟩ :=
    Style.parent_below_sep ((congrArg Style.windows.drive htrim).trans hdrive) hsep
  exact ⟨u, hparent⟩

theorem parent_letter_seps (letter : Char) {seps : Text}
    (hseps : ∀ c ∈ seps, Style.windows.isSep c = true) :
    Style.windows.parent (letter :: ':' :: seps) = [letter, ':'] := by
  have htrim : Style.windows.trim (letter :: ':' :: seps) = [letter, ':'] :=
    Style.trim_append_cons [letter] rfl hseps
  have hdrive : Style.windows.drive [letter, ':'] = ([letter, ':'], []) :=
    splitDrive_colon letter []
  exact Style.parent_of_bare ((congrArg Style.windows.drive htrim).trans hdrive)
    (List.cons_ne_nil _ _)

/-- **The parent of an absolute path** is absolute in posix style. In Windows style it is
so, on the same letter, if and only if anything but separators is written behind the first
one; otherwise it is the bare drive. -/
theorem parent_absolute_iff {sep : Char} (hsep : Style.windows.isSep sep = true) (letter : Char)
    (t : Text) : (∃ u, Style.posix.parent ('/' :: t) = '/' :: u) ∧
      ((∃ s u, Style.windows.isSep s = true ∧
          Style.windows.parent (letter :: ':' :: sep :: t) = letter :: ':' :: s :: u) ↔
        ∃ c ∈ t, Style.windows.isSep c = false) ∧
      ((∀ c ∈ t, Style.windows.isSep c = true) →
        Style.windows.parent (letter :: ':' :: sep :: t) = [letter, ':']) := by
  have hbare : (∀ c ∈ t, Style.windows.isSep c = true) →
      Style.windows.parent (letter :: ':' :: sep :: t) = [letter, ':'] := fun ht =>
    parent_letter_seps letter (List.forall_mem_cons.mpr ⟨hsep, ht⟩)
  refine ⟨exists_parent_root t, ⟨?_, ?_⟩, hbare⟩
  · rintro ⟨s, u, -, hparent⟩
    by_contra hnone
    have ht : ∀ c ∈ t, Style.windows.isSep c = true := by simpa using hnone
    exact absurd (hparent.symm.trans (hbare ht)) (by simp)
  · rintro ⟨c, hmem, hc⟩
    obtain ⟨u, hparent⟩ := exists_parent_letter hsep hmem hc
    exact ⟨sep, u, hsep, hparent⟩

/-- Separators of both kinds, between the components and at the end. -/
theorem parent_absolute_iff_mixed : Style.windows.isSep '/' = true ∧
    ∃ s u, Style.windows.isSep s = true ∧
    Style.windows.parent "C:/a\\\\b/\\".toList = 'C' :: ':' :: s :: u := by
  have hsep : Style.windows.isSep '/' = true := rfl
  exact ⟨hsep, (parent_absolute_iff hsep 'C' "a\\\\b/\\".toList).2.1.mpr ⟨'a', by decide, rfl⟩⟩

/-- **The parent of the root of a drive** is not absolute: it is the drive without its root. -/
theorem parent_driveRoot : Style.windows.parent "C:\\".toList = "C:".toList ∧
    ¬ ∃ s u, Style.windows.isSep s = true ∧
    Style.windows.parent "C:\\".toList = 'C' :: ':' :: s :: u := by
  have hparent : Style.windows.parent "C:\\".toList = "C:".toList := by decide +kernel
  refine ⟨hparent, ?_⟩
  rintro ⟨s, u, -, habsolute⟩
  exact absurd (hparent.symm.trans habsolute) (by simp)

end VirtualFile.Path
