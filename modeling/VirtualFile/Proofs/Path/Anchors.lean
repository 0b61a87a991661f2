import VirtualFile.Proofs.Path.Drives
import VirtualFile.Proofs.Path.Extension
/-!
# What stands before the name

A Windows path in normal form is a drive, perhaps a backslash, and components. Where it has a name
it has components, and the last one is the name (`exists_concat`). So joining the name to what
stands before it gives the path again, unless nothing but a drive letter and its colon stand there:
joining puts a backslash between (`join_parent_name_windows`, `join_parent_name_bare`).

* `anchor_windows`: the drive and the root.
* `OnBareDrive`: a name right after a drive.
-/

namespace VirtualFile.Path

/-! ### Normal forms -/

/-- What follows a drive is below its root if it begins with a backslash. -/
def windowsRoot (rest : Text) : Text := if rest.head? = some '\\' then ['\\'] else []

theorem windowsRoot_cases (rest : Text) : windowsRoot rest = [] ∨ windowsRoot rest = ['\\'] := by
  rw [windowsRoot]
  split_ifs <;> simp

theorem isSep_windowsRoot {rest : Text} : ∀ c ∈ windowsRoot rest, Style.windows.isSep c = true := by
  rcases windowsRoot_cases rest with h | h <;> simp [h, Style.isSep]

/-- **The anchor** is the drive and the root. -/
theorem anchor_windows {p drive rest : Text} (h : splitDrive (p.replace '/' '\\') = (drive, rest)) :
    Style.windows.anchor p = (drive ++ windowsRoot rest, rest) := by
  simp only [Style.anchor, h, windowsRoot]
  rcases rest with _ | ⟨c, rest⟩
  · simp
  · by_cases hc : c = '\\' <;> simp [hc]

theorem slash_not_mem_normalize (p : Text) : '/' ∉ Style.windows.normalize p := by
  have hreplace : '/' ∉ p.replace '/' '\\' := by
    intro hmem
    obtain ⟨c, -, hc⟩ := List.mem_map.mp hmem
    split_ifs at hc with h
    · exact absurd hc (by decide)
    · exact h hc
  obtain ⟨drive, rest, hsplit⟩ : ∃ drive rest, splitDrive (p.replace '/' '\\') = (drive, rest) :=
    ⟨_, _, rfl⟩
  have happend := splitDrive_append (p.replace '/' '\\')
  rw [hsplit] at happend
  rw [← happend, List.mem_append, not_or] at hreplace
  obtain ⟨hdrive, hrest⟩ := hreplace
  rw [Style.normalize_eq_written, Style.written, anchor_windows hsplit]
  split_ifs with hnil
  · decide
  · have hkept : '/' ∉ Text.join '\\' (Style.windows.kept p) := by
      intro hmem
      obtain hsep | ⟨c, hc, hmem⟩ := Text.mem_join hmem
      · exact absurd hsep (by decide)
      · rw [Style.kept, anchor_windows hsplit] at hc
        exact hrest (Text.mem_of_mem_split (mem_reduce hc) hmem)
    have hroot : '/' ∉ windowsRoot rest := by rcases windowsRoot_cases rest with h | h <;> simp [h]
    simp only [List.mem_append, not_or]
    exact ⟨⟨hdrive, hroot⟩, hkept⟩

/-- **A path in normal form that has a name** is a drive, perhaps a backslash, and components of
which the last is the name, or else `.`. -/
theorem exists_concat {p : Text} (hp : Style.windows.normalize p = p)
    (hname : Style.windows.name p ≠ []) :
    p = here ∨ ∃ drive root ks n,
    Style.windows.drive p = (drive, root ++ Text.join '\\' (ks ++ [n])) ∧
      (root = [] ∨ root = ['\\']) ∧ (∀ c ∈ ks, Plain c) ∧ Plain n := by
  have hslash := hp ▸ slash_not_mem_normalize p
  obtain ⟨drive, rest, hsplit⟩ : ∃ drive rest, splitDrive p = (drive, rest) := ⟨_, _, rfl⟩
  have happend := splitDrive_append p
  rw [hsplit] at happend
  have hwritten := hp
  rw [Style.normalize_eq_written, Style.written,
    anchor_windows ((congrArg splitDrive (replace_of_not_mem hslash)).trans hsplit)] at hwritten
  split_ifs at hwritten with hnil
  · exact .inl hwritten.symm
  right
  have hrest : rest = windowsRoot rest ++ Text.join '\\' (Style.windows.kept p) :=
    List.append_cancel_left ((happend.trans hwritten.symm).trans (List.append_assoc _ _ _))
  have hdrive : splitDrive p = (drive, windowsRoot rest ++ Text.join '\\' (Style.windows.kept p)) :=
    hrest ▸ hsplit
  have hplain : ∀ c ∈ Style.windows.kept p, Plain c := by
    refine fun c hc => ⟨Style.ne_nil_of_mem_kept hc, fun x hx => ?_⟩
    rw [Style.isSep, Bool.or_eq_false_iff, beq_eq_false_iff_ne, beq_eq_false_iff_ne]
    constructor <;> rintro rfl
    · exact hslash (hwritten ▸ List.mem_append_right _ (Text.mem_join_of_mem hc hx))
    · exact Style.sep_not_mem_kept hc hx
  obtain hkept | ⟨ks, n, hkept⟩ := List.eq_nil_or_concat' (Style.windows.kept p)
  · rw [hkept, Text.join, List.append_nil] at hdrive
    exact absurd (name_of_anchor hdrive isSep_windowsRoot) hname
  · rw [hkept] at hdrive hplain
    exact ⟨_, _, ks, n, hdrive, windowsRoot_cases _, fun c hc => hplain c (by simp [hc]),
      hplain n (by simp)⟩

/-! ### Joining what stands before the name -/

theorem normalize_here_cons {n : Text} (hdrive : splitDrive n = ([], n)) (hn : Plain n) :
    Style.windows.normalize (here ++ '\\' :: n) = Style.windows.normalize n := by
  have hslash : '/' ∉ n := fun h => absurd (hn.2 '/' h) (by decide)
  have hplain : Text.replace '/' '\\' n = n := replace_of_not_mem hslash
  have hbelow : Text.replace '/' '\\' (here ++ '\\' :: n) = here ++ '\\' :: n :=
    replace_of_not_mem (by simp [here, hslash])
  have hroot : windowsRoot n = [] :=
    if_neg fun h => absurd (hn.2 _ (List.mem_of_mem_head? h)) (by decide)
  have hanchor : Style.windows.anchor n = ([], n) := by
    rw [anchor_windows ((congrArg splitDrive hplain).trans hdrive), hroot, List.append_nil]
  have hanchor' : Style.windows.anchor (here ++ '\\' :: n) = ([], here ++ '\\' :: n) :=
    anchor_windows (congrArg splitDrive hbelow)
  have hkept : Style.windows.kept (here ++ '\\' :: n) = Style.windows.kept n := by
    rw [Style.kept, Style.kept, hanchor, hanchor', Text.split_append_cons (by decide)]
    rfl
  rw [Style.normalize_eq_written, Style.normalize_eq_written, hanchor, hanchor', hkept]

/-- **A name alone after a drive**: relative to the directory that the drive is in. -/
def OnBareDrive (p : Text) : Prop := ∃ letter, p = letter :: ':' :: Style.windows.name p

/-- What stands before the name, with the name below it, is the path
unless the name stands alone or after a drive. -/
theorem append_front (drive : Text) {root : Text} {ks : List Text}
    (hroot : root = [] ∨ root = ['\\']) (hks : ∀ c ∈ ks, Plain c) (n : Text)
    (hbelow : ¬ (root = [] ∧ ks = [])) :
    drive ++ (root ++ Text.join '\\' ks) ≠ [] ∧
    Style.windows.append (drive ++ (root ++ Text.join '\\' ks)) n =
      drive ++ (root ++ Text.join '\\' (ks ++ [n])) := by
  by_cases hne : ks = []
  · subst hne
    obtain rfl := hroot.resolve_left fun h => hbelow ⟨h, rfl⟩
    rw [Text.join, List.append_nil, Style.append_open drive rfl, List.append_assoc]
    exact ⟨List.concat_ne_nil _ _, rfl⟩
  · obtain ⟨u, c, hu, hc⟩ := exists_join_eq_concat hks hne
    rw [Text.join_concat hne, hu, ← List.append_assoc, ← List.append_assoc,
      Style.append_closed _ hc]
    exact ⟨List.concat_ne_nil _ _, by simp [Style.sep]⟩

/-- **Joining what stands before the name** and the name gives a path in normal form again, unless
it is a name alone after a drive. -/
theorem join_parent_name_windows {p : Text} (hp : Style.windows.normalize p = p)
    (hname : Style.windows.name p ≠ []) (hbare : ¬ OnBareDrive p) :
    Style.windows.join [Style.windows.parent p, Style.windows.name p] = p := by
  obtain rfl | ⟨drive, root, ks, n, hdrive, hroot, hks, hn⟩ := exists_concat hp hname
  · decide
  have hpath : drive ++ (root ++ Text.join '\\' (ks ++ [n])) = p := by
    have happend := splitDrive_append p
    rwa [show splitDrive p = _ from hdrive] at happend
  have hseps : ∀ c ∈ root, Style.windows.isSep c = true := by
    rcases hroot with rfl | rfl <;> simp [Style.isSep]
  have hparts := splitName_concat (hpath.symm ▸ hdrive) hseps hks hn
  rw [hpath] at hparts
  rw [Style.name, hparts] at hname ⊢
  rw [Style.parent, hparts]
  by_cases hbelow : root = [] ∧ ks = []
  · obtain ⟨rfl, rfl⟩ := hbelow
    by_cases hletter : drive = []
    · subst hletter
      obtain rfl : n = p := hpath
      exact (Style.join_pair _ (List.cons_ne_nil _ _) hn.1).trans
        ((normalize_here_cons hdrive hn).trans hp)
    · obtain ⟨letter, rfl⟩ := drive_eq_letter hdrive hn.1 hn.2 hletter
      refine absurd ⟨letter, ?_⟩ hbare
      rw [Style.name, hparts, ← hpath]
      rfl
  · obtain ⟨hfront, happend⟩ := append_front drive hroot hks n hbelow
    split
    · next h => exact absurd h hfront
    · rw [Style.join_pair _ hfront hn.1, happend, hpath, hp]

theorem join_parent_name_bare {p : Text} {letter : Char}
    (hp : p = letter :: ':' :: Style.windows.name p) (hname : Style.windows.name p ≠ []) :
    Style.windows.join [Style.windows.parent p, Style.windows.name p] =
      Style.windows.normalize (letter :: ':' :: '\\' :: Style.windows.name p) := by
  have hsep := no_sep_name .windows p
  have hdrive : Style.windows.drive p = ([letter, ':'], [] ++ Style.windows.name p) := by
    conv_lhs => rw [hp]
    exact splitDrive_colon letter _
  have htrim : Style.windows.trim p = p := by
    rw [hp]
    exact Style.trim_append [letter, ':'] hname hsep
  have hparent : Style.windows.parent p = [letter, ':'] := by
    rw [Style.parent, htrim, Style.splitName_below_root hdrive (List.forall_mem_nil _) hsep]
    rfl
  rw [hparent, Style.join_pair _ (List.cons_ne_nil _ _) hname]
  rfl

/-- Below the root of a drive is another path. -/
theorem normalize_letter_ne {letter : Char} {n : Text} (hn : Plain n) :
    Style.windows.normalize (letter :: ':' :: '\\' :: n) ≠ letter :: ':' :: n := by
  obtain ⟨l, hreplace⟩ : ∃ l, Text.replace '/' '\\' (letter :: ':' :: '\\' :: n) =
      l :: ':' :: Text.replace '/' '\\' ('\\' :: n) := ⟨_, rfl⟩
  have hdrive : splitDrive (Text.replace '/' '\\' (letter :: ':' :: '\\' :: n)) =
      ([l, ':'], '\\' :: Text.replace '/' '\\' n) := by
    rw [hreplace, splitDrive_colon]
    rfl
  rw [Style.normalize_eq_written, Style.written, anchor_windows hdrive]
  intro heq
  have hroot : n = '\\' :: Text.join '\\' (Style.windows.kept (letter :: ':' :: '\\' :: n)) := by
    simpa [windowsRoot, Style.sep] using (List.cons.inj (List.cons.inj heq).2).2.symm
  exact absurd (hn.2 '\\' (hroot ▸ List.mem_cons_self)) (by decide)

end VirtualFile.Path
