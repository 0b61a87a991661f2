import VirtualFile.Proofs.Path.Anchors
/-!
# Names below Windows folders

A text that begins with no more than one separator and has no colon but after a drive letter, with a
separator behind, leads to a folder: joining a name to it adds one component, whatever else is
written in it, and splitting gives the folder in normal form and the name (`parent_join_windows`,
`name_join_windows`). Other texts need not: a bare drive is given a root, and more text may turn
what begins like a share into one.

* `Divides`: the drive of a folder and what follows it.
* `Divides.join_eq`: the drive and the root stay, and the name is the last component.
-/

namespace VirtualFile.Path

/-- The text does not begin with two separators, as a share does. -/
def NoShare : Text → Prop
  | a :: b :: _ => Style.windows.isSep a = true → Style.windows.isSep b = false
  | _ => True

theorem noShare_cons {c : Char} (hc : Style.windows.isSep c = false) (t : Text) :
    NoShare (c :: t) := by
  rcases t with _ | ⟨b, t⟩
  · trivial
  · exact fun h => absurd h (by simp [hc])

theorem noShare_of_tail {t : Text} (ht : ∀ c ∈ t.tail, Style.windows.isSep c = false) :
    NoShare t := by
  rcases t with _ | ⟨a, _ | ⟨b, t⟩⟩
  · trivial
  · trivial
  · exact fun _ => ht b (by simp)

/-- **Texts that lead to a folder**: no two separators begin them, and a colon is the second
character, with a separator behind, or there is none. -/
structure IsFolder (d : Text) : Prop where
  no_share : NoShare d
  colon : ':' ∉ d ∨ ∃ letter c t, d = letter :: ':' :: c :: t ∧ Style.windows.isSep c = true

/-- **The drive of a folder** and what follows it: none, or a letter with a separator behind. -/
inductive Divides : Text → Text → Prop
  | plain {rest : Text} (hcolon : ':' ∉ rest) (hshare : NoShare rest) : Divides [] rest
  | letter (letter : Char) {c : Char} (hc : Style.windows.isSep c = true) (t : Text) :
      Divides [letter, ':'] (c :: t)

theorem IsFolder.exists_divides {d : Text} (h : IsFolder d) :
    ∃ drive rest, d = drive ++ rest ∧ Divides drive rest := by
  obtain hcolon | ⟨letter, c, t, rfl, hc⟩ := h.colon
  · exact ⟨[], d, rfl, .plain hcolon h.no_share⟩
  · exact ⟨[letter, ':'], c :: t, rfl, .letter letter hc t⟩

namespace Divides
variable {drive rest n : Text}

theorem splitDrive_eq (h : Divides drive rest) : splitDrive (drive ++ rest) = (drive, rest) := by
  cases h with
  | plain hcolon hshare =>
    rcases rest with _ | ⟨a, _ | ⟨b, t⟩⟩
    · rfl
    · rfl
    · have hsep : (Style.windows.isSep a && Style.windows.isSep b) = false := by
        by_cases ha : Style.windows.isSep a = true
        · rw [hshare ha, Bool.and_false]
        · rw [Bool.eq_false_iff.mpr ha, Bool.false_and]
      have hb : b ≠ ':' := by
        rintro rfl
        simp at hcolon
      simp [splitDrive, hsep, hb]
  | letter letter hc t => exact splitDrive_colon letter _

theorem isSep_replaced (c : Char) :
    Style.windows.isSep (if c = '/' then '\\' else c) = Style.windows.isSep c := by
  by_cases hc : c = '/'
  · subst hc
    rfl
  · rw [if_neg hc]

theorem colon_mem_replace {t : Text} (h : ':' ∈ t.replace '/' '\\') : ':' ∈ t := by
  obtain ⟨c, hc, hcolon⟩ := List.mem_map.mp h
  split_ifs at hcolon
  · exact absurd hcolon (by decide)
  · exact hcolon ▸ hc

theorem replace (h : Divides drive rest) :
    Divides (drive.replace '/' '\\') (rest.replace '/' '\\') := by
  cases h with
  | plain hcolon hshare =>
    refine .plain (mt colon_mem_replace hcolon) ?_
    rcases rest with _ | ⟨a, _ | ⟨b, t⟩⟩
    · trivial
    · trivial
    · intro ha
      rw [isSep_replaced] at ha ⊢
      exact hshare ha
  | letter letter hc t => exact .letter _ ((isSep_replaced _).trans hc) _

/-- **The drive and the root of a folder, and what follows them**, written with backslashes. -/
theorem anchor_eq (h : Divides drive rest) : Style.windows.anchor (drive ++ rest) =
    (drive.replace '/' '\\' ++ windowsRoot (rest.replace '/' '\\'), rest.replace '/' '\\') := by
  refine anchor_windows ?_
  have happend : (drive ++ rest).replace '/' '\\' =
      drive.replace '/' '\\' ++ rest.replace '/' '\\' := List.map_append
  rw [happend, h.replace.splitDrive_eq]

theorem kept_eq (h : Divides drive rest) :
    Style.windows.kept (drive ++ rest) = reduce
      (Style.windows.endsWithSep (drive.replace '/' '\\' ++ windowsRoot (rest.replace '/' '\\')))
      (rest.split Style.windows.isSep) := by
  rw [Style.kept, h.anchor_eq]
  exact congrArg _ (split_replace rest)

/-! ### One more component -/

theorem append {w : Text} (h : Divides drive rest) (hne : rest ≠ []) (hcolon : ':' ∉ w)
    (hshare : ∀ c, rest = [c] → NoShare (c :: w)) : Divides drive (rest ++ w) := by
  cases h with
  | plain hrest hrest' =>
    refine .plain (by simp [hrest, hcolon]) ?_
    rcases rest with _ | ⟨a, _ | ⟨b, r⟩⟩
    · exact absurd rfl hne
    · exact hshare a rfl
    · exact hrest'
  | letter letter hc t => exact .letter letter hc (t ++ w)

theorem windowsRoot_append {t : Text} (hne : t ≠ []) (w : Text) :
    windowsRoot ((t ++ w).replace '/' '\\') = windowsRoot (t.replace '/' '\\') := by
  obtain ⟨c, t, rfl⟩ := List.exists_cons_of_ne_nil hne
  rfl

/-- **A name below a folder** is written behind what follows the
drive, with a backslash between if none stands there. -/
theorem append_name (h : Divides drive rest) (hne : rest ≠ []) (hn : Style.windows.IsName n)
    (hcolon : ':' ∉ n) :
    ∃ w, Style.windows.append (drive ++ rest) n = drive ++ (rest ++ w) ∧ Divides drive (rest ++ w) ∧
      ∀ rooted, reduce rooted ((rest ++ w).split Style.windows.isSep) =
        reduce rooted (rest.split Style.windows.isSep) ++ [n] := by
  have hsplit : n.split Style.windows.isSep = [n] := Text.split_of_none hn.no_sep
  obtain ⟨r, c, rfl⟩ := (List.eq_nil_or_concat' rest).resolve_left hne
  rw [← List.append_assoc drive]
  rcases hc : Style.windows.isSep c with _ | _
  · rw [Style.append_closed _ hc]
    refine ⟨'\\' :: n, by simp [Style.sep], h.append hne (by simp [hcolon]) ?_, fun rooted => ?_⟩
    · rintro d hd hsep
      have hlast : [c] = [d] := (List.append_inj' (show r ++ [c] = [] ++ [d] from hd) rfl).2
      exact absurd hsep (by simp [← (List.cons.inj hlast).1, hc])
    · rw [Text.split_append_cons (by decide), hsplit, reduce_concat_proper _ hn.toProper]
  · rw [Style.append_open _ hc]
    refine ⟨n, by simp, h.append hne hcolon fun d _ => noShare_of_tail hn.no_sep, fun rooted => ?_⟩
    rw [List.append_assoc, List.singleton_append, Text.split_append_cons hc,
      Text.split_append_cons hc, hsplit, reduce_concat_proper _ hn.toProper, Text.split,
      reduce_append_nil_cons, List.append_nil]

/-- **A name joined to the text** is the last component behind the drive and the root. -/
theorem exists_join (h : Divides drive rest) (hn : Style.windows.IsName n) (hcolon : ':' ∉ n) :
    ∃ rest',
    Style.windows.join [drive ++ rest, n] = Style.windows.normalize (drive ++ rest') ∧
    Divides drive rest' ∧
      windowsRoot (rest'.replace '/' '\\') = windowsRoot (rest.replace '/' '\\') ∧
      ∀ rooted, reduce rooted (rest'.split Style.windows.isSep) =
        reduce rooted (rest.split Style.windows.isSep) ++ [n] := by
  by_cases hne : rest = []
  · cases h with
    | letter => exact absurd hne (by simp)
    | plain =>
      subst hne
      have hjoin : Style.windows.join [[], n] = Style.windows.normalize n := by
        simp [Style.join, hn.ne_nil]
      have hdivides : Divides [] n :=
        .plain hcolon (noShare_of_tail fun c hc => hn.no_sep c (List.mem_of_mem_tail hc))
      have hslash : '/' ∉ n := fun h => absurd (hn.no_sep '/' h) (by decide)
      refine ⟨n, hjoin, hdivides, ?_, fun rooted => ?_⟩
      · rw [replace_of_not_mem hslash]
        exact if_neg fun h => absurd (hn.no_sep _ (List.mem_of_mem_head? h)) (by decide)
      · rw [Text.split_of_none hn.no_sep]
        exact reduce_concat_proper [] hn.toProper
  · obtain ⟨w, happend, hdivides, hreduce⟩ := h.append_name hne hn hcolon
    have hdir : drive ++ rest ≠ [] := fun h => hne (List.append_eq_nil_iff.mp h).2
    exact ⟨rest ++ w, by rw [Style.join_pair _ hdir hn.ne_nil, happend], hdivides,
      windowsRoot_append hne w, hreduce⟩

/-! ### Splitting the name off -/

theorem plain_kept (h : Divides drive rest) : ∀ c ∈ Style.windows.kept (drive ++ rest),
    Plain c := by
  intro c hc
  rw [h.kept_eq] at hc
  exact ⟨ne_nil_of_mem_reduce hc, Text.not_sep_of_mem_split (mem_reduce hc)⟩

/-- **Joining a folder and a name** keeps the drive and the root, and
the name is the last component. -/
theorem join_eq (h : Divides drive rest) (hn : Style.windows.IsName n) (hcolon : ':' ∉ n) :
    Style.windows.join [drive ++ rest, n] =
      drive.replace '/' '\\' ++ (windowsRoot (rest.replace '/' '\\') ++
        Text.join '\\' (Style.windows.kept (drive ++ rest) ++ [n])) := by
  obtain ⟨rest', hjoin, h', hroot, hreduce⟩ := h.exists_join hn hcolon
  have hkept : Style.windows.kept (drive ++ rest') = Style.windows.kept (drive ++ rest) ++ [n] := by
    rw [h'.kept_eq, h.kept_eq, hroot, hreduce]
  rw [hjoin, Style.normalize_eq_written, hkept, Style.written_concat, h'.anchor_eq, hroot,
    List.append_assoc]
  rfl

theorem below_root (h : Divides drive rest) (hn : Style.windows.IsName n) (hcolon : ':' ∉ n) :
    Divides (drive.replace '/' '\\') (windowsRoot (rest.replace '/' '\\') ++
      Text.join '\\' (Style.windows.kept (drive ++ rest) ++ [n])) := by
  have hplain : ∀ c ∈ Style.windows.kept (drive ++ rest) ++ [n], Plain c :=
    List.forall_mem_append.mpr ⟨h.plain_kept, by simpa using ⟨hn.ne_nil, hn.no_sep⟩⟩
  have hpieces : ∀ c ∈ Style.windows.kept (drive ++ rest), ∀ x ∈ c, x ∈ rest := by
    intro c hc x hx
    rw [h.kept_eq] at hc
    exact Text.mem_of_mem_split (mem_reduce hc) hx
  cases h with
  | @letter l c hc t =>
    -- the separator behind the letter is the root
    have hroot : windowsRoot (Text.replace '/' '\\' (c :: t)) = ['\\'] := by
      obtain rfl | rfl : c = '/' ∨ c = '\\' := by simpa [Style.isSep] using hc
      all_goals rfl
    rw [hroot]
    exact .letter _ rfl _
  | plain hrest hshare =>
    refine .plain ?_ ?_
    · intro hmem
      obtain hmem | hmem := List.mem_append.mp hmem
      · exact absurd (isSep_windowsRoot _ hmem) (by decide)
      · obtain hsep | ⟨c, hc, hmem⟩ := Text.mem_join hmem
        · exact absurd hsep (by decide)
        · obtain hc | hc := List.mem_append.mp hc
          · exact hrest (hpieces c hc _ hmem)
          · exact hcolon (List.mem_singleton.mp hc ▸ hmem)
    · obtain ⟨c, u, hu, hc⟩ := exists_join_eq_cons hplain (List.concat_ne_nil _ _)
      rw [hu]
      obtain hroot | hroot := windowsRoot_cases (Text.replace '/' '\\' rest)
      · rw [hroot]
        exact noShare_cons hc u
      · rw [hroot]
        exact fun _ => hc

end Divides

section Folder
variable {d n : Text} (hd : IsFolder d) (hn : Style.windows.IsName n) (hcolon : ':' ∉ n)
include hd hn hcolon

theorem splitName_join_windows :
    Style.windows.splitName (Style.windows.trim (Style.windows.join [d, n])) =
      ((Style.windows.anchor d).1 ++ Text.join '\\' (Style.windows.kept d), n) := by
  obtain ⟨drive, rest, rfl, h⟩ := hd.exists_divides
  rw [h.join_eq hn hcolon,
    splitName_concat (h.below_root hn hcolon).splitDrive_eq isSep_windowsRoot h.plain_kept
    ⟨hn.ne_nil, hn.no_sep⟩, h.anchor_eq, List.append_assoc]

/-- **The parent of a name joined to a folder** is the folder in normal form. -/
theorem parent_join_windows :
    Style.windows.parent (Style.windows.join [d, n]) = Style.windows.normalize d := by
  rw [Style.parent_of_splitName (splitName_join_windows hd hn hcolon) fun _ hc =>
    Style.ne_nil_of_mem_kept hc]
  rfl

theorem name_join_windows : Style.windows.name (Style.windows.join [d, n]) = n := by
  rw [Style.name, splitName_join_windows hd hn hcolon]

end Folder

end VirtualFile.Path
