import VirtualFile.Proofs.Path.Components
import VirtualFile.Proofs.Path.Names
import VirtualFile.Proofs.Path.Shares
/-!
# Paths on a drive

A Windows path that begins with a drive letter, a colon and a separator is in normal form if it is
written with backslashes and its components are settled. Below such a path a name is one more
component (`join_onDrive`), and splitting gives it back (`name_onDrive`, `parent_onDrive`). Names
here have separators of neither kind.

* `split_replace`: the pieces between separators of both kinds.
* `splitName_concat`: a name behind a drive, a root and components.
* `onDrive`: the path of a drive letter and components.
* `exists_onDrive`: every path in normal form that begins like one is one.
-/

namespace VirtualFile.Path

theorem replace_of_not_mem {t : Text} (ht : '/' ∉ t) : t.replace '/' '\\' = t := by
  refine (List.map_congr_left fun c hc => if_neg ?_).trans (List.map_id t)
  rintro rfl
  exact ht hc

theorem split_replace (t : Text) :
    Text.split (· == '\\') (t.replace '/' '\\') = Text.split Style.windows.isSep t := by
  induction t using Text.pieces_induction Style.windows.isSep with
  | last t ht =>
    rw [replace_of_none ht, Text.split_of_none ht, Text.split_of_none fun c hc => ?_]
    have := ht c hc
    simp only [Style.isSep, Bool.or_eq_false_iff] at this
    exact this.2
  | piece a c b ha hc ih =>
    have hmap : Text.replace '/' '\\' (a ++ c :: b) = a ++ '\\' :: Text.replace '/' '\\' b := by
      rw [Text.replace, List.map_append, List.map_cons]
      congr 1
      · exact replace_of_none ha
      · rcases (by simpa [Style.isSep] using hc : c = '/' ∨ c = '\\') with rfl | rfl <;> rfl
    rw [hmap, Text.split_append_cons (by decide), Text.split_append_cons hc, ih,
      Text.split_of_none ha, Text.split_of_none fun x hx => ?_]
    have := ha x hx
    simp only [Style.isSep, Bool.or_eq_false_iff] at this
    exact this.2
where
  replace_of_none {t : Text} (ht : ∀ c ∈ t, Style.windows.isSep c = false) :
      t.replace '/' '\\' = t :=
    replace_of_not_mem fun hc => by simpa [Style.isSep] using ht '/' hc

/-- The path of a drive letter and components. -/
def onDrive (letter : Char) (ks : List Text) : Text := letter :: ':' :: '\\' :: Text.join '\\' ks

/-- A component that has no separators of either kind. -/
def Plain (c : Text) : Prop := c ≠ [] ∧ ∀ x ∈ c, Style.windows.isSep x = false

theorem exists_join_eq_concat {ks : List Text} (hks : ∀ c ∈ ks, Plain c) (hne : ks ≠ []) :
    ∃ u c, Text.join '\\' ks = u ++ [c] ∧ Style.windows.isSep c = false := by
  obtain ⟨ks, last, rfl⟩ := (List.eq_nil_or_concat' ks).resolve_left hne
  obtain ⟨hlast, hsep⟩ := hks last (by simp)
  obtain ⟨m, c, rfl⟩ := (List.eq_nil_or_concat' last).resolve_left hlast
  obtain ⟨a, ha⟩ := Text.exists_join_concat '\\' ks (m ++ [c])
  exact ⟨a ++ m, c, by simp [ha], hsep c (by simp)⟩

theorem exists_join_eq_cons {ks : List Text} (hks : ∀ c ∈ ks, Plain c) (hne : ks ≠ []) :
    ∃ c u, Text.join '\\' ks = c :: u ∧ Style.windows.isSep c = false := by
  rcases ks with _ | ⟨k, ks⟩
  · exact absurd rfl hne
  obtain ⟨hk, hsep⟩ := hks k (by simp)
  obtain ⟨c, k, rfl⟩ := List.exists_cons_of_ne_nil hk
  have hc := hsep c (by simp)
  rcases ks with _ | ⟨l, ks⟩
  · exact ⟨c, k, rfl, hc⟩
  · exact ⟨c, _, rfl, hc⟩

/-- **Splitting the name off** a drive, a root and components. -/
theorem splitName_concat {drive root : Text} {ks : List Text} {n : Text}
    (hdrive : Style.windows.drive (drive ++ (root ++ Text.join '\\' (ks ++ [n]))) =
      (drive, root ++ Text.join '\\' (ks ++ [n])))
    (hroot : ∀ c ∈ root, Style.windows.isSep c = true) (hks : ∀ c ∈ ks, Plain c) (hn : Plain n) :
    Style.windows.splitName (Style.windows.trim (drive ++ (root ++ Text.join '\\' (ks ++ [n])))) =
      (drive ++ (root ++ Text.join '\\' ks), n) := by
  have htrim : Style.windows.trim (drive ++ (root ++ Text.join '\\' (ks ++ [n]))) =
      drive ++ (root ++ Text.join '\\' (ks ++ [n])) := by
    obtain ⟨a, ha⟩ := Text.exists_join_concat '\\' ks n
    rw [ha, ← List.append_assoc, ← List.append_assoc]
    exact Style.trim_append (drive ++ root ++ a) hn.1 hn.2
  rw [htrim]
  by_cases hne : ks = []
  · subst hne
    exact (Style.splitName_below_root hdrive hroot hn.2).trans (by simp [Text.join])
  · obtain ⟨u, c, hu, hc⟩ := exists_join_eq_concat hks hne
    rw [Text.join_concat hne, hu] at hdrive ⊢
    have hdrive' : Style.windows.drive (drive ++ (root ++ (u ++ [c] ++ '\\' :: n))) =
        (drive, root ++ u ++ [c] ++ '\\' :: n) := by
      rw [hdrive]
      simp
    rw [Style.splitName_below hdrive' hc rfl hn.2, List.append_assoc]

section Drive
variable {letter : Char} (hletter : Style.windows.isSep letter = false)
include hletter

theorem drive_letter (t : Text) :
    Style.windows.drive (letter :: ':' :: t) = ([letter, ':'], t) := by
  simp [Style.drive, splitDrive, hletter]

theorem anchor_letter (t : Text) : Style.windows.anchor (letter :: ':' :: '\\' :: t) =
    ([letter, ':', '\\'], '\\' :: t.replace '/' '\\') := by
  have hne : letter ≠ '/' := by
    rintro rfl
    exact absurd hletter (by decide)
  have hreplace : Text.replace '/' '\\' (letter :: ':' :: '\\' :: t) =
      letter :: ':' :: '\\' :: t.replace '/' '\\' := by
    simp [Text.replace, hne]
  have hdrive : splitDrive (letter :: ':' :: '\\' :: t.replace '/' '\\') =
      ([letter, ':'], '\\' :: t.replace '/' '\\') := drive_letter hletter _
  simp only [Style.anchor, hreplace, hdrive]
  rfl

theorem kept_letter (t : Text) : Style.windows.kept (letter :: ':' :: '\\' :: t) =
    reduce true (t.split Style.windows.isSep) := by
  rw [Style.kept, anchor_letter hletter, ← split_replace]
  change reduce true (Text.split (· == '\\') ([] ++ '\\' :: t.replace '/' '\\')) = _
  rw [Text.split_append_cons (by decide)]
  exact reduce_append_nil_cons [] _

theorem normalize_letter (t : Text) : Style.windows.normalize (letter :: ':' :: '\\' :: t) =
    onDrive letter (reduce true (t.split Style.windows.isSep)) := by
  rw [Style.normalize_eq_written, kept_letter hletter, anchor_letter hletter]
  rfl

theorem kept_onDrive {ks : List Text} (hks : ∀ c ∈ ks, Plain c) :
    Style.windows.kept (onDrive letter ks) = reduce true ks := by
  rw [onDrive, kept_letter hletter]
  by_cases hne : ks = []
  · subst hne
    exact reduce_append_nil_cons [] []
  · rw [Text.split_join_of_sep rfl (fun c hc => (hks c hc).2) hne]

theorem normalize_onDrive {ks : List Text} (hks : ∀ c ∈ ks, Plain c) :
    Style.windows.normalize (onDrive letter ks) = onDrive letter (reduce true ks) := by
  have hkept := kept_onDrive hletter hks
  rw [onDrive, kept_letter hletter] at hkept
  rw [onDrive, normalize_letter hletter, hkept]

/-- **A path in normal form that begins with a drive letter** is that of settled components. -/
theorem exists_onDrive {t : Text}
    (hp : Style.windows.normalize (letter :: ':' :: '\\' :: t) = letter :: ':' :: '\\' :: t) :
    ∃ ks, letter :: ':' :: '\\' :: t = onDrive letter ks ∧ reduce true ks = ks ∧ ∀ c ∈ ks,
    Plain c := by
  rw [normalize_letter hletter] at hp
  refine ⟨_, hp.symm, reduce_reduce _, fun c hc => ⟨ne_nil_of_mem_reduce hc, ?_⟩⟩
  exact Text.not_sep_of_mem_split (mem_reduce hc)

/-! ### Names on a drive -/

theorem splitName_onDrive {ks : List Text} {n : Text} (hks : ∀ c ∈ ks, Plain c) (hn : Plain n) :
    Style.windows.splitName (Style.windows.trim (onDrive letter (ks ++ [n]))) =
      (onDrive letter ks, n) := by
  have hdrive : Style.windows.drive ([letter, ':'] ++ (['\\'] ++ Text.join '\\' (ks ++ [n]))) =
      ([letter, ':'], ['\\'] ++ Text.join '\\' (ks ++ [n])) := drive_letter hletter _
  exact splitName_concat hdrive (by simp [Style.isSep]) hks hn

theorem name_onDrive {ks : List Text} {n : Text} (hks : ∀ c ∈ ks, Plain c) (hn : Plain n) :
    Style.windows.name (onDrive letter (ks ++ [n])) = n := by
  rw [Style.name, splitName_onDrive hletter hks hn]

theorem parent_onDrive {ks : List Text} {n : Text} (hks : ∀ c ∈ ks, Plain c) (hn : Plain n) :
    Style.windows.parent (onDrive letter (ks ++ [n])) = onDrive letter ks := by
  rw [Style.parent, splitName_onDrive hletter hks hn]
  rfl

omit hletter in
theorem name_onDrive_nil : Style.windows.name (onDrive letter []) = [] :=
  name_of_letter letter (by simp [Text.join, Style.isSep])

omit hletter in
theorem append_onDrive {ks : List Text} (n : Text) (hks : ∀ c ∈ ks, Plain c) :
    Style.windows.append (onDrive letter ks) n = onDrive letter (ks ++ [n]) := by
  by_cases hne : ks = []
  · subst hne
    exact Style.append_open [letter, ':'] rfl n
  · obtain ⟨u, c, hu, hc⟩ := exists_join_eq_concat hks hne
    rw [onDrive, onDrive, Text.join_concat hne, hu]
    exact Style.append_closed (letter :: ':' :: '\\' :: u) hc n

/-- **Joining a path on a drive and a name** adds the name to the components. -/
theorem join_onDrive {ks : List Text} {n : Text} (hks : ∀ c ∈ ks, Plain c) (hn : Plain n) :
    Style.windows.join [onDrive letter ks, n] = onDrive letter (reduce true (ks ++ [n])) := by
  have hplain : ∀ c ∈ ks ++ [n], Plain c := List.forall_mem_append.mpr ⟨hks, by simpa using hn⟩
  rw [Style.join_pair _ (by simp [onDrive]) hn.1, append_onDrive n hks,
    normalize_onDrive hletter hplain]

end Drive

end VirtualFile.Path
