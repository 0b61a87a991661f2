import VirtualFile.Proofs.Path.Components
import VirtualFile.Proofs.Path.Names
/-!
# Names below posix directories

A posix path in normal form is a root and settled components. Joining a directory and a name adds
the name to the components of the directory (`join_name`), and splitting the result gives both back,
the directory in normal form (`parent_join`, `name_join`). The directory may as well have been in
normal form before (`join_normalize`).
-/

namespace VirtualFile.Path

/-! ### Roots -/

theorem posixRoot_none {t : Text} (ht : t.head? ≠ some '/') : posixRoot t = [] := by
  fun_cases posixRoot t <;> simp_all

theorem posixRoot_one {t : Text} (ht : t.head? ≠ some '/') : posixRoot ('/' :: t) = ['/'] := by
  cases t with
  | nil => rfl
  | cons c t =>
    have hc : c ≠ '/' := by simpa using ht
    simp [posixRoot, hc]

theorem posixRoot_two {t : Text} (ht : t.head? ≠ some '/') :
    posixRoot ('/' :: '/' :: t) = ['/', '/'] := by
  cases t with
  | nil => rfl
  | cons c t =>
    have hc : c ≠ '/' := by simpa using ht
    simp [posixRoot, hc]

/-- A path begins with no slash, with one, with two, or with more. -/
theorem slashes_cases (p : Text) : p.head? ≠ some '/' ∨
    (∃ t, p = '/' :: t ∧ t.head? ≠ some '/') ∨ (∃ t, p = '/' :: '/' :: t ∧ t.head? ≠ some '/') ∨
      ∃ t, p = '/' :: '/' :: '/' :: t := by
  rcases p with _ | ⟨a, _ | ⟨b, _ | ⟨c, t⟩⟩⟩ <;> simp
  all_goals tauto

theorem posixRoot_cases (p : Text) :
    posixRoot p = [] ∨ posixRoot p = ['/'] ∨ posixRoot p = ['/', '/'] := by
  fun_cases posixRoot p <;> simp

theorem posixRoot_root_append (p : Text) {t : Text} (ht : t.head? ≠ some '/') :
    posixRoot (posixRoot p ++ t) = posixRoot p := by
  rcases posixRoot_cases p with h | h | h <;> rw [h]
  · exact posixRoot_none ht
  · exact posixRoot_one ht
  · exact posixRoot_two ht

theorem head?_append_ne {u w : Text} (hu : u.head? ≠ some '/') (hw : u = [] → w.head? ≠ some '/') :
    (u ++ w).head? ≠ some '/' := by
  cases u with
  | nil => exact hw rfl
  | cons c u => exact hu

/-! ### Writing one text below another -/

/-- Either the first text ends with a slash already, or one is put between. -/
theorem append_cases (d t : Text) : (∃ u, d = u ++ ['/'] ∧ Style.posix.append d t = u ++ '/' :: t) ∨
    ((∀ u, d ≠ u ++ ['/']) ∧ Style.posix.append d t = d ++ '/' :: t) := by
  obtain rfl | ⟨u, c, rfl⟩ := List.eq_nil_or_concat' d
  · exact Or.inr ⟨by simp, rfl⟩
  by_cases hc : c = '/'
  · subst hc
    exact Or.inl ⟨u, rfl, by rw [Style.append_open u rfl, List.append_assoc, List.singleton_append]⟩
  · refine Or.inr ⟨fun v hv => hc (List.cons.inj (List.append_inj' hv rfl).2).1, ?_⟩
    exact Style.append_closed u (by simp [Style.isSep, hc]) t

/-- More text leaves the root of a path alone, unless it goes on with the slashes at its end. -/
theorem posixRoot_extend {d w : Text} (hd : d ≠ [])
    (hopen : (∃ u, d = u ++ ['/']) → w.head? ≠ some '/') : posixRoot (d ++ w) = posixRoot d := by
  rcases slashes_cases d with h | ⟨u, rfl, hu⟩ | ⟨u, rfl, hu⟩ | ⟨u, rfl⟩
  · rw [posixRoot_none h, posixRoot_none (head?_append_ne h fun h => absurd h hd)]
  · rw [posixRoot_one hu, List.cons_append]
    exact posixRoot_one (head?_append_ne hu fun h => hopen ⟨[], by simp [h]⟩)
  · rw [posixRoot_two hu, List.cons_append, List.cons_append]
    exact posixRoot_two (head?_append_ne hu fun h => hopen ⟨['/'], by simp [h]⟩)
  · rfl

theorem posixRoot_append {d t : Text} (hd : d ≠ []) (ht : t.head? ≠ some '/') :
    posixRoot (Style.posix.append d t) = posixRoot d := by
  -- if `d` ends with a slash, what is added to it begins with none
  rcases append_cases d t with ⟨u, rfl, h⟩ | ⟨hclosed, h⟩
  · rw [h, ← List.singleton_append, ← List.append_assoc]
    exact posixRoot_extend hd fun _ => ht
  · rw [h]
    exact posixRoot_extend hd fun ⟨u, hu⟩ => absurd hu (hclosed u)

/-! ### Normal forms -/

theorem kept_posix (p : Text) :
    Style.posix.kept p = reduce (posixRoot p != []) (p.split (· == '/')) := by
  have : Style.posix.endsWithSep (posixRoot p) = (posixRoot p != []) := by
    rcases posixRoot_cases p with h | h | h <;> rw [h] <;> rfl
  rw [← this]
  rfl

theorem kept_append {d t : Text} (hd : d ≠ []) (ht : t.head? ≠ some '/') :
    Style.posix.kept (Style.posix.append d t) =
      reduce (posixRoot d != []) (d.split (· == '/') ++ t.split (· == '/')) := by
  rw [kept_posix, posixRoot_append hd ht]
  rcases append_cases d t with ⟨u, rfl, h⟩ | ⟨-, h⟩
  · rw [h, Text.split_append_cons rfl, Text.split_append_cons rfl, Text.split, List.append_assoc,
      List.singleton_append, reduce_append_nil_cons]
  · rw [h, Text.split_append_cons rfl]

/-- A name: a proper component without separators. -/
structure Style.IsName (st : Style) (n : Text) : Prop extends Proper n where
  no_sep : ∀ c ∈ n, st.isSep c = false

theorem no_sep_iff {t : Text} : (∀ c ∈ t, Style.posix.isSep c = false) ↔ '/' ∉ t := by
  constructor
  · intro h hc
    exact absurd (h '/' hc) (by decide)
  · rintro h c hc
    rw [Style.isSep, beq_eq_false_iff_ne]
    rintro rfl
    exact h hc

theorem Style.IsName.head?_ne {n : Text} (hn : Style.posix.IsName n) : n.head? ≠ some '/' := by
  intro h
  obtain ⟨t, rfl⟩ := List.head?_eq_some_iff.mp h
  exact absurd (hn.no_sep '/' (by simp)) (by decide)

theorem Style.IsName.split_eq {n : Text} (hn : Style.posix.IsName n) : n.split (· == '/') = [n] :=
  Text.split_of_none hn.no_sep

theorem kept_append_name {d n : Text} (hd : d ≠ []) (hn : Style.posix.IsName n) :
    Style.posix.kept (Style.posix.append d n) = Style.posix.kept d ++ [n] := by
  rw [kept_append hd hn.head?_ne, hn.split_eq,
    reduce_concat_proper _ hn.toProper, kept_posix]

theorem kept_nil : Style.posix.kept [] = [] := rfl

/-- **Joining a directory and a name** adds the name to the components of the directory. -/
theorem join_name (d : Text) {n : Text} (hn : Style.posix.IsName n) :
    Style.posix.join [d, n] = Style.posix.written (posixRoot d) (Style.posix.kept d ++ [n]) := by
  by_cases hd : d = []
  · subst hd
    have hkept : Style.posix.kept n = [n] := by
      rw [kept_posix, hn.split_eq]
      exact reduce_concat_proper [] hn.toProper
    have hjoin : Style.posix.join [[], n] = Style.posix.normalize n := by
      simp [Style.join, hn.ne_nil]
    rw [hjoin, Style.normalize_eq_written, hkept, kept_nil]
    exact congrArg (Style.posix.written · [n]) (posixRoot_none hn.head?_ne)
  · rw [Style.join_pair _ hd hn.ne_nil, Style.normalize_eq_written, kept_append_name hd hn]
    exact congrArg (Style.posix.written · _) (posixRoot_append hd hn.head?_ne)

theorem head?_join_ne {ks : List Text} (hk : ∀ c ∈ ks, '/' ∉ c) (hne : ∀ c ∈ ks, c ≠ []) :
    (Text.join '/' ks).head? ≠ some '/' := by
  rcases ks with _ | ⟨c, _ | ⟨d, ks⟩⟩
  · simp [Text.join]
  all_goals
    obtain ⟨x, c, rfl⟩ := List.exists_cons_of_ne_nil (hne _ List.mem_cons_self)
    have := hk _ List.mem_cons_self
    simp_all [Text.join, eq_comm]

theorem head?_join_kept_ne (p : Text) : (Text.join '/' (Style.posix.kept p)).head? ≠ some '/' :=
  head?_join_ne (fun _ hc => Style.sep_not_mem_kept hc) fun _ hc => Style.ne_nil_of_mem_kept hc

theorem normalize_posix (p : Text) : Style.posix.normalize p =
    if posixRoot p = [] ∧ Style.posix.kept p = [] then here
    else posixRoot p ++ Text.join '/' (Style.posix.kept p) := rfl

theorem posixRoot_normalize (p : Text) : posixRoot (Style.posix.normalize p) = posixRoot p := by
  rw [normalize_posix]
  split_ifs with h
  · rw [h.1]; rfl
  · exact posixRoot_root_append p (head?_join_kept_ne p)

theorem reduce_split_root (p t : Text) (rooted : Bool) :
    reduce rooted ((posixRoot p ++ t).split (· == '/')) = reduce rooted (t.split (· == '/')) := by
  have hslash : ∀ u : Text, reduce rooted (Text.split (· == '/') ('/' :: u)) =
      reduce rooted (Text.split (· == '/') u) := fun u => by
    rw [← List.nil_append ('/' :: u), Text.split_append_cons rfl]
    exact reduce_append_nil_cons [] _
  rcases posixRoot_cases p with h | h | h <;> rw [h]
  · rfl
  · exact hslash t
  · exact (hslash ('/' :: t)).trans (hslash t)

theorem reduce_kept (p : Text) :
    reduce (posixRoot p != []) (Style.posix.kept p) = Style.posix.kept p := by
  rw [kept_posix, reduce_reduce]

theorem kept_normalize (p : Text) :
    Style.posix.kept (Style.posix.normalize p) = Style.posix.kept p := by
  rw [kept_posix, posixRoot_normalize, normalize_posix]
  split_ifs with h
  · rw [h.1, h.2]; rfl
  · rw [reduce_split_root]
    by_cases hk : Style.posix.kept p = []
    · rw [hk, Text.join, Text.split]
      exact reduce_append_nil_cons [] []
    · have hsep : ∀ c ∈ Style.posix.kept p, '/' ∉ c := fun _ hc => Style.sep_not_mem_kept hc
      rw [Text.split_join hsep hk, reduce_kept]

/-- **A directory may be in normal form before a name is joined to it.** -/
theorem join_normalize (d : Text) {n : Text} (hn : Style.posix.IsName n) :
    Style.posix.join [Style.posix.normalize d, n] = Style.posix.join [d, n] := by
  rw [join_name _ hn, join_name _ hn, posixRoot_normalize, kept_normalize]

theorem normalize_normalize (p : Text) :
    Style.posix.normalize (Style.posix.normalize p) = Style.posix.normalize p := by
  rw [normalize_posix, posixRoot_normalize, kept_normalize, ← normalize_posix]

/-! ### Splitting off the name -/

namespace Style

theorem splitName_root {root n : Text} (hroot : ∀ c ∈ root, c = '/')
    (hn : ∀ c ∈ n, posix.isSep c = false) : posix.splitName (root ++ n) = (root, n) :=
  splitName_below_root rfl (fun c hc => by rw [hroot c hc]; rfl) hn

theorem splitName_append {u n : Text} {c : Char} (hc : c ≠ '/')
    (hn : ∀ x ∈ n, posix.isSep x = false) :
    posix.splitName (u ++ [c] ++ '/' :: n) = (u ++ [c], n) :=
  splitName_below rfl (by simp [isSep, hc]) rfl hn

theorem splitName_written {p : Text} {ks : List Text} {n : Text} (hk : ∀ c ∈ ks, '/' ∉ c)
    (hne : ∀ c ∈ ks, c ≠ []) (hn : ∀ c ∈ n, posix.isSep c = false) :
    posix.splitName (posix.written (posixRoot p) (ks ++ [n])) =
      (posixRoot p ++ Text.join '/' ks, n) := by
  rw [written_concat]
  rcases List.eq_nil_or_concat' ks with rfl | ⟨ks, last, rfl⟩
  · rw [List.nil_append, Text.join, Text.join, List.append_nil]
    refine splitName_root (fun c hc => ?_) hn
    rcases posixRoot_cases p with h | h | h <;> simp_all
  · obtain ⟨m, c, rfl⟩ := (List.eq_nil_or_concat' last).resolve_left (hne last (by simp))
    have hc : c ≠ '/' := fun h => hk (m ++ [c]) (by simp) (by simp [h])
    obtain ⟨u, hu⟩ : ∃ u, posixRoot p ++ Text.join '/' (ks ++ [m ++ [c]]) = u ++ [c] := by
      obtain ⟨a, ha⟩ := Text.exists_join_concat '/' ks (m ++ [c])
      exact ⟨posixRoot p ++ (a ++ m), by simp [ha]⟩
    rw [hu, Text.join_concat (List.concat_ne_nil _ _), ← List.append_assoc]
    change posix.splitName (posixRoot p ++ Text.join '/' (ks ++ [m ++ [c]]) ++ '/' :: n) = _
    rw [hu]
    exact splitName_append hc hn

theorem trim_written (p : Text) (ks : List Text) {n : Text} (hne : n ≠ [])
    (hn : ∀ c ∈ n, posix.isSep c = false) :
    posix.trim (posix.written (posixRoot p) (ks ++ [n])) =
      posix.written (posixRoot p) (ks ++ [n]) := by
  obtain ⟨a, ha⟩ := Text.exists_join_concat posix.sep ks n
  rw [written_concat, ha, ← List.append_assoc]
  exact trim_append _ hne hn

end Style

theorem splitName_join (d : Text) {n : Text} (hn : Style.posix.IsName n) :
    Style.posix.splitName (Style.posix.trim (Style.posix.join [d, n])) =
      (posixRoot d ++ Text.join '/' (Style.posix.kept d), n) := by
  rw [join_name d hn, Style.trim_written _ _ hn.ne_nil hn.no_sep]
  exact Style.splitName_written (fun _ hc => Style.sep_not_mem_kept hc)
    (fun _ hc => Style.ne_nil_of_mem_kept hc) hn.no_sep

/-- **The parent of a joined path** is the directory in normal form. -/
theorem parent_join (d : Text) {n : Text} (hn : Style.posix.IsName n) :
    Style.posix.parent (Style.posix.join [d, n]) = Style.posix.normalize d := by
  rw [Style.parent_of_splitName (splitName_join d hn) fun _ hc => Style.ne_nil_of_mem_kept hc]
  rfl

/-- **The name of a joined path** is the name. -/
theorem name_join (d : Text) {n : Text} (hn : Style.posix.IsName n) :
    Style.posix.name (Style.posix.join [d, n]) = n := by
  rw [Style.name, splitName_join d hn]

end VirtualFile.Path
