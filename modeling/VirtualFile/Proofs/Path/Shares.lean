import Mathlib.Data.List.TakeDrop
import VirtualFile.Proofs.Path.Names
/-!
# Drives and shares

A Windows path begins with no drive, with a letter and a colon, or with a share: two separators, a
server and the name of the share. What follows a share begins with a separator. A drive and
separators after it are no path of a name (`name_of_anchor`): they stand before the components.

* `splitShare_cases`, `splitDrive_cases`: the kinds of drives.
* `splitDrive_append`: a drive is cut off.
* `shareStart_append`, `splitShare_of_anchor`: a share is told the
  same without the separators at its end.
-/

namespace VirtualFile.Path

/-! ### Kinds of drives -/

theorem span_append_cons {p : Char → Bool} {a b : Text} {c : Char} (ha : ∀ x ∈ a, p x = true)
    (hc : p c = false) : (a ++ c :: b).span p = (a, c :: b) := by
  rw [List.span_eq_takeWhile_dropWhile, List.takeWhile_append_of_pos ha,
    List.dropWhile_append_of_pos ha, List.takeWhile_cons_of_neg (by simp [hc]),
    List.dropWhile_cons_of_neg (by simp [hc]), List.append_nil]

theorem span_of_all {p : Char → Bool} {a : Text} (ha : ∀ x ∈ a, p x = true) :
    a.span p = (a, []) := by
  rw [List.span_eq_takeWhile_dropWhile, List.takeWhile_eq_self_iff.mpr ha,
    List.dropWhile_eq_nil_iff.mpr ha]

/-- **The two names of a share** and what follows them: a server, the
name of the share, and the rest from a separator on. -/
structure IsShare (t server share rest : Text) : Prop where
  eq : ∃ s, t = server ++ s :: (share ++ rest) ∧ Style.windows.isSep s = true
  server : ∀ x ∈ server, Style.windows.isSep x = false
  share : ∀ x ∈ share, Style.windows.isSep x = false
  rest : ∃ c b, rest = c :: b ∧ Style.windows.isSep c = true

theorem splitShare_of_isShare {start : Nat} {p server share rest : Text}
    (h : IsShare (p.drop start) server share rest) :
    ∃ drive, splitShare start p = (drive, rest) ∧ drive ++ rest = p := by
  obtain ⟨⟨s, hp, hs⟩, hserver, hshare, c, b, rfl, hc⟩ := h
  refine ⟨p.take start ++ server ++ s :: share, ?_, ?_⟩
  · have hfirst := span_append_cons (p := (!Style.windows.isSep ·)) (b := share ++ c :: b)
      (by simpa using hserver) (by simpa using hs)
    have hsecond :=
      span_append_cons (p := (!Style.windows.isSep ·)) (b := b) (by simpa using hshare)
        (by simpa using hc)
    simp only [splitShare, hp, hfirst, hsecond]
  · have hsplit := List.take_append_drop start p
    rw [hp] at hsplit
    simpa using hsplit

/-- **A text that begins like a share** names one, or is all drive. -/
theorem splitShare_cases (start : Nat) (p : Text) :
    splitShare start p = (p, []) ∨ ∃ server share rest,
    IsShare (p.drop start) server share rest := by
  obtain hnone | ⟨server, s, t, hp, hserver, hs⟩ :=
    Text.exists_piece Style.windows.isSep (p.drop start)
  · left
    have hspan := span_of_all (p := (!Style.windows.isSep ·)) (by simpa using hnone)
    simp only [splitShare, hspan]
  obtain hnone | ⟨share, c, b, rfl, hshare, hc⟩ := Text.exists_piece Style.windows.isSep t
  · left
    have hfirst :=
      span_append_cons (p := (!Style.windows.isSep ·)) (b := t) (by simpa using hserver)
        (by simpa using hs)
    have hsecond := span_of_all (p := (!Style.windows.isSep ·)) (by simpa using hnone)
    simp only [splitShare, hp, hfirst, hsecond]
  · exact .inr ⟨server, share, c :: b, ⟨s, hp, hs⟩, hserver, hshare, c, b, rfl, hc⟩

/-- How many characters of a share are read before its names. -/
def shareStart (p : Text) : Nat := if hasUncMark p then 8 else 2

theorem splitDrive_colon (letter : Char) (t : Text) :
    splitDrive (letter :: ':' :: t) = ([letter, ':'], t) := by
  simp [splitDrive, Style.isSep]

theorem splitDrive_seps {a b : Char} (ha : Style.windows.isSep a = true)
    (hb : Style.windows.isSep b = true) (t : Text) :
    splitDrive (a :: b :: t) = splitShare (shareStart (a :: b :: t)) (a :: b :: t) := by
  simp [splitDrive, ha, hb, shareStart]

/-- **The three kinds of drives**: none, a letter, and a share. -/
theorem splitDrive_cases (p : Text) : splitDrive p = ([], p) ∨
    (∃ letter t, p = letter :: ':' :: t ∧ splitDrive p = ([letter, ':'], t)) ∨
      ∃ a b t, p = a :: b :: t ∧ Style.windows.isSep a = true ∧ Style.windows.isSep b = true ∧
        splitDrive p = splitShare (shareStart p) p := by
  rcases p with _ | ⟨a, _ | ⟨b, t⟩⟩
  · exact .inl rfl
  · exact .inl rfl
  by_cases hsep : Style.windows.isSep a = true ∧ Style.windows.isSep b = true
  · exact .inr (.inr ⟨a, b, t, rfl, hsep.1, hsep.2, splitDrive_seps hsep.1 hsep.2 t⟩)
  by_cases hcolon : b = ':'
  · exact .inr (.inl ⟨a, t, by rw [hcolon], by rw [hcolon, splitDrive_colon]⟩)
  · exact .inl (by simp [splitDrive, hsep, hcolon])

theorem splitDrive_append (p : Text) : (splitDrive p).1 ++ (splitDrive p).2 = p := by
  obtain h | ⟨letter, t, rfl, h⟩ | ⟨a, b, t, -, -, -, h⟩ := splitDrive_cases p
  · rw [h, List.nil_append]
  · rw [h]
    rfl
  · rw [h]
    obtain hall | ⟨server, share, rest, hshare⟩ := splitShare_cases (shareStart p) p
    · rw [hall, List.append_nil]
    · obtain ⟨drive, hsplit, happend⟩ := splitShare_of_isShare hshare
      rw [hsplit, happend]

theorem drive_append (st : Style) (p : Text) : (st.drive p).1 ++ (st.drive p).2 = p := by
  cases st with
  | posix => rfl
  | windows => exact splitDrive_append p

theorem drive_eq_letter {p drive n : Text} (h : splitDrive p = (drive, n)) (hne : n ≠ [])
    (hn : ∀ c ∈ n, Style.windows.isSep c = false) (hdrive : drive ≠ []) :
    ∃ letter, drive = [letter, ':'] := by
  obtain hnone | ⟨letter, t, rfl, hletter⟩ | ⟨a, b, t, -, -, -, hsplit⟩ := splitDrive_cases p
  · exact absurd (Prod.mk.inj (h.symm.trans hnone)).1 hdrive
  · exact ⟨letter, (Prod.mk.inj (h.symm.trans hletter)).1⟩
  · obtain hall | ⟨server, share, rest, hshare⟩ := splitShare_cases (shareStart p) p
    · exact absurd (Prod.mk.inj (h.symm.trans (hsplit.trans hall))).2 hne
    · -- what follows a share begins with a separator
      obtain ⟨drive', hcut, -⟩ := splitShare_of_isShare hshare
      obtain ⟨c, u, hu, hc⟩ := hshare.rest
      obtain rfl := (Prod.mk.inj (h.symm.trans (hsplit.trans hcut))).2
      exact absurd hc (by simp [hn c (by simp [hu])])

/-! ### Separators at the end -/

theorem IsShare.append {t server share rest : Text} (h : IsShare t server share rest) (u : Text) :
    IsShare (t ++ u) server share (rest ++ u) := by
  obtain ⟨⟨s, rfl, hs⟩, hserver, hshare, c, b, rfl, hc⟩ := h
  exact ⟨⟨s, by simp, hs⟩, hserver, hshare, c, b ++ u, rfl, hc⟩

/-- The mark of a share has eight characters. The question mark and
the letters in it are no separators. -/
theorem exists_of_hasUncMark {p : Text} (h : hasUncMark p = true) :
    ∃ a b c u n k d t, p = a :: b :: '?' :: c :: u :: n :: k :: d :: t ∧
      ∀ x ∈ ['?', u, n, k], Style.windows.isSep x = false := by
  have hletter : ∀ {x y : Char}, x.toUpper = y → y ≠ '/' → y ≠ '\\' → Style.windows.isSep x =
      false := by
    rintro x y rfl hslash hback
    rw [Style.isSep, Bool.or_eq_false_iff, beq_eq_false_iff_ne, beq_eq_false_iff_ne]
    exact ⟨by rintro rfl; exact hslash rfl, by rintro rfl; exact hback rfl⟩
  revert h
  fun_cases hasUncMark p with
  | case1 a b c u n k d t =>
    intro h
    simp only [Bool.and_eq_true, beq_iff_eq, List.map_cons, List.map_nil, List.cons.injEq] at h
    obtain ⟨-, hu, hn, hk, -⟩ := h
    refine ⟨a, b, c, u, n, k, d, t, rfl, ?_⟩
    simp only [List.forall_mem_cons]
    exact ⟨by decide, hletter hu (by decide) (by decide), hletter hn (by decide) (by decide),
      hletter hk (by decide) (by decide), by simp⟩
  | case2 => simp

theorem IsShare.two_le_countP {t server share rest : Text} (h : IsShare t server share rest) :
    2 ≤ t.countP Style.windows.isSep := by
  obtain ⟨⟨s, rfl, hs⟩, -, -, c, b, rfl, hc⟩ := h
  simp only [List.countP_append, List.countP_cons, hs, hc, if_true]
  omega

theorem hasUncMark_append {t : Text} (ht : 8 ≤ t.length) (u : Text) :
    hasUncMark (t ++ u) = hasUncMark t := by
  rcases t with _ | ⟨a, _ | ⟨b, _ | ⟨c, _ | ⟨d, _ | ⟨e, _ | ⟨f, _ | ⟨g, _ | ⟨h, t⟩⟩⟩⟩⟩⟩⟩⟩
  all_goals simp at ht
  by_cases hc : c = '?'
  · subst hc
    rfl
  · simp [hasUncMark, hc]

/-- **A mark that separators complete** lacks the last of its
characters only: the one before is a letter. -/
theorem exists_of_hasUncMark_append {t seps : Text} (ht : t.length < 8)
    (hseps : ∀ x ∈ seps, Style.windows.isSep x = true) (h : hasUncMark (t ++ seps) = true) :
    ∃ a b c u n k, t = [a, b, '?', c, u, n, k] ∧ ∀ x ∈ ['?', u, n, k],
    Style.windows.isSep x = false := by
  obtain ⟨a, b, c, u, n, k, d, r, heq, hsep⟩ := exists_of_hasUncMark h
  have hseven : t.length = 7 := by
    by_contra hne
    have hget : (t ++ seps)[6]? = some k := by rw [heq]; rfl
    rw [List.getElem?_append_right (by omega)] at hget
    exact absurd (hseps k (List.mem_of_getElem? hget)) (by simp [hsep k (by simp)])
  refine ⟨a, b, c, u, n, k, ?_, hsep⟩
  have htake := congrArg (List.take 7) heq
  rwa [List.take_left' hseven] at htake

/-- Separators at the end are no part of a mark, but for the last character of it. What is left
without that names no share. -/
theorem shareStart_append {t seps server share rest : Text}
    (hseps : ∀ x ∈ seps, Style.windows.isSep x = true)
    (hshare : IsShare (t.drop (shareStart t)) server share rest) :
    shareStart (t ++ seps) = shareStart t := by
  by_cases hlong : 8 ≤ t.length
  · rw [shareStart, hasUncMark_append hlong, shareStart]
  have hshort : hasUncMark t = false := by
    by_contra hmark
    obtain ⟨a, b, c, u, n, k, d, r, rfl, -⟩ := exists_of_hasUncMark (Bool.not_eq_false _ ▸ hmark)
    simp at hlong
  by_cases hmark : hasUncMark (t ++ seps) = true
  · exfalso
    obtain ⟨a, b, c, u, n, k, rfl, hsep⟩ := exists_of_hasUncMark_append (by omega) hseps hmark
    simp only [List.forall_mem_cons] at hsep
    obtain ⟨hquery, hu, hn, hk, -⟩ := hsep
    -- the names of a share stand between two separators, and only one is left
    have hcount := hshare.two_le_countP
    rw [shareStart, hshort] at hcount
    simp only [Bool.false_eq_true, if_false, List.drop_succ_cons, List.drop_zero, List.countP_cons,
      List.countP_nil, hquery, hu, hn, hk] at hcount
    split_ifs at hcount <;> omega
  · rw [shareStart, shareStart, hshort, if_neg hmark]
    rfl

/-- Without the separators at its end, what begins like a share and names none is all drive. -/
theorem splitShare_of_anchor {u seps drive root : Text} {c : Char}
    (hc : Style.windows.isSep c = false) (hseps : ∀ x ∈ seps, Style.windows.isSep x = true)
    (hroot : ∀ x ∈ root, Style.windows.isSep x = true)
    (hsplit : splitShare (shareStart (u ++ [c] ++ seps)) (u ++ [c] ++ seps) = (drive, root)) :
    splitShare (shareStart (u ++ [c])) (u ++ [c]) = (u ++ [c], []) := by
  obtain hall | ⟨server, share, rest, hshare⟩ := splitShare_cases (shareStart (u ++ [c])) (u ++ [c])
  · exact hall
  exfalso
  -- then the whole text has the same share, and what follows it ends with `c`
  have hlength : shareStart (u ++ [c]) ≤ (u ++ [c]).length := by
    by_contra hlt
    have hcount := hshare.two_le_countP
    rw [List.drop_eq_nil_of_le (by omega)] at hcount
    simp at hcount
  have hwhole := hshare.append seps
  rw [← List.drop_append_of_le_length hlength, ← shareStart_append hseps hshare] at hwhole
  obtain ⟨drive', hdrive', -⟩ := splitShare_of_isShare hwhole
  obtain rfl := (Prod.mk.inj (hsplit.symm.trans hdrive')).2
  obtain ⟨drive'', -, happend⟩ := splitShare_of_isShare hshare
  obtain ⟨c', b, hrest, -⟩ := hshare.rest
  obtain ⟨r, l, rfl⟩ := (List.eq_nil_or_concat' rest).resolve_left (by simp [hrest])
  rw [← List.append_assoc] at happend
  obtain rfl := (List.cons.inj (List.append_inj' happend rfl).2).1
  exact absurd (hroot l (by simp)) (by simp [hc])

/-! ### Names of drives -/

theorem name_of_seps {p : Text} (hp : ∀ c ∈ p, Style.windows.isSep c = true) :
    Style.windows.name p = [] := by
  have htrim : Style.windows.trim p = p.take 1 := by rw [Style.trim, Text.dropTrailing_of_all hp]
  rw [Style.name, htrim]
  rcases p with _ | ⟨c, p⟩
  · rfl
  · have hdrive : Style.windows.drive [c] = ([], [c] ++ []) := rfl
    rw [List.take_succ_cons, List.take_zero,
      Style.splitName_below_root hdrive (by simpa using hp c (by simp)) (by simp)]

theorem name_of_letter (letter : Char) {root : Text}
    (hroot : ∀ c ∈ root, Style.windows.isSep c = true) :
    Style.windows.name (letter :: ':' :: root) = [] := by
  have htrim : Style.windows.trim (letter :: ':' :: root) = [letter, ':'] :=
    Style.trim_append_cons [letter] rfl hroot
  have hdrive : Style.windows.drive [letter, ':'] = ([letter, ':'], [] ++ []) :=
    splitDrive_colon letter []
  rw [Style.name, htrim, Style.splitName_below_root hdrive (by simp) (by simp)]

theorem exists_of_seps {a b c : Char} {t u w : Text} (heq : a :: b :: t = u ++ [c] ++ w)
    (ha : Style.windows.isSep a = true) (hb : Style.windows.isSep b = true)
    (hc : Style.windows.isSep c = false) : ∃ v, u = a :: b :: v := by
  rcases u with _ | ⟨x, _ | ⟨y, v⟩⟩
  all_goals simp only [List.nil_append, List.cons_append, List.cons.injEq] at heq
  · exact absurd ha (by simp [heq.1, hc])
  · exact absurd hb (by simp [heq.2.1, hc])
  · exact ⟨v, by rw [heq.1, heq.2.1]⟩

/-- **A share with nothing below it**, or what begins like one, is all
drive without the separators at its end. -/
theorem drive_trim_share {a b : Char} {t drive root : Text} (ha : Style.windows.isSep a = true)
    (hb : Style.windows.isSep b = true) (hshare : splitDrive (a :: b :: t) = (drive, root))
    (hroot : ∀ c ∈ root, Style.windows.isSep c = true) :
    (∀ c ∈ a :: b :: t, Style.windows.isSep c = true) ∨
    ∃ u c, Style.windows.trim (a :: b :: t) = u ++ [c] ∧
      Style.windows.isSep c = false ∧ splitDrive (u ++ [c]) = (u ++ [c], []) := by
  obtain ⟨hall, -⟩ | ⟨u, c, seps, heq, hc, hseps, htrim⟩ := Style.trim_cases .windows (a :: b :: t)
  · exact .inl hall
  obtain ⟨v, rfl⟩ := exists_of_seps heq ha hb hc
  refine .inr ⟨a :: b :: v, c, htrim, hc, ?_⟩
  have hwhole := (splitDrive_seps ha hb t).symm.trans hshare
  rw [heq] at hwhole
  exact (splitDrive_seps ha hb (v ++ [c])).trans (splitShare_of_anchor hc hseps hroot hwhole)

theorem name_of_share {a b : Char} {t drive root : Text} (ha : Style.windows.isSep a = true)
    (hb : Style.windows.isSep b = true) (hshare : splitDrive (a :: b :: t) = (drive, root))
    (hroot : ∀ c ∈ root, Style.windows.isSep c = true) : Style.windows.name (a :: b :: t) = [] := by
  obtain hall | ⟨u, c, htrim, -, hdrive⟩ := drive_trim_share ha hb hshare hroot
  · exact name_of_seps hall
  · have hdrive' : Style.windows.drive (u ++ [c]) = (u ++ [c], [] ++ []) := hdrive
    rw [Style.name, htrim, Style.splitName_below_root hdrive' (by simp) (by simp)]

/-- **What stands before the components has no name**: a drive with separators after it. -/
theorem name_of_anchor {p drive root : Text} (h : splitDrive p = (drive, root))
    (hroot : ∀ c ∈ root, Style.windows.isSep c = true) : Style.windows.name p = [] := by
  obtain hnone | ⟨letter, t, rfl, hletter⟩ | ⟨a, b, t, rfl, ha, hb, -⟩ := splitDrive_cases p
  · obtain ⟨-, rfl⟩ := Prod.mk.inj (h.symm.trans hnone)
    exact name_of_seps hroot
  · obtain ⟨-, rfl⟩ := Prod.mk.inj (h.symm.trans hletter)
    exact name_of_letter letter hroot
  · exact name_of_share ha hb h hroot

end VirtualFile.Path
