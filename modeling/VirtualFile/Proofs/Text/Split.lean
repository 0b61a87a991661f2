import Mathlib.Data.List.DropRight
import VirtualFile.Text.Basic
/-!
# Pieces and tails of texts

What cutting a text does to a concatenation. `split` and `join` are the library's `splitOnP` and
`intercalate`, the longest tails are `rtakeWhile` and `rdropWhile`, so most facts come from there.

* `split_append_cons`, `split_of_none`: the pieces of a text beside a separator and without one.
* `pieces_induction`: texts grow by a piece and a separator in front.
* `mem_of_mem_split`, `mem_join`: the characters of pieces and of what they make.
* `split_join`, `join_split`, `join_concat`: joining, undone and extended by a piece.
* `takeTrailing_append_cons`, `dropTrailing_append_cons`: the longest tail starts at the last
  character that fails the test.
-/

namespace VirtualFile.Text

/-! ### Splitting -/

section Split
variable {sep : Char → Bool}

theorem split_eq_splitOnP (sep : Char → Bool) (t : Text) : split sep t = t.splitOnP sep := by
  induction t with
  | nil => rfl
  | cons c t ih =>
    rw [split, List.splitOnP_cons_eq_if_modifyHead, ih]
    cases h : t.splitOnP sep with
    | nil => exact absurd h (List.splitOnP_ne_nil sep t)
    | cons piece pieces => simp

theorem split_append_cons {c : Char} (hc : sep c) (a b : Text) :
    split sep (a ++ c :: b) = split sep a ++ split sep b := by
  simp only [split_eq_splitOnP, List.splitOnP_append_cons a b hc]

theorem split_of_none {t : Text} (ht : ∀ c ∈ t, sep c = false) : split sep t = [t] := by
  rw [split_eq_splitOnP, List.splitOnP_eq_singleton ht]

theorem exists_piece (sep : Char → Bool) (t : Text) :
    (∀ c ∈ t, sep c = false) ∨
      ∃ a c b, t = a ++ c :: b ∧ (∀ x ∈ a, sep x = false) ∧ sep c = true := by
  induction t with
  | nil => exact Or.inl (by simp)
  | cons d t ih =>
    rcases hd : sep d with _ | _
    · rcases ih with h | ⟨a, c, b, rfl, ha, hc⟩
      · exact Or.inl (List.forall_mem_cons.mpr ⟨hd, h⟩)
      · exact Or.inr ⟨d :: a, c, b, rfl, List.forall_mem_cons.mpr ⟨hd, ha⟩, hc⟩
    · exact Or.inr ⟨[], d, t, rfl, by simp, hd⟩

/-- **Induction over the pieces of a text.** -/
theorem pieces_induction {motive : Text → Prop} (sep : Char → Bool)
    (last : ∀ t : Text, (∀ c ∈ t, sep c = false) → motive t)
    (piece : ∀ (a : Text) (c : Char) (b : Text), (∀ x ∈ a, sep x = false) → sep c = true →
      motive b → motive (a ++ c :: b)) (t : Text) : motive t := by
  rcases exists_piece sep t with h | ⟨a, c, b, rfl, ha, hc⟩
  · exact last t h
  · exact piece a c b ha hc (pieces_induction sep last piece b)
termination_by t.length
decreasing_by subst_vars; simp; omega

theorem not_sep_of_mem_split {t p : Text} (hp : p ∈ split sep t) : ∀ c ∈ p, sep c = false := by
  induction t using pieces_induction sep with
  | last t ht =>
    rw [split_of_none ht, List.mem_singleton] at hp
    exact hp ▸ ht
  | piece a c b ha hc ih =>
    rw [split_append_cons hc, split_of_none ha, List.singleton_append, List.mem_cons] at hp
    rcases hp with rfl | hp
    · exact ha
    · exact ih hp

theorem mem_of_mem_split {t p : Text} (hp : p ∈ split sep t) {c : Char} (hc : c ∈ p) : c ∈ t := by
  induction t using pieces_induction sep with
  | last t ht =>
    rw [split_of_none ht, List.mem_singleton] at hp
    exact hp ▸ hc
  | piece a d b ha hd ih =>
    rw [split_append_cons hd, split_of_none ha, List.singleton_append, List.mem_cons] at hp
    rcases hp with rfl | hp
    · exact List.mem_append_left _ hc
    · exact List.mem_append_right _ (List.mem_cons_of_mem d (ih hp))

end Split

/-! ### Joining -/

theorem join_eq_intercalate (c : Char) (ps : List Text) : join c ps = [c].intercalate ps := by
  induction ps with
  | nil => rfl
  | cons p ps ih =>
    cases ps with
    | nil => simp [join]
    | cons q ps => rw [join, ih, List.intercalate_cons_cons]; simp

theorem split_join {c : Char} {ps : List Text} (hps : ∀ p ∈ ps, c ∉ p) (hne : ps ≠ []) :
    split (· == c) (join c ps) = ps := by
  rw [split_eq_splitOnP, join_eq_intercalate, ← List.splitOn_eq_splitOnP,
    List.splitOn_intercalate c hps hne]

theorem join_split (c : Char) (t : Text) : join c (split (· == c) t) = t := by
  rw [join_eq_intercalate, split_eq_splitOnP, ← List.splitOn_eq_splitOnP, List.intercalate_splitOn]

/-- A text is told by its pieces. -/
theorem split_injective (c : Char) : Function.Injective (split (· == c)) :=
  Function.LeftInverse.injective (join_split c)

theorem split_join_of_sep {sep : Char → Bool} {c : Char} (hc : sep c = true) :
    ∀ {ps : List Text}, (∀ p ∈ ps, ∀ x ∈ p, sep x = false) → ps ≠ [] → split sep (join c ps) = ps
  | [], _, hne => absurd rfl hne
  | [p], hps, _ => split_of_none (hps p (by simp))
  | p :: q :: ps, hps, _ => by
    rw [join, split_append_cons hc, split_of_none (hps p (by simp)),
      split_join_of_sep hc (fun r hr => hps r (List.mem_cons_of_mem p hr)) (by simp)]
    rfl

theorem join_concat {c : Char} {ps : List Text} (hne : ps ≠ []) (p : Text) :
    join c (ps ++ [p]) = join c ps ++ c :: p := by
  induction ps with
  | nil => exact absurd rfl hne
  | cons q ps ih =>
    cases ps with
    | nil => rfl
    | cons r ps =>
      have h := ih (by simp)
      simp only [List.cons_append] at h ⊢
      rw [join, join, h, List.append_assoc, List.cons_append]

theorem exists_join_concat (c : Char) (ps : List Text) (p : Text) :
    ∃ a, join c (ps ++ [p]) = a ++ p := by
  by_cases hps : ps = []
  · exact ⟨[], by rw [hps]; rfl⟩
  · exact ⟨join c ps ++ [c], by rw [join_concat hps]; simp⟩

theorem mem_join {c d : Char} : ∀ {ps : List Text}, d ∈ join c ps → d = c ∨ ∃ p ∈ ps, d ∈ p
  | [], h => absurd h (by simp [join])
  | [p], h => .inr ⟨p, by simp, h⟩
  | p :: q :: ps, h => by
    rw [join, List.mem_append, List.mem_cons] at h
    rcases h with h | rfl | h
    · exact .inr ⟨p, by simp, h⟩
    · exact .inl rfl
    · exact (mem_join h).imp_right fun ⟨r, hr, hd⟩ => ⟨r, List.mem_cons_of_mem p hr, hd⟩

theorem mem_join_of_mem {c d : Char} : ∀ {ps : List Text} {p : Text}, p ∈ ps → d ∈ p → d ∈ join c ps
  | [], _, hp, _ => absurd hp (by simp)
  | [_], _, hp, hd => List.mem_singleton.mp hp ▸ hd
  | q :: r :: ps, p, hp, hd => by
    rw [join]
    rcases List.mem_cons.mp hp with rfl | hp
    · exact List.mem_append_left _ hd
    · exact List.mem_append_right _ (List.mem_cons_of_mem c (mem_join_of_mem hp hd))

theorem join_eq_nil {c : Char} {ps : List Text} (hps : ∀ p ∈ ps, p ≠ []) (h : join c ps = []) :
    ps = [] := by
  rcases ps with _ | ⟨p, _ | ⟨q, ps⟩⟩
  · rfl
  · exact absurd h (hps p (by simp))
  · exact absurd (List.append_eq_nil_iff.mp h).2 (by simp)

/-! ### Tails -/

theorem takeTrailing_eq_rtakeWhile (p : Char → Bool) (t : Text) :
    takeTrailing p t = t.rtakeWhile p := rfl

theorem dropTrailing_eq_rdropWhile (p : Char → Bool) (t : Text) :
    dropTrailing p t = t.rdropWhile p := rfl

theorem exists_last (p : Char → Bool) (t : Text) :
    (∀ c ∈ t, p c = true) ∨ ∃ a c b, t = a ++ c :: b ∧ p c = false ∧ ∀ x ∈ b, p x = true := by
  induction t using List.reverseRecOn with
  | nil => exact Or.inl (by simp)
  | append_singleton t d ih =>
    rcases hd : p d with _ | _
    · exact Or.inr ⟨t, d, [], rfl, hd, by simp⟩
    · rcases ih with h | ⟨a, c, b, rfl, hc, hb⟩
      · exact Or.inl (List.forall_mem_append.mpr ⟨h, by simpa using hd⟩)
      · exact Or.inr ⟨a, c, b ++ [d], by simp, hc,
          List.forall_mem_append.mpr ⟨hb, by simpa using hd⟩⟩

section Tails
variable {p : Char → Bool} {b : Text}

theorem takeTrailing_of_all (hb : ∀ c ∈ b, p c = true) : takeTrailing p b = b :=
  List.rtakeWhile_eq_self_iff.mpr hb

theorem dropTrailing_of_all (hb : ∀ c ∈ b, p c = true) : dropTrailing p b = [] :=
  List.rdropWhile_eq_nil_iff.mpr hb

theorem takeTrailing_append_cons (a : Text) {c : Char} (hc : p c = false)
    (hb : ∀ x ∈ b, p x = true) : takeTrailing p (a ++ c :: b) = b := by
  induction b using List.reverseRecOn with
  | nil => exact List.rtakeWhile_concat_neg p a c (by simp [hc])
  | append_singleton b x ih =>
    have hx : p x = true := hb x (by simp)
    have hb' : ∀ y ∈ b, p y = true := fun y hy => hb y (by simp [hy])
    rw [← List.cons_append, ← List.append_assoc, takeTrailing_eq_rtakeWhile,
      List.rtakeWhile_concat_pos p _ x hx, ← takeTrailing_eq_rtakeWhile, ih hb']

theorem dropTrailing_append (a : Text) (hb : ∀ x ∈ b, p x = true) :
    dropTrailing p (a ++ b) = dropTrailing p a := by
  induction b using List.reverseRecOn with
  | nil => rw [List.append_nil]
  | append_singleton b x ih =>
    have hx : p x = true := hb x (by simp)
    have hb' : ∀ y ∈ b, p y = true := fun y hy => hb y (by simp [hy])
    rw [← List.append_assoc, dropTrailing_eq_rdropWhile, List.rdropWhile_concat_pos p _ x hx,
      ← dropTrailing_eq_rdropWhile, ih hb']

theorem dropTrailing_concat (a : Text) {c : Char} (hc : p c = false) :
    dropTrailing p (a ++ [c]) = a ++ [c] :=
  List.rdropWhile_concat_neg p a c (by simp [hc])

theorem dropTrailing_append_cons (a : Text) {c : Char} (hc : p c = false)
    (hb : ∀ x ∈ b, p x = true) : dropTrailing p (a ++ c :: b) = a ++ [c] := by
  rw [← List.singleton_append, ← List.append_assoc, dropTrailing_append _ hb,
    dropTrailing_concat a hc]

end Tails

end VirtualFile.Text
