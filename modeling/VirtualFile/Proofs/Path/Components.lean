import VirtualFile.Path.Join
import VirtualFile.Proofs.Text.Split
/-!
# Components that remain

Normalising keeps the components of a path on a stack, the last one on top. What can be on it is
`Settled`: no empty or `.` component, and `..` only at the bottom and only without a root. On a
settled stack nothing is left to take away, so reducing twice is reducing once (`reduce_reduce`).

* `Proper`: a component that stays where it is put.
* `reduce_concat_proper`, `reduce_append_nil_cons`: one more component.
* `reduce_append_congr`, `reduce_append_reduce`: components may be
  reduced before they are put together.
* `mem_reduce`: no component is made up.
* `Style.kept`, `Style.written`: the components of a path, and the text of an anchor and components.
-/

namespace VirtualFile.Path

/-- A component that stays where it is put. -/
structure Proper (c : Text) : Prop where
  ne_nil : c ≠ []
  ne_here : c ≠ here
  ne_up : c ≠ up

/-- **What can be on the stack of components**, the last one first. -/
def Settled (rooted : Bool) : List Text → Prop
  | [] => True
  | c :: kept =>
    c ≠ [] ∧ c ≠ here ∧ (c = up → rooted = false ∧ ∀ d ∈ kept, d = up) ∧ Settled rooted kept

variable {rooted : Bool}

/-! ### One step -/

theorem push_nil (kept : List Text) : push rooted kept [] = kept := by
  simp [push]

theorem push_here (kept : List Text) : push rooted kept here = kept := by
  simp [push]

theorem push_up_nil : push rooted [] up = if rooted then [] else [up] := by
  simp [push, up, here]

theorem push_up_cons (last : Text) (before : List Text) :
    push rooted (last :: before) up = if last = up then up :: last :: before else before := by
  simp [push, up, here]

theorem push_proper {c : Text} (hc : Proper c) (kept : List Text) :
    push rooted kept c = c :: kept := by
  simp [push, hc.ne_nil, hc.ne_here, hc.ne_up]

theorem component_cases (c : Text) : c = [] ∨ c = here ∨ c = up ∨ Proper c := by
  by_cases h1 : c = []
  · exact Or.inl h1
  by_cases h2 : c = here
  · exact Or.inr (Or.inl h2)
  by_cases h3 : c = up
  · exact Or.inr (Or.inr (Or.inl h3))
  · exact Or.inr (Or.inr (Or.inr ⟨h1, h2, h3⟩))

theorem push_settled {kept : List Text} (hk : Settled rooted kept) (c : Text) :
    Settled rooted (push rooted kept c) := by
  rcases component_cases c with rfl | rfl | rfl | hc
  · rwa [push_nil]
  · rwa [push_here]
  · cases kept with
    | nil =>
      rw [push_up_nil]
      split_ifs with hr
      · trivial
      · exact ⟨by decide, by decide, fun _ => ⟨by simpa using hr, by simp⟩, trivial⟩
    | cons last before =>
      rw [push_up_cons]
      split_ifs with hl
      · obtain ⟨hr, hall⟩ := hk.2.2.1 hl
        exact ⟨by decide, by decide, fun _ => ⟨hr, List.forall_mem_cons.mpr ⟨hl, hall⟩⟩, hk⟩
      · exact hk.2.2.2
  · rw [push_proper hc]
    exact ⟨hc.ne_nil, hc.ne_here, fun h => absurd h hc.ne_up, hk⟩

theorem foldl_push_settled (cs : List Text) {kept : List Text} (hk : Settled rooted kept) :
    Settled rooted (cs.foldl (push rooted) kept) := by
  induction cs generalizing kept with
  | nil => exact hk
  | cons c cs ih => exact ih (push_settled hk c)

theorem push_of_settled {c : Text} {kept : List Text} (h : Settled rooted (c :: kept)) :
    push rooted kept c = c :: kept := by
  obtain ⟨h1, h2, hup, -⟩ := h
  by_cases hc : c = up
  · obtain ⟨rfl, hall⟩ := hup hc
    subst hc
    cases kept with
    | nil => rfl
    | cons last before => rw [push_up_cons, if_pos (hall last (by simp))]
  · exact push_proper ⟨h1, h2, hc⟩ kept

theorem foldl_push_reverse : ∀ {kept : List Text}, Settled rooted kept →
    kept.reverse.foldl (push rooted) [] = kept
  | [], _ => rfl
  | c :: kept, h => by
    rw [List.reverse_cons, List.foldl_append, List.foldl_cons, List.foldl_nil,
      foldl_push_reverse h.2.2.2, push_of_settled h]

theorem reduce_of_settled {cs : List Text} (h : Settled rooted cs.reverse) :
    reduce rooted cs = cs := by
  have := foldl_push_reverse h
  rw [List.reverse_reverse] at this
  rw [reduce, this, List.reverse_reverse]

theorem settled_reduce (cs : List Text) : Settled rooted (reduce rooted cs).reverse := by
  rw [reduce, List.reverse_reverse]
  exact foldl_push_settled cs trivial

/-- **Reducing is idempotent.** -/
theorem reduce_reduce (cs : List Text) : reduce rooted (reduce rooted cs) = reduce rooted cs :=
  reduce_of_settled (settled_reduce cs)

theorem reduce_of_reduce_concat {cs : List Text} {c : Text}
    (h : reduce rooted (cs ++ [c]) = cs ++ [c]) : reduce rooted cs = cs := by
  have hsettled : Settled rooted (reduce rooted (cs ++ [c])).reverse := settled_reduce (cs ++ [c])
  rw [h, List.reverse_append] at hsettled
  exact reduce_of_settled hsettled.2.2.2

/-! ### One more component -/

theorem reduce_concat_proper (cs : List Text) {c : Text} (hc : Proper c) :
    reduce rooted (cs ++ [c]) = reduce rooted cs ++ [c] := by
  rw [reduce, List.foldl_append, List.foldl_cons, List.foldl_nil, push_proper hc, List.reverse_cons,
    reduce]

theorem reduce_append_nil_cons (cs ds : List Text) :
    reduce rooted (cs ++ [] :: ds) = reduce rooted (cs ++ ds) := by
  simp only [reduce, List.foldl_append, List.foldl_cons, push_nil]

/-! ### Reducing in parts -/

theorem reduce_append_congr {cs ds : List Text} (h : reduce rooted cs = reduce rooted ds)
    (es : List Text) : reduce rooted (cs ++ es) = reduce rooted (ds ++ es) := by
  have hstack : cs.foldl (push rooted) [] = ds.foldl (push rooted) [] := List.reverse_injective h
  unfold reduce
  rw [List.foldl_append, List.foldl_append, hstack]

/-- One more component may be put on a stack without a root before or
after that is put on another stack. -/
theorem foldl_push_push {above : List Text} (h : Settled false above) (c : Text)
    (kept : List Text) : (push false above c).reverse.foldl (push rooted) kept =
      push rooted (above.reverse.foldl (push rooted) kept) c := by
  have hconcat : ∀ d : Text, (d :: above).reverse.foldl (push rooted) kept =
      push rooted (above.reverse.foldl (push rooted) kept) d := by
    intro d
    rw [List.reverse_cons, List.foldl_append, List.foldl_cons, List.foldl_nil]
  rcases component_cases c with rfl | rfl | rfl | hc
  · rw [push_nil, push_nil]
  · rw [push_here, push_here]
  · cases above with
    | nil => rfl
    | cons last before =>
      by_cases hl : last = up
      · -- nothing can be taken away above a leading `..`, so this one leads as well
        subst hl
        rw [push_up_cons, if_pos rfl]
        exact hconcat up
      · -- what the last component added is taken away again, on whichever stack it was put
        have hlast : Proper last := ⟨h.1, h.2.1, hl⟩
        rw [push_up_cons, if_neg hl, List.reverse_cons, List.foldl_append, List.foldl_cons,
          List.foldl_nil, push_proper hlast, push_up_cons, if_neg hl]
  · rw [push_proper hc]
    exact hconcat c

/-- **Components that were reduced without a root act on every stack as they did before.** -/
theorem foldl_push_reduce (cs kept : List Text) :
    (reduce false cs).foldl (push rooted) kept = cs.foldl (push rooted) kept := by
  induction cs using List.reverseRecOn with
  | nil => rfl
  | append_singleton cs c ih =>
    have hsettled : Settled false (cs.foldl (push false) []) := foldl_push_settled cs trivial
    unfold reduce at ih ⊢
    rw [List.foldl_append, List.foldl_cons, List.foldl_nil, foldl_push_push hsettled, ih,
      List.foldl_append, List.foldl_cons, List.foldl_nil]

theorem reduce_append_reduce (cs ds : List Text) :
    reduce rooted (cs ++ reduce false ds) = reduce rooted (cs ++ ds) := by
  unfold reduce
  rw [List.foldl_append, List.foldl_append]
  exact congrArg _ (foldl_push_reduce ds _)

/-! ### Where components come from -/

theorem mem_push {kept : List Text} {c d : Text} (h : d ∈ push rooted kept c) :
    d = c ∨ d ∈ kept := by
  rcases component_cases c with rfl | rfl | rfl | hc
  · exact Or.inr (push_nil kept ▸ h)
  · exact Or.inr (push_here kept ▸ h)
  · cases kept with
    | nil =>
      rw [push_up_nil] at h
      split_ifs at h
      · exact absurd h (by simp)
      · exact Or.inl (List.mem_singleton.mp h)
    | cons last before =>
      rw [push_up_cons] at h
      split_ifs at h
      · exact List.mem_cons.mp h
      · exact Or.inr (List.mem_cons_of_mem last h)
  · rw [push_proper hc] at h
    exact List.mem_cons.mp h

theorem mem_foldl_push {d : Text} : ∀ (cs : List Text) {kept : List Text},
    d ∈ cs.foldl (push rooted) kept → d ∈ cs ∨ d ∈ kept
  | [], _, h => Or.inr h
  | c :: cs, kept, h => by
    rcases mem_foldl_push cs h with h | h
    · exact Or.inl (List.mem_cons_of_mem c h)
    · rcases mem_push h with rfl | h
      · exact Or.inl (by simp)
      · exact Or.inr h

theorem mem_reduce {cs : List Text} {d : Text} (h : d ∈ reduce rooted cs) : d ∈ cs := by
  rw [reduce, List.mem_reverse] at h
  exact (mem_foldl_push cs h).resolve_right (by simp)

theorem ne_nil_of_settled {kept : List Text} (h : Settled rooted kept) : ∀ c ∈ kept, c ≠ [] := by
  induction kept with
  | nil => simp
  | cons d kept ih => exact List.forall_mem_cons.mpr ⟨h.1, ih h.2.2.2⟩

theorem ne_nil_of_mem_reduce {cs : List Text} {c : Text} (h : c ∈ reduce rooted cs) : c ≠ [] :=
  ne_nil_of_settled (settled_reduce cs) c (List.mem_reverse.mpr h)

/-! ### Paths -/

namespace Style

/-- The components that remain of a path. -/
def kept (st : Style) (p : Text) : List Text :=
  reduce (st.endsWithSep (st.anchor p).1) ((st.anchor p).2.split (· == st.sep))

/-- The text of an anchor and components. -/
def written (st : Style) (anchor : Text) (components : List Text) : Text :=
  if anchor = [] ∧ components = [] then here else anchor ++ Text.join st.sep components

theorem normalize_eq_written (st : Style) (p : Text) :
    st.normalize p = st.written (st.anchor p).1 (st.kept p) := rfl

theorem written_concat (st : Style) (anchor : Text) (components : List Text) (c : Text) :
    st.written anchor (components ++ [c]) = anchor ++ Text.join st.sep (components ++ [c]) :=
  if_neg fun h => List.concat_ne_nil c components h.2

theorem append_open {st : Style} (u : Text) {c : Char} (hc : st.isSep c = true) (t : Text) :
    st.append (u ++ [c]) t = u ++ [c] ++ t := by
  simp [append, endsOpen, hc]

theorem append_closed {st : Style} (u : Text) {c : Char} (hc : st.isSep c = false) (t : Text) :
    st.append (u ++ [c]) t = u ++ [c] ++ st.sep :: t := by
  simp [append, endsOpen, hc]

theorem join_pair (st : Style) {d n : Text} (hd : d ≠ []) (hn : n ≠ []) :
    st.join [d, n] = st.normalize (st.append d n) := by
  simp [join, hd, hn]

theorem sep_not_mem_kept {st : Style} {p c : Text} (hc : c ∈ st.kept p) : st.sep ∉ c := fun h => by
  have := Text.not_sep_of_mem_split (mem_reduce hc) st.sep h
  simp at this

theorem ne_nil_of_mem_kept {st : Style} {p c : Text} (hc : c ∈ st.kept p) : c ≠ [] :=
  ne_nil_of_mem_reduce hc

end Style

end VirtualFile.Path
