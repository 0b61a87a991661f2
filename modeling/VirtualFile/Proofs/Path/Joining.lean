import VirtualFile.Proofs.Path.Rejoin
/-!
# Joining many segments

Joining posix segments puts a slash between neighbours unless there is one, and normalises what that
makes. So the components of the joined path are those of all segments, reduced, and its root is that
of the segments written one right behind the other: no slash is put where the text so far consists
of slashes (`exists_join_normalize`).

* `join_append`: segments may be joined in two parts before the parts are joined.
* `root_join_iff`: the root is that of the first segment unless that
  segment runs into slashes behind it.
-/

namespace VirtualFile.Path

/-! ### Writing segments one below the other -/

theorem reduce_split_append (rooted : Bool) (d t : Text) :
    reduce rooted ((Style.posix.append d t).split (· == '/')) =
      reduce rooted (d.split (· == '/') ++ t.split (· == '/')) := by
  obtain ⟨u, rfl, happend⟩ | ⟨-, happend⟩ := append_cases d t
  · rw [happend, Text.split_append_cons rfl, Text.split_append_cons rfl, Text.split,
      List.append_assoc, List.singleton_append, reduce_append_nil_cons]
  · rw [happend, Text.split_append_cons rfl]

theorem posixRoot_append_append {d : Text} (hd : d ≠ []) (t w : Text) :
    posixRoot (Style.posix.append d t ++ w) = posixRoot (d ++ (t ++ w)) := by
  obtain ⟨u, c, rfl⟩ := (List.eq_nil_or_concat' d).resolve_left hd
  by_cases hc : c = '/'
  · subst hc
    rw [Style.append_open u rfl, List.append_assoc]
  · rw [Style.append_closed u (by simp [Style.isSep, hc]), List.append_assoc,
      posixRoot_concat_append u hc, posixRoot_concat_append u hc]

theorem append_ne_nil {d : Text} (hd : d ≠ []) (t : Text) : Style.posix.append d t ≠ [] := by
  unfold Style.append
  split_ifs <;> simp [hd]

theorem posixRoot_foldl_append (rest : List Text) {d : Text} (hd : d ≠ []) :
    posixRoot (rest.foldl Style.posix.append d) = posixRoot (d ++ rest.flatten) := by
  induction rest generalizing d with
  | nil => rw [List.foldl_nil, List.flatten_nil, List.append_nil]
  | cons t rest ih =>
    rw [List.foldl_cons, ih (append_ne_nil hd t), posixRoot_append_append hd, List.flatten_cons]

theorem reduce_split_foldl_append (rooted : Bool) (rest : List Text) (d : Text) :
    reduce rooted ((rest.foldl Style.posix.append d).split (· == '/')) =
      reduce rooted ((d :: rest).flatMap (Text.split (· == '/'))) := by
  induction rest generalizing d with
  | nil => rw [List.foldl_nil, List.flatMap_singleton]
  | cons t rest ih =>
    rw [List.foldl_cons, ih, List.flatMap_cons,
      reduce_append_congr (reduce_split_append rooted d t), List.append_assoc, List.flatMap_cons,
      List.flatMap_cons]

theorem reduce_flatMap_filter (rooted : Bool) (segments cs : List Text) :
    reduce rooted (cs ++ (segments.filter (· ≠ [])).flatMap (Text.split (· == '/'))) =
      reduce rooted (cs ++ segments.flatMap (Text.split (· == '/'))) := by
  induction segments generalizing cs with
  | nil => rfl
  | cons t segments ih =>
    rw [List.flatMap_cons, List.filter_cons]
    by_cases ht : t = []
    · subst ht
      rw [if_neg (by simp), ih, Text.split, List.singleton_append, reduce_append_nil_cons]
    · rw [if_pos (by simp [ht]), List.flatMap_cons, ← List.append_assoc, ih, List.append_assoc]

theorem ne_nil_of_filter {segments rest : List Text} {first : Text}
    (h : segments.filter (· ≠ []) = first :: rest) : first ≠ [] := by
  have hmem : first ∈ segments.filter (· ≠ []) := h ▸ List.mem_cons_self
  simpa using (List.mem_filter.mp hmem).2

theorem flatten_filter (segments : List Text) :
    (segments.filter (· ≠ [])).flatten = segments.flatten := by
  induction segments with
  | nil => rfl
  | cons t segments ih => cases t <;> simp_all

/-- **What the segments make**: a text with their components and the root of all of them in a row,
which joining puts in normal form. -/
theorem exists_join_normalize (segments : List Text) :
    ∃ p, Style.posix.join segments = Style.posix.normalize p ∧
    posixRoot p = posixRoot segments.flatten ∧ ∀ rooted, reduce rooted (p.split (· == '/')) =
      reduce rooted (segments.flatMap (Text.split (· == '/'))) := by
  have hcomponents : ∀ rooted,
      reduce rooted ((segments.filter (· ≠ [])).flatMap (Text.split (· == '/'))) =
      reduce rooted (segments.flatMap (Text.split (· == '/'))) := fun rooted =>
    reduce_flatMap_filter rooted segments []
  rw [← flatten_filter]
  unfold Style.join
  cases hfilter : segments.filter (· ≠ []) with
  | nil =>
    refine ⟨[], rfl, rfl, fun rooted => ?_⟩
    rw [← hcomponents, hfilter]
    exact reduce_append_nil_cons [] []
  | cons first rest =>
    refine ⟨rest.foldl Style.posix.append first, rfl,
      posixRoot_foldl_append rest (ne_nil_of_filter hfilter),
      fun rooted => ?_⟩
    rw [← hcomponents, hfilter, reduce_split_foldl_append]

/-! ### The root and the components of what is joined -/

theorem posixRoot_join (segments : List Text) :
    posixRoot (Style.posix.join segments) = posixRoot segments.flatten := by
  obtain ⟨p, hjoin, hroot, -⟩ := exists_join_normalize segments
  rw [hjoin, posixRoot_normalize, hroot]

theorem kept_join (segments : List Text) : Style.posix.kept (Style.posix.join segments) =
    reduce (posixRoot segments.flatten != []) (segments.flatMap (Text.split (· == '/'))) := by
  obtain ⟨p, hjoin, hroot, hreduce⟩ := exists_join_normalize segments
  rw [hjoin, kept_normalize, kept_posix, hroot, hreduce]

theorem reduce_split_join (segments : List Text) :
    reduce (posixRoot segments.flatten != []) ((Style.posix.join segments).split (· == '/')) =
      reduce (posixRoot segments.flatten != []) (segments.flatMap (Text.split (· == '/'))) := by
  rw [← kept_join, kept_posix, posixRoot_join]

theorem join_congr {xs ys : List Text} (hroot : posixRoot xs.flatten = posixRoot ys.flatten)
    (hreduce : reduce (posixRoot ys.flatten != []) (xs.flatMap (Text.split (· == '/'))) =
      reduce (posixRoot ys.flatten != []) (ys.flatMap (Text.split (· == '/')))) :
    Style.posix.join xs = Style.posix.join ys := by
  obtain ⟨p, hp, hproot, hpreduce⟩ := exists_join_normalize xs
  obtain ⟨q, hq, hqroot, hqreduce⟩ := exists_join_normalize ys
  rw [hp, hq]
  refine normalize_congr (by rw [hproot, hqroot, hroot]) ?_
  rw [hpreduce, hqreduce, hqroot, hreduce]

/-! ### Joining in two parts -/

theorem posixRoot_eq_nil_iff (p : Text) : posixRoot p = [] ↔ p.head? ≠ some '/' := by
  fun_cases posixRoot p <;> simp_all [List.head?_eq_some_iff]

theorem posixRoot_append_of_head {w : Text} (hw : w.head? ≠ some '/') (p : Text) :
    posixRoot (p ++ w) = posixRoot p := by
  by_cases hp : p = []
  · rw [hp, List.nil_append, posixRoot_none hw]
    rfl
  · exact posixRoot_extend hp fun _ => hw

/-- All segments in a row begin as the first does that is not empty. -/
theorem head?_flatten (segments : List Text) :
    segments.flatten.head? = (segments.find? (· ≠ [])).bind List.head? := by
  induction segments with
  | nil => rfl
  | cons t segments ih => cases t <;> simp_all

theorem head?_flatten_ne {segments : List Text}
    (h : ∀ y ∈ segments.find? (· ≠ []), y.head? ≠ some '/') :
    segments.flatten.head? ≠ some '/' := by
  rw [head?_flatten]
  cases hfind : segments.find? (· ≠ []) with
  | none => simp
  | some y => exact h y hfind

/-- **Joining in two parts**: the parts are joined as all segments are, unless the first
segment of the second part that is not empty begins with a slash. A joined path is not
changed by joining it again. -/
theorem join_append : (∀ xs ys : List Text, (∀ y ∈ ys.find? (· ≠ []), y.head? ≠ some '/') →
      Style.posix.join (xs ++ ys) = Style.posix.join [Style.posix.join xs, Style.posix.join ys]) ∧
    ∀ xs : List Text, Style.posix.join [Style.posix.join xs] = Style.posix.join xs := by
  constructor
  · intro xs ys hys
    -- the second part has no root, and neither has what it is joined to
    have hhead : ys.flatten.head? ≠ some '/' := head?_flatten_ne hys
    have hrootless : posixRoot ys.flatten = [] := (posixRoot_eq_nil_iff _).mpr hhead
    have hjoined : (Style.posix.join ys).head? ≠ some '/' :=
      (posixRoot_eq_nil_iff _).mp ((posixRoot_join ys).trans hrootless)
    have hroot : posixRoot [Style.posix.join xs, Style.posix.join ys].flatten =
        posixRoot xs.flatten := by
      rw [List.flatten_cons, List.flatten_singleton, posixRoot_append_of_head hjoined,
        posixRoot_join]
    have hroot' : posixRoot (xs ++ ys).flatten = posixRoot xs.flatten := by
      rw [List.flatten_append, posixRoot_append_of_head hhead]
    refine join_congr (hroot'.trans hroot.symm) ?_
    have hsecond : reduce false ((Style.posix.join ys).split (· == '/')) =
        reduce false (ys.flatMap (Text.split (· == '/'))) := by
      have h := reduce_split_join ys
      rwa [hrootless] at h
    rw [hroot, List.flatMap_append, List.flatMap_cons, List.flatMap_singleton,
      reduce_append_congr (reduce_split_join xs),
      ← reduce_append_reduce _ ((Style.posix.join ys).split (· == '/')), hsecond,
      reduce_append_reduce]
  · intro xs
    have hflatten : [Style.posix.join xs].flatten = Style.posix.join xs := List.flatten_singleton
    refine join_congr (by rw [hflatten, posixRoot_join]) ?_
    rw [List.flatMap_singleton, reduce_split_join]

/-- The second part leads up and out of the first. -/
theorem join_append_up :
    Style.posix.join (["a", ""].map String.toList ++ ["", "../..", "/b"].map String.toList) =
      "../b".toList ∧
    Style.posix.join (["a", ""].map String.toList) = "a".toList ∧
    Style.posix.join (["", "../..", "/b"].map String.toList) = "../../b".toList := by
  have hsecond : ∀ y ∈ (["", "../..", "/b"].map String.toList).find? (· ≠ []),
      y.head? ≠ some '/' := by decide
  refine ⟨(join_append.1 _ _ hsecond).trans ?_, ?_, ?_⟩ <;> decide +kernel

/-! ### The root of the first segment -/

/-- **A root that runs into the text behind it**: one slash with just
one more behind it, or two with any. -/
def RunsInto (root w : Text) : Prop :=
  (root = ['/'] ∧ w.takeWhile (· == '/') = ['/']) ∨ (root = ['/', '/'] ∧ w.head? = some '/')

instance (root w : Text) : Decidable (RunsInto root w) := by
  unfold RunsInto; infer_instance

theorem takeWhile_of_head {w : Text} (hw : w.head? ≠ some '/') : w.takeWhile (· == '/') = [] := by
  cases w with
  | nil => rfl
  | cons c w => simp_all

/-- What follows a path changes its root if and only if the path is a root and runs into it. -/
theorem posixRoot_append_eq_iff {p : Text} (hp : p ≠ []) (w : Text) :
    posixRoot (p ++ w) = posixRoot p ↔ ¬ RunsInto p w := by
  unfold RunsInto
  rcases slashes_cases p with h | ⟨t, rfl, ht⟩ | ⟨t, rfl, ht⟩ | ⟨t, rfl⟩
  · -- no root
    have hslash : p ≠ ['/'] ∧ p ≠ ['/', '/'] := by constructor <;> rintro rfl <;> simp at h
    rw [posixRoot_none h, posixRoot_none (head?_append_ne h fun hnil => absurd hnil hp)]
    simp [hslash]
  · -- one slash, and what comes behind it decides
    by_cases htnil : t = []
    · subst htnil
      rcases slashes_cases w with hw | ⟨u, rfl, hu⟩ | ⟨u, rfl, hu⟩ | ⟨u, rfl⟩
      · rw [List.singleton_append, posixRoot_one hw, takeWhile_of_head hw]
        simp [posixRoot]
      · rw [List.singleton_append, posixRoot_two hu, List.takeWhile_cons_of_pos (by simp),
          takeWhile_of_head hu]
        simp [posixRoot]
      · simp [posixRoot]
      · simp [posixRoot]
    · have htslash : t ≠ ['/'] := by rintro rfl; simp at ht
      rw [List.cons_append, posixRoot_one ht,
        posixRoot_one (head?_append_ne ht fun hnil => absurd hnil htnil)]
      simp [htnil, htslash]
  · -- two slashes
    by_cases htnil : t = []
    · subst htnil
      by_cases hw : w.head? = some '/'
      · obtain ⟨u, rfl⟩ := List.head?_eq_some_iff.mp hw
        simp [posixRoot]
      · rw [List.cons_append, List.cons_append, List.nil_append, posixRoot_two hw]
        simp [posixRoot, hw]
    · rw [List.cons_append, List.cons_append, posixRoot_two ht,
        posixRoot_two (head?_append_ne ht fun hnil => absurd hnil htnil)]
      simp [htnil]
  · -- more slashes are one root with anything behind them
    simp [posixRoot]

/-- **The root of a joined path** is that of the first segment that is not empty, if and only if
this segment does not run into what follows. It is there if and only if the first segment has one,
and below it are the components of that segment and of all later ones, absolute or not. -/
theorem root_join_iff {segments rest : List Text} {first : Text}
    (h : segments.filter (· ≠ []) = first :: rest) :
    (posixRoot (Style.posix.join segments) = posixRoot first ↔ ¬ RunsInto first rest.flatten) ∧
      (posixRoot (Style.posix.join segments) = [] ↔ posixRoot first = []) ∧
      Style.posix.kept (Style.posix.join segments) =
        reduce (posixRoot first != []) (first.split (· == '/') ++
          rest.flatMap (Text.split (· == '/'))) := by
  have hfirst : first ≠ [] := ne_nil_of_filter h
  have hflatten : segments.flatten = first ++ rest.flatten := by
    rw [← flatten_filter, h, List.flatten_cons]
  have hrooted : posixRoot (first ++ rest.flatten) = [] ↔ posixRoot first = [] := by
    rw [posixRoot_eq_nil_iff, posixRoot_eq_nil_iff, List.head?_append_of_ne_nil _ hfirst]
  refine ⟨?_, ?_, ?_⟩
  · rw [posixRoot_join, hflatten]
    exact posixRoot_append_eq_iff hfirst rest.flatten
  · rw [posixRoot_join, hflatten, hrooted]
  · have hflag : (posixRoot (first ++ rest.flatten) != []) = (posixRoot first != []) := by
      rw [Bool.eq_iff_iff, bne_iff_ne, bne_iff_ne, ne_eq, ne_eq, hrooted]
    have hcomponents := reduce_flatMap_filter (posixRoot first != []) segments []
    rw [h, List.flatMap_cons] at hcomponents
    rw [kept_join, hflatten, hflag]
    exact hcomponents.symm

/-- An absolute segment below the root of a share, which has a name of its own. -/
theorem root_join_iff_share : (["", "//", "srv", "/a", ".."].map String.toList).filter (· ≠ []) =
      "//".toList :: ["srv", "/a", ".."].map String.toList ∧
    posixRoot (Style.posix.join (["", "//", "srv", "/a", ".."].map String.toList)) = "//".toList ∧
    Style.posix.kept (Style.posix.join (["", "//", "srv", "/a", ".."].map String.toList)) =
      ["srv".toList] := by
  have hfilter : (["", "//", "srv", "/a", ".."].map String.toList).filter (· ≠ []) =
      "//".toList :: ["srv", "/a", ".."].map String.toList := by decide
  obtain ⟨hroot, -, hkept⟩ := root_join_iff hfilter
  exact ⟨hfilter, hroot.mpr (by decide), hkept.trans (by decide +kernel)⟩

/-- **A slash before an absolute segment makes another root of both.** -/
theorem join_slash_absolute : Style.posix.join (["/", "/a"].map String.toList) = "//a".toList ∧
    posixRoot (Style.posix.join (["/", "/a"].map String.toList)) ≠ posixRoot "/".toList := by
  decide +kernel

end VirtualFile.Path
