import VirtualFile.Proofs.Naming.Targets
/-!
# What an accepted call has done

A setter that returns tells what it was given and what it found. The path was a text, or there was
none (`path_of_set`); a name was a text (`text_of_setBasename`). So a stem and then an extension
that were both accepted tell the stem and the extension of the file (`parted_of_set`), and a
directory after them changes neither.

* `bind_eq_ok`: a sequence that returns.
* `set_eq_ok`: a text that was accepted.
* `IsParted`: a stem and an extension; `name_of_setStem`, `parted_of_setExtension`,
  `IsParted.setDirectory`: how they come about.
-/

namespace VirtualFile
open VirtualFile.Path (Style IsStem IsExtension IsSplit Parted)

namespace Naming

theorem bind_eq_ok {α β : Type} {x : Except Fault α} {f : α → Except Fault β} {b : β}
    (h : (x >>= f) = .ok b) : ∃ a, x = .ok a ∧ f a = .ok b := by
  cases x with
  | ok a => exact ⟨a, rfl, h⟩
  | error e => exact absurd h (by simp)

section Accepted
variable {s : Store} {n : Naming} {v : Value} {m : Naming × List Renaming} {p : Text}

theorem path_of_facet {read : Text → Text} {o : Option Text} (h : n.facet s read = .ok o) :
    ∃ p, n.path = .ofText? p := by
  rw [facet] at h
  split at h
  · next hp => exact ⟨none, hp⟩
  · next p hp => exact ⟨some p, hp⟩
  · exact absurd h (by simp)

/-- **A facet is set on a text**, or where there is no path. -/
theorem path_of_set {facet : Facet} (hfacet : facet ≠ .path) (h : n.set s facet v = .ok m) :
    ∃ p, n.path = .ofText? p := by
  cases facet with
  | path => exact absurd rfl hfacet
  | dirname =>
    obtain ⟨name, hname, -⟩ := bind_eq_ok h
    exact path_of_facet hname
  | basename =>
    rw [set, setBasename] at h
    split_ifs at h
    · exact absurd h (by simp)
    · obtain ⟨-, -, h⟩ := bind_eq_ok h
      obtain ⟨d, hd, -⟩ := bind_eq_ok h
      exact path_of_facet hd
  | extname =>
    obtain ⟨-, -, h⟩ := bind_eq_ok h
    obtain ⟨d, hd, -⟩ := bind_eq_ok h
    exact path_of_facet hd
  | stem =>
    rw [set, setStem] at h
    split_ifs at h
    · exact absurd h (by simp)
    · obtain ⟨-, -, h⟩ := bind_eq_ok h
      obtain ⟨name, hname, -⟩ := bind_eq_ok h
      exact path_of_facet hname

/-- **A name that is accepted** is a text. -/
theorem text_of_setBasename (h : n.set s .basename v = .ok m) : ∃ b, v = .text b := by
  rw [set, setBasename] at h
  split_ifs at h
  · exact absurd h (by simp)
  · obtain ⟨-, -, h⟩ := bind_eq_ok h
    obtain ⟨d, -, h⟩ := bind_eq_ok h
    obtain ⟨b, hb, -⟩ := bind_eq_ok h
    rw [Store.textOnly.eq_def] at hb
    split at hb
    · exact ⟨_, rfl⟩
    · exact absurd hb (by simp)

theorem setBasename_store (h : n.set s .basename v = .ok m) (s' : Store) :
    n.set s' .basename v = .ok m := by
  obtain ⟨b, rfl⟩ := text_of_setBasename h
  obtain ⟨p, hp⟩ := path_of_set (by decide) h
  exact ((set_text s' hp (.basename b)).trans (set_text s hp (.basename b)).symm).trans h

/-- **A text that is accepted** has a target, which is joined. -/
theorem set_eq_ok {w : Write} (h : n.set s w.call.1 w.call.2 = .ok m) :
    ∃ p d x, n.path = .ofText? p ∧
    w.target n.style p = .ok (d, x) ∧ m = n.rename (n.style.join [d, x]) := by
  obtain ⟨p, hp⟩ := path_of_set (by cases w <;> simp [Write.call]) h
  rw [set_text s hp w] at h
  cases htarget : w.target n.style p with
  | error e => exact absurd (htarget ▸ h) (by simp [Except.map])
  | ok x =>
    rw [htarget] at h
    exact ⟨p, x.1, x.2, hp, htarget, (Except.ok.inj h).symm⟩

/-- **A directory that is accepted**, whatever it is, is a text that is joined with the name. -/
theorem setDirectory_eq_ok (hp : n.path = .text p) (h : n.set s .dirname v = .ok m) :
    ∃ d, m = n.rename (n.style.join [d, n.style.name p]) := by
  have hjoined : ∀ {segments : List Text}, n.setJoined s segments = .ok m →
      m = n.rename (n.style.join segments) :=
    fun h => (Except.ok.inj ((setJoined_eq s n _).symm.trans h)).symm
  rw [set, setDirectory, basename, facet_text s hp, ok_bind] at h
  by_cases hname : n.style.name p = []
  · simp [hname] at h
  · simp only [Option.getD_some, hname, if_false] at h
    split_ifs at h
    · exact ⟨[], by rw [join_nil_cons]; exact hjoined h⟩
    · split at h
      · exact ⟨_, hjoined h⟩
      · exact absurd h (by simp)

end Accepted

/-! ### A stem and an extension -/

theorem path_of_stem {st : Style} {p : Option Text} {t d x : Text}
    (h : (Write.stem t).target st p = .ok (d, x)) : ∃ q, p = some q := by
  cases p with
  | none =>
    rw [Write.target] at h
    split_ifs at h with ht hsep hname
    exact absurd rfl hname
  | some q => exact ⟨q, rfl⟩

theorem isExtension_of_target {st : Style} {p : Option Text} {e d x : Text} (he : e ≠ [])
    (h : (Write.extension e).target st p = .ok (d, x)) : ∃ q, p = some q ∧ IsExtension e := by
  cases p with
  | none =>
    rw [Write.target] at h
    split_ifs at h
  | some q =>
    rw [Write.target] at h
    split_ifs at h with hsep hdot hmany
    obtain ⟨c, t, rfl⟩ := List.exists_cons_of_ne_nil he
    obtain rfl : c = '.' := by simpa using hdot
    exact ⟨q, rfl, t, rfl, hmany⟩

/-- **What splitting finds in a stem with the extension of a name behind it**: the stem, if there is
an extension, or else the stem of the stem. -/
theorem splitExtension_append_extension (st : Style) {t a b : Text} (ht : IsStem t)
    (hsplit : IsSplit t a b) (p : Text) :
    (Path.splitExtension (t ++ st.extension p)).1 = (if st.extension p = [] then a else t) ∧
      IsStem (if st.extension p = [] then a else t) := by
  split_ifs with hext
  · rw [hext, List.append_nil, hsplit.eq]
    obtain ⟨rfl, ⟨hstem, -⟩ | ⟨rfl, -⟩⟩ := hsplit
    · exact ⟨rfl, hstem⟩
    · exact ⟨rfl, by simpa using ht⟩
  · have hsuffix : IsExtension (st.extension p) := (Path.eq_append_of_splitExtension hext).2.2
    rw [Path.splitExtension_append ht hsuffix]
    exact ⟨rfl, ht⟩

/-- **A posix naming with a stem and an extension.** -/
def IsParted (n : Naming) (stem ext : Text) : Prop :=
  n.style = .posix ∧ ∃ p d, n.path = .text p ∧ Parted p d stem ext

section Posix
variable {n : Naming} {s : Store} {m : Naming × List Renaming} {t e : Text}

theorem IsParted.stem_eq (h : n.IsParted t e) (s : Store) : n.stem s = .ok (some t) := by
  obtain ⟨hst, p, d, hp, hx⟩ := h
  rw [stem, facet_text s hp, hst, hx.nameWithout_eq]

theorem IsParted.extension_eq (h : n.IsParted t e) (s : Store) : n.extension s = .ok (some e) := by
  obtain ⟨hst, p, d, hp, hx⟩ := h
  rw [extension, facet_text s hp, hst, hx.extension_eq]

/-- **A stem that is accepted** stands in the new name, before the extension of the path. -/
theorem name_of_setStem (hst : n.style = .posix) (ht : IsStem t)
    (h : n.set s .stem (.text t) = .ok m) :
    ∃ p q, n.path = .text p ∧ m.1.style = .posix ∧ m.1.path = .text q ∧
      Style.posix.name q = t ++ Style.posix.extension p := by
  obtain ⟨st, h⟩ := n
  obtain rfl : st = .posix := hst
  obtain ⟨p, d, x, hp, htarget, rfl⟩ := set_eq_ok (w := .stem t) h
  obtain ⟨p, rfl⟩ := path_of_stem htarget
  obtain ⟨rfl, hsep, -⟩ := Write.target_eq_ok htarget
  refine ⟨p, _, hp, style_rename _ _, path_rename _ _, Path.name_join d ⟨(ht.append _).proper, ?_⟩⟩
  exact Path.no_sep_iff.mpr hsep

/-- **An extension that is accepted** is that of the new path, and its stem is that of the path. -/
theorem parted_of_setExtension {q : Text} (hst : n.style = .posix) (hq : n.path = .text q)
    (hstem : IsStem (Path.splitExtension (Style.posix.name q)).1) (he : e ≠ [])
    (h : n.set s .extname (.text e) = .ok m) :
    m.1.IsParted (Path.splitExtension (Style.posix.name q)).1 e := by
  obtain ⟨st, h⟩ := n
  obtain rfl : st = .posix := hst
  obtain ⟨q', d, x, hq', htarget, rfl⟩ := set_eq_ok (w := .extension e) h
  obtain ⟨q', rfl, hext⟩ := isExtension_of_target he htarget
  obtain rfl := Value.text.inj (hq.symm.trans hq')
  obtain ⟨rfl, hsep, -⟩ := Write.target_eq_ok htarget
  rw [← Style.nameWithout_extension] at hstem ⊢
  exact ⟨style_rename _ _, _, _, path_rename _ _,
    Path.parted_join d hstem hext (Path.no_sep_iff.mpr hsep)⟩

/-- **A directory that is accepted** leaves the stem and the extension as they are. -/
theorem IsParted.setDirectory {v : Value} (hx : n.IsParted t e) (h : n.set s .dirname v = .ok m) :
    m.1.IsParted t e := by
  obtain ⟨st, h⟩ := n
  obtain ⟨rfl, q, d, hq, hx⟩ := hx
  obtain ⟨d', rfl⟩ := setDirectory_eq_ok hq h
  rw [hx.name]
  exact ⟨style_rename _ _, _, _, path_rename _ _,
    Path.parted_join d' hx.stem hx.extension hx.no_sep⟩

end Posix

/-- **A stem and then an extension that are accepted** beside a posix path: the extension
is the one that was set. The stem is the one that was set if the path had an extension
before, and the stem of that if it had none. -/
theorem parted_of_set {n : Naming} {s₁ s₂ : Store} {t e a b : Text} {m₁ m₂ : Naming × List Renaming}
    (hst : n.style = .posix) (ht : IsStem t) (hsplit : IsSplit t a b) (he : e ≠ [])
    (h₁ : n.set s₁ .stem (.text t) = .ok m₁) (h₂ : m₁.1.set s₂ .extname (.text e) = .ok m₂) :
    ∃ p, n.path = .text p ∧ m₂.1.IsParted (if Style.posix.extension p = [] then a else t) e := by
  obtain ⟨p, q, hp, hst₁, hq, hname⟩ := name_of_setStem hst ht h₁
  obtain ⟨hfound, hstem⟩ := splitExtension_append_extension .posix ht hsplit p
  rw [← hname] at hfound
  exact ⟨p, hp, hfound ▸ parted_of_setExtension hst₁ hq (hfound ▸ hstem) he h₂⟩

end Naming

end VirtualFile
