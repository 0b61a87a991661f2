import VirtualFile.Proofs.Naming.Targets
/-!
# Composing a new name

The setters of the name, the stem and the extension compose a new name from the part that
is written and the parts that stay. A posix path takes every name but `.` and `..`: the
name is what was composed, dots and all, and the file stays in its directory, which is now
in normal form (`set_composes`).

* `Write.Fits`: what the setters ask of the part that is written.
-/

namespace VirtualFile
open VirtualFile.Path (Style IsExtension IsSplit)

namespace Naming

/-- **What the setters ask of a part of a name** beside a posix path, or beside none. -/
def Write.Fits (p : Option Text) : Write → Prop
  | .directory _ => False
  | .basename b => b ≠ [] ∧ '/' ∉ b
  | .stem t => t ≠ [] ∧ '/' ∉ t ∧ ∃ q, p = some q ∧ Style.posix.name q ≠ []
  | .extension e => (e = [] ∨ IsExtension e) ∧ '/' ∉ e ∧ p ≠ none

variable {n : Naming} {p : Option Text} {w : Write}

/-- **A part that fits is accepted**, and the name that is composed has no slash either. -/
theorem Write.Fits.target (h : w.Fits p) :
    w.target .posix p = .ok ((p.map Style.posix.parent).getD [], w.composed .posix (p.getD [])) ∧
      '/' ∉ w.composed .posix (p.getD []) := by
  cases w with
  | directory d => exact h.elim
  | basename b =>
    obtain ⟨hne, hsep⟩ := h
    exact ⟨by simp [target, hne, composed, Style.sep, hsep], hsep⟩
  | stem t =>
    obtain ⟨hne, hsep, q, rfl, hname⟩ := h
    have htarget : (stem t).target .posix (some q) =
        .ok (Style.posix.parent q, (stem t).composed .posix q) := by
      simp [target, hne, composed, Style.sep, hsep, hname]
    exact ⟨htarget, (target_eq_ok htarget).2.1⟩
  | extension e =>
    obtain ⟨hext, hsep, hp⟩ := h
    obtain ⟨q, rfl⟩ := Option.ne_none_iff_exists'.mp hp
    have htarget : (extension e).target .posix (some q) =
        .ok (Style.posix.parent q, (extension e).composed .posix q) := by
      obtain rfl | ⟨t, rfl, ht⟩ := hext
      · simp [target, composed]
      · simp [target, composed, Style.sep, hsep, ht]
    exact ⟨htarget, (target_eq_ok htarget).2.1⟩

/-- **Composing a new name.** A name, a stem or an extension is set beside a posix path, or a name
where there is no path. If the part fits and the composed name is neither `.` nor `..`, then it is
accepted and the composed name is the name. The directory is the normal form of the one before, and
`.` if there was none. The stem and the extension are what the name is split into. -/
theorem set_composes (hst : n.style = .posix) (hp : n.path = .ofText? p) (hw : w.Fits p)
    (hx : Path.Proper (w.composed .posix (p.getD []))) (s : Store) :
    ∃ m d stem ext, n.set s w.call.1 w.call.2 = .ok m ∧ n.directory s = .ok d ∧
      m.1.basename s = .ok (some (w.composed .posix (p.getD []))) ∧
      m.1.directory s = .ok (some (Style.posix.normalize (d.getD []))) ∧
      m.1.stem s = .ok (some stem) ∧ m.1.extension s = .ok (some ext) ∧
      IsSplit (w.composed .posix (p.getD [])) stem ext := by
  obtain ⟨st, h⟩ := n
  obtain rfl : st = .posix := hst
  obtain ⟨htarget, hsep⟩ := hw.target
  have hname : Style.posix.IsName (w.composed .posix (p.getD [])) := ⟨hx, Path.no_sep_iff.mpr hsep⟩
  have hset := set_text s hp w
  rw [htarget, map_ok] at hset
  refine ⟨_, _, _, _, hset, facet_ofText? s hp _, ?_, ?_, stem_rename s _ _,
    extension_rename s _ _, ?_⟩
  · rw [basename_rename, Path.name_join _ hname]
  · rw [directory_rename, Path.parent_join _ hname]
  · have hsplit := Style.posix.isSplit_name (Style.posix.join [(p.map Style.posix.parent).getD [],
      w.composed .posix (p.getD [])])
    rwa [Path.name_join _ hname] at hsplit

/-- A stem that ends with a dot, beside an extension: the dots stay,
and the last one begins the extension. -/
theorem set_composes_dots : (Write.stem "..a.".toList).Fits (some "b//../.c.d/".toList) ∧
    ∃ m, Naming.set {} ⟨.posix, [.ofString "b//../.c.d/"]⟩ .stem (.ofString "..a.") = .ok m ∧
      m.1.basename {} = .ok (some "..a..d".toList) ∧ m.1.directory {} = .ok (some ['.']) ∧
      m.1.stem {} = .ok (some "..a.".toList) ∧ m.1.extension {} = .ok (some ".d".toList) := by
  have hw : (Write.stem "..a.".toList).Fits (some "b//../.c.d/".toList) :=
    ⟨by decide, by decide, _, rfl, by decide +kernel⟩
  obtain ⟨m, d, stem, ext, hset, hd, hname, hdir, hstem, hext, hsplit⟩ :=
    set_composes (n := ⟨.posix, [.ofString "b//../.c.d/"]⟩) rfl rfl hw
      ⟨by decide +kernel, by decide +kernel, by decide +kernel⟩ {}
  obtain rfl := Except.ok.inj hd
  obtain ⟨rfl, rfl⟩ := Prod.mk.inj (hsplit.eq.symm.trans
    (show _ = ("..a.".toList, ".d".toList) by decide +kernel))
  exact ⟨hw, m, hset, hname.trans (by decide +kernel), hdir.trans (by decide +kernel), hstem, hext⟩

end Naming

end VirtualFile
