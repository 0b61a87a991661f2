import VirtualFile.Proofs.Naming.Targets
import VirtualFile.Proofs.Path.Anchors
import VirtualFile.Proofs.Path.Rejoin
/-!
# Writing back what was read

A facet that is read and set again composes the name that the path has, below the directory that it
has. So the path stays as it is but for its form: a posix path is normalised (`set_get`), and one in
normal form is not added to the history again. Nor is a Windows path in normal form, except a name
alone after a drive: it is put below the root of the drive (`set_get_windows`).

* `Write.ofPath`: the writes of what is read off a path.
* `Write.target_ofPath`: all of them join the same directory and name, in either style.
* `set_ofPath`: what is read is accepted, and names the file by the
  directory and the name joined again.
-/

namespace VirtualFile
open VirtualFile.Path (Style OnBareDrive)

namespace Naming

/-- **The write of a facet that was read** off a path. -/
def Write.ofPath (st : Style) (p : Text) : Facet → Option Write
  | .path => none
  | .dirname => some (.directory (some (st.parent p)))
  | .basename => some (.basename (st.name p))
  | .stem => some (.stem (st.nameWithout p (st.extension p)))
  | .extname => some (.extension (st.extension p))

/-- **Writing back** composes the directory and the name of the path. -/
theorem Write.target_ofPath {st : Style} {p : Text} {facet : Facet} {w : Write}
    (hw : Write.ofPath st p facet = some w) (hname : st.name p ≠ []) :
    w.target st (some p) = .ok (st.parent p, st.name p) := by
  have hsep := sep_not_mem_name st p
  have hstem : st.nameWithout p (st.extension p) ≠ [] :=
    mt (Style.nameWithout_eq_nil st p _).mp hname
  have hstemSep : st.sep ∉ st.nameWithout p (st.extension p) :=
    fun h => hsep (Style.mem_name_of_mem_nameWithout h)
  have hextSep : st.sep ∉ st.extension p := fun h => hsep (Style.mem_name_of_mem_extension h)
  cases facet with
  | path => exact absurd hw (by simp [ofPath])
  | dirname =>
    obtain rfl := Option.some.inj hw
    simp [target, hname]
  | basename =>
    obtain rfl := Option.some.inj hw
    simp [target, hname, hsep]
  | stem =>
    obtain rfl := Option.some.inj hw
    simp [target, hstem, hstemSep, hname, Style.nameWithout_append_extension]
  | extname =>
    obtain rfl := Option.some.inj hw
    -- an extension begins with its only dot
    have hdot : ¬ (st.extension p ≠ [] ∧ (st.extension p).head? ≠ some '.') ∧
        '.' ∉ (st.extension p).tail := by
      by_cases he : st.extension p = []
      · simp [he]
      · obtain ⟨-, -, t, ht, hmany⟩ := Path.eq_append_of_splitExtension he
        rw [Style.extension, ht]
        simpa using hmany
    rw [target, if_neg hextSep]
    simp only [if_neg hdot.1, if_neg hdot.2, Style.nameWithout_append_extension]

theorem get_ofPath {n : Naming} {p : Text} (hp : n.path = .text p) (s : Store) {facet : Facet}
    (hfacet : facet ≠ .path) :
    ∃ w, Write.ofPath n.style p facet = some w ∧ w.call.1 = facet ∧
    n.get s facet = .ok w.call.2 := by
  cases facet with
  | path => exact absurd rfl hfacet
  | dirname => exact ⟨_, rfl, rfl, by rw [get, directory, facet_text s hp]; rfl⟩
  | basename => exact ⟨_, rfl, rfl, by rw [get, basename, facet_text s hp]; rfl⟩
  | stem => exact ⟨_, rfl, rfl, by rw [get, stem, facet_text s hp]; rfl⟩
  | extname => exact ⟨_, rfl, rfl, by rw [get, extension, facet_text s hp]; rfl⟩

theorem history_rename {n : Naming} {p : Text} (hp : n.path = .text p) (q : Text) :
    (n.rename q).1.history = if q = p then n.history else n.history ++ [.text q] := by
  rw [rename, hp]
  by_cases hq : q = p
  · rw [if_pos (by rw [hq]), if_pos hq]
  · rw [if_neg fun h => hq (Value.text.inj h).symm, if_neg hq]

/-- **What was read is accepted**, and the file is named by its
directory and its name joined again. -/
theorem set_ofPath {n : Naming} {p : Text} (hp : n.path = .text p) (hname : n.style.name p ≠ [])
    (s : Store) {facet : Facet} (hfacet : facet ≠ .path) : ∃ v, n.get s facet = .ok v ∧
      n.set s facet v = .ok (n.rename (n.style.join [n.style.parent p, n.style.name p])) := by
  obtain ⟨w, hw, rfl, hget⟩ := get_ofPath hp s hfacet
  refine ⟨_, hget, ?_⟩
  rw [set_text s (p := some p) hp w, Write.target_ofPath hw hname]
  rfl

/-- **Writing back what was read** normalises a posix path that has a name: each facet but
the path is accepted as it was read, and the history grows by the normal form of the path
unless that is the path. -/
theorem set_get {n : Naming} {p : Text} (hst : n.style = .posix) (hp : n.path = .text p)
    (hname : Style.posix.name p ≠ []) (s : Store) {facet : Facet} (hfacet : facet ≠ .path) :
    ∃ v m, n.get s facet = .ok v ∧ n.set s facet v = .ok m ∧
      m.1.path = .text (Style.posix.normalize p) ∧
      m.1.history = if Style.posix.normalize p = p then n.history
        else n.history ++ [.text (Style.posix.normalize p)] := by
  obtain ⟨w, hw, rfl, hget⟩ := get_ofPath hp s hfacet
  rw [hst] at hw
  have hset : n.set s w.call.1 w.call.2 = .ok (n.rename (Style.posix.normalize p)) := by
    rw [set_text s (p := some p) hp w, hst, Write.target_ofPath hw hname]
    exact congrArg (fun q => Except.ok (n.rename q)) (Path.join_parent_name hname)
  exact ⟨_, _, hget, hset, path_rename n _, history_rename hp _⟩

/-- The name of a path with doubled slashes and a way up in it, written back. -/
theorem set_get_untidy : Style.posix.name "//a/../b//..c/".toList ≠ [] ∧
    ∃ v m, Naming.get {} ⟨.posix, [.ofString "//a/../b//..c/"]⟩ .basename = .ok v ∧
      Naming.set {} ⟨.posix, [.ofString "//a/../b//..c/"]⟩ .basename v = .ok m ∧
      m.1.history = [.ofString "//a/../b//..c/", .ofString "//b/..c"] := by
  have hname : Style.posix.name "//a/../b//..c/".toList ≠ [] := by decide +kernel
  obtain ⟨v, m, hget, hset, -, hhistory⟩ :=
    set_get (n := ⟨.posix, [.ofString "//a/../b//..c/"]⟩) rfl rfl hname {}
      (show Facet.basename ≠ .path by decide)
  exact ⟨hname, v, m, hget, hset, hhistory.trans (by decide +kernel)⟩

/-- **Writing back what was read** from a Windows path in normal form that has a name: each facet
but the path is accepted as it was read. The history stays as it is, unless the name stands alone
after a drive: then it grows by the path of that name below the root of the drive. -/
theorem set_get_windows {n : Naming} {p : Text} (hst : n.style = .windows) (hp : n.path = .text p)
    (hnormal : Style.windows.normalize p = p) (hname : Style.windows.name p ≠ []) (s : Store)
    {facet : Facet} (hfacet : facet ≠ .path) :
    ∃ v m, n.get s facet = .ok v ∧ n.set s facet v = .ok m ∧
      (m.1.history = n.history ↔ ¬ OnBareDrive p) ∧ ∀ letter,
      p = letter :: ':' :: Style.windows.name p →
        m.1.history = n.history ++
          [.text (Style.windows.normalize (letter :: ':' :: '\\' :: Style.windows.name p))] := by
  obtain ⟨v, hget, hset⟩ := set_ofPath hp (hst.symm ▸ hname) s hfacet
  rw [hst] at hset
  have hgrown : ∀ letter, p = letter :: ':' :: Style.windows.name p →
      (n.rename (Style.windows.join [Style.windows.parent p, Style.windows.name p])).1.history =
        n.history ++
          [.text (Style.windows.normalize (letter :: ':' :: '\\' :: Style.windows.name p))] := by
    intro letter hletter
    have hmoved : Style.windows.normalize (letter :: ':' :: '\\' :: Style.windows.name p) ≠ p :=
      fun h => Path.normalize_letter_ne ⟨hname, Path.no_sep_name .windows p⟩ (h.trans hletter)
    rw [Path.join_parent_name_bare hletter hname, history_rename hp, if_neg hmoved]
  refine ⟨v, _, hget, hset, ⟨fun hsame => ?_, fun hbare => ?_⟩, hgrown⟩
  · rintro ⟨letter, hletter⟩
    have hlength := congrArg List.length ((hgrown letter hletter).symm.trans hsame)
    simp at hlength
  · rw [Path.join_parent_name_windows hnormal hname hbare, history_rename hp, if_pos rfl]

/-- A file right below a share, of which the extension is written back. -/
theorem set_get_share :
    Style.windows.normalize "\\\\host\\share\\a.txt".toList = "\\\\host\\share\\a.txt".toList ∧
    Style.windows.name "\\\\host\\share\\a.txt".toList ≠ [] ∧ ∃ v m,
      Naming.get {} ⟨.windows, [.ofString "\\\\host\\share\\a.txt"]⟩ .extname = .ok v ∧
      Naming.set {} ⟨.windows, [.ofString "\\\\host\\share\\a.txt"]⟩ .extname v = .ok m ∧
      m.1.history = [.ofString "\\\\host\\share\\a.txt"] := by
  have hnormal : Style.windows.normalize "\\\\host\\share\\a.txt".toList =
      "\\\\host\\share\\a.txt".toList := by
    decide +kernel
  have hname : Style.windows.name "\\\\host\\share\\a.txt".toList ≠ [] := by decide +kernel
  obtain ⟨v, m, hget, hset, hsame, -⟩ :=
    set_get_windows (n := ⟨.windows, [.ofString "\\\\host\\share\\a.txt"]⟩) rfl rfl hnormal hname {}
      (show Facet.extname ≠ .path by decide)
  refine ⟨hnormal, hname, v, m, hget, hset, hsame.mpr ?_⟩
  rintro ⟨letter, hletter⟩
  have hsecond : "\\\\host\\share\\a.txt".toList[1]? = some ':' := congrArg (·[1]?) hletter
  exact absurd hsecond (by decide +kernel)

/-- **The name alone after a drive, written back, names another
file**: one below the root of the drive. -/
theorem set_get_bare : Style.windows.normalize "C:a".toList = "C:a".toList ∧
    Naming.get {} ⟨.windows, [.ofString "C:a"]⟩ .basename = .ok (.ofString "a") ∧
    ∃ m, Naming.set {} ⟨.windows, [.ofString "C:a"]⟩ .basename (.ofString "a") = .ok m ∧
      m.1.history = [.ofString "C:a", .ofString "C:\\a"] :=
  ⟨by decide +kernel, by decide +kernel, _, rfl, by decide +kernel⟩

end Naming

end VirtualFile
