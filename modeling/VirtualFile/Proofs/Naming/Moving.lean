import VirtualFile.Proofs.Naming.Targets
import VirtualFile.Proofs.Path.Folders
/-!
# Moving a file

Setting the directory of a posix file gives it that directory in normal form, whatever is
written in it, and leaves the name as it is (`setDirectory_moves`). The stem and the
extension are read off the name alone, so they stay too. Only `.` and `..` are no names to
keep: below another directory they lead elsewhere.

So it is with a Windows file (`setDirectory_moves_windows`), if the directory is not read as a share
or as a drive without a root, and neither is what the name makes of it.

* `NamedAlike`, `NamedAlike.get`: paths with the same name, and what is read off the name.
* `setDirectory_eq`: the new path.
-/

namespace VirtualFile
open VirtualFile.Path (Style)

namespace Path.Style

theorem nameWithout_congr {st : Style} {p q : Text} (h : st.name p = st.name q) (ext : Text) :
    st.nameWithout p ext = st.nameWithout q ext := by
  rw [nameWithout, nameWithout, h]

theorem extension_congr {st : Style} {p q : Text} (h : st.name p = st.name q) :
    st.extension p = st.extension q := by
  rw [extension, extension, h]

end Path.Style

namespace Naming

/-- **Two namings whose paths have the same name.** -/
structure NamedAlike (n m : Naming) (p q : Text) : Prop where
  style : m.style = n.style
  path : n.path = .text p
  path' : m.path = .text q
  name : n.style.name p = n.style.name q

theorem NamedAlike.get {n m : Naming} {p q : Text} (h : NamedAlike n m p q) (s : Store)
    {facet : Facet} (hpath : facet ≠ .path) (hdir : facet ≠ .dirname) :
    ∃ t, n.get s facet = .ok (.text t) ∧ m.get s facet = .ok (.text t) := by
  have hread : ∀ read : Text → Text, read p = read q →
      n.facet s read = .ok (some (read p)) ∧ m.facet s read = .ok (some (read p)) := fun read heq =>
    ⟨facet_text s h.path read, heq ▸ facet_text s h.path' read⟩
  cases facet with
  | path => exact absurd rfl hpath
  | dirname => exact absurd rfl hdir
  | basename =>
    obtain ⟨hn, hm⟩ := hread _ h.name
    exact ⟨_, by rw [Naming.get, basename, hn]; rfl, by rw [Naming.get, basename, h.style, hm]; rfl⟩
  | extname =>
    obtain ⟨hn, hm⟩ := hread _ (Style.extension_congr h.name)
    exact ⟨_, by rw [Naming.get, extension, hn]; rfl,
      by rw [Naming.get, extension, h.style, hm]; rfl⟩
  | stem =>
    have hstem : n.style.nameWithout p (n.style.extension p) =
        n.style.nameWithout q (n.style.extension q) := by
      rw [Style.extension_congr h.name, Style.nameWithout_congr h.name]
    obtain ⟨hn, hm⟩ := hread (fun t => n.style.nameWithout t (n.style.extension t)) hstem
    exact ⟨_, by rw [Naming.get, stem, hn]; rfl, by rw [Naming.get, stem, h.style, hm]; rfl⟩

/-- **The new path** is the directory joined with the name. -/
theorem setDirectory_eq {n : Naming} {p : Text} (hp : n.path = .text p)
    (hname : n.style.name p ≠ []) (s : Store) (d : Option Text) :
    n.setDirectory s (.ofText? d) = .ok (n.rename (n.style.join [d.getD [], n.style.name p])) := by
  have htarget : (Write.directory d).target n.style (some p) = .ok (d.getD [], n.style.name p) := by
    simp [Write.target, hname]
  have hset := set_text s (p := some p) hp (.directory d)
  rw [htarget] at hset
  exact hset

/-- **Moving a file.** The directory of a posix file whose name is neither `.` nor `..` can be set
to any text, or to none. The new directory is the normal form of the text, `.` for an empty one, and
the name, the stem and the extension stay. -/
theorem setDirectory_moves {n : Naming} {p : Text} (hst : n.style = .posix) (hp : n.path = .text p)
    (hname : Path.Proper (Style.posix.name p)) (s : Store) (d : Option Text) :
    ∃ m, n.setDirectory s (.ofText? d) = .ok m ∧
      m.1.directory s = .ok (some (Style.posix.normalize (d.getD []))) ∧
      ∀ facet, facet ≠ .path → facet ≠ .dirname →
        ∃ t, n.get s facet = .ok (.text t) ∧ m.1.get s facet = .ok (.text t) := by
  obtain ⟨st, h⟩ := n
  obtain rfl : st = .posix := hst
  have hx : Style.posix.IsName (Style.posix.name p) := ⟨hname, Path.no_sep_name .posix p⟩
  refine ⟨_, setDirectory_eq hp hname.ne_nil s d, ?_, fun facet hpath hdir => ?_⟩
  · rw [directory_rename, Path.parent_join _ hx]
  · refine NamedAlike.get ⟨style_rename _ _, hp, path_rename _ _, ?_⟩ s hpath hdir
    exact (Path.name_join _ hx).symm

/-- A dotfile is moved to a directory above, written with slashes to spare. -/
theorem setDirectory_moves_up : Path.Proper (Style.posix.name "lib/.env.local/".toList) ∧
    ∃ m, Naming.setDirectory {} ⟨.posix, [.ofString "lib/.env.local/"]⟩ (.ofString "a/..//../") =
        .ok m ∧
      m.1.directory {} = .ok (some "..".toList) ∧ m.1.get {} .stem = .ok (.ofString ".env") ∧
      m.1.get {} .extname = .ok (.ofString ".local") := by
  have hname : Path.Proper (Style.posix.name "lib/.env.local/".toList) :=
    ⟨by decide +kernel, by decide +kernel, by decide +kernel⟩
  obtain ⟨m, hset, hdir, hkept⟩ :=
    setDirectory_moves (n := ⟨.posix, [.ofString "lib/.env.local/"]⟩) rfl rfl hname {}
      (some "a/..//../".toList)
  refine ⟨hname, m, hset, hdir.trans (by decide +kernel), ?_, ?_⟩
  · obtain ⟨t, ht, ht'⟩ := hkept .stem (by decide) (by decide)
    exact ht'.trans (ht.symm.trans (by decide +kernel))
  · obtain ⟨t, ht, ht'⟩ := hkept .extname (by decide) (by decide)
    exact ht'.trans (ht.symm.trans (by decide +kernel))

/-- **Moving a Windows file.** The directory of a file whose name is neither `.` nor `..` and holds
no colon can be set to a text that leads to a folder, or to none. The new directory is the normal
form of the text, `.` for an empty one, and the name, the stem and the extension stay. -/
theorem setDirectory_moves_windows {n : Naming} {p : Text} (hst : n.style = .windows)
    (hp : n.path = .text p) (hname : Path.Proper (Style.windows.name p))
    (hcolon : ':' ∉ Style.windows.name p) (s : Store) {d : Option Text}
    (hd : Path.IsFolder (d.getD [])) : ∃ m, n.setDirectory s (.ofText? d) = .ok m ∧
      m.1.directory s = .ok (some (Style.windows.normalize (d.getD []))) ∧
      ∀ facet, facet ≠ .path → facet ≠ .dirname →
        ∃ t, n.get s facet = .ok (.text t) ∧ m.1.get s facet = .ok (.text t) := by
  obtain ⟨st, h⟩ := n
  obtain rfl : st = .windows := hst
  have hx : Style.windows.IsName (Style.windows.name p) := ⟨hname, Path.no_sep_name .windows p⟩
  refine ⟨_, setDirectory_eq hp hname.ne_nil s d, ?_, fun facet hpath hdir => ?_⟩
  · rw [directory_rename, Path.parent_join_windows hd hx hcolon]
  · refine NamedAlike.get ⟨style_rename _ _, hp, path_rename _ _, ?_⟩ s hpath hdir
    exact (Path.name_join_windows hd hx hcolon).symm

/-- A file below a share is moved to a drive, on a way up from its root. -/
theorem setDirectory_moves_drive :
    Path.Proper (Style.windows.name "\\\\host\\share/.a.tar.gz".toList) ∧
    ':' ∉ Style.windows.name "\\\\host\\share/.a.tar.gz".toList ∧
    Path.IsFolder "c:/../b\\..//d/".toList ∧
    ∃ m, Naming.setDirectory {} ⟨.windows, [.ofString "\\\\host\\share/.a.tar.gz"]⟩
        (.ofString "c:/../b\\..//d/") = .ok m ∧
      m.1.directory {} = .ok (some "c:\\d".toList) ∧ m.1.get {} .stem = .ok (.ofString ".a.tar") ∧
      m.1.get {} .extname = .ok (.ofString ".gz") := by
  have hname : Path.Proper (Style.windows.name "\\\\host\\share/.a.tar.gz".toList) :=
    ⟨by decide +kernel, by decide +kernel, by decide +kernel⟩
  have hcolon : ':' ∉ Style.windows.name "\\\\host\\share/.a.tar.gz".toList := by decide +kernel
  have hd : Path.IsFolder "c:/../b\\..//d/".toList :=
    ⟨fun h => absurd h (by decide), .inr ⟨'c', '/', "../b\\..//d/".toList, rfl, rfl⟩⟩
  obtain ⟨m, hset, hdir, hkept⟩ :=
    setDirectory_moves_windows
      (n := ⟨.windows, [.ofString "\\\\host\\share/.a.tar.gz"]⟩) rfl rfl hname hcolon {}
      (d := some "c:/../b\\..//d/".toList) hd
  refine ⟨hname, hcolon, hd, m, hset, hdir.trans (by decide +kernel), ?_, ?_⟩
  · obtain ⟨t, ht, ht'⟩ := hkept .stem (by decide) (by decide)
    exact ht'.trans (ht.symm.trans (by decide +kernel))
  · obtain ⟨t, ht, ht'⟩ := hkept .extname (by decide) (by decide)
    exact ht'.trans (ht.symm.trans (by decide +kernel))

end Naming

end VirtualFile
