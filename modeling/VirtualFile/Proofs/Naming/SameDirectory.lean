import VirtualFile.Proofs.Naming.Targets
import VirtualFile.Proofs.Path.Drives
/-!
# Parts of a name that stay in the directory

The setters of the name, the stem and the extension refuse the separator that the style writes. A
Windows path is also read with slashes, which they let pass. So a part that is accepted becomes part
of the name, and the directory stays, exactly if it holds no slash (`keeps_directory_iff`).

* `Path.IsDriveFile`: a path in normal form on a drive that has a name.
* `Path.exists_folder`: its directory and its name.
-/

namespace VirtualFile
open VirtualFile.Path (Style IsStem onDrive Plain)

namespace Path

/-- **A file on a drive**: a path in normal form that begins with a
letter, a colon and a backslash and has a name. -/
structure IsDriveFile (p : Text) : Prop where
  start : ∃ letter t, letter.isAlpha = true ∧ p = letter :: ':' :: '\\' :: t
  normal : Style.windows.normalize p = p
  name : Style.windows.name p ≠ []

theorem isSep_letter {c : Char} (h : c.isAlpha = true) : Style.windows.isSep c = false := by
  rw [Style.isSep, Bool.or_eq_false_iff, beq_eq_false_iff_ne, beq_eq_false_iff_ne]
  constructor <;> rintro rfl <;> exact absurd h (by decide)

/-- **The directory of a file on a drive** is a path of settled components on the same drive. -/
theorem exists_folder {p : Text} (hp : IsDriveFile p) :
    ∃ letter ks, Style.windows.isSep letter = false ∧ Style.windows.parent p = onDrive letter ks ∧
      reduce true ks = ks ∧ ∀ c ∈ ks, Plain c := by
  obtain ⟨letter, t, halpha, rfl⟩ := hp.start
  have hletter := isSep_letter halpha
  obtain ⟨ks, heq, hks, hplain⟩ := exists_onDrive hletter hp.normal
  rw [heq] at hp ⊢
  obtain ⟨front, last, rfl⟩ := (List.eq_nil_or_concat' ks).resolve_left fun h =>
    hp.name (h ▸ name_onDrive_nil)
  have hfront : ∀ c ∈ front, Plain c := fun c hc => hplain c (by simp [hc])
  exact ⟨letter, front, hletter, parent_onDrive hletter hfront (hplain last (by simp)),
    reduce_of_reduce_concat hks, hfront⟩

theorem join_folder {letter : Char} {ks : List Text} {x : Text}
    (hletter : Style.windows.isSep letter = false) (hks : reduce true ks = ks)
    (hplain : ∀ c ∈ ks, Plain c) (hx : IsStem x) (hsep : ∀ c ∈ x, Style.windows.isSep c = false) :
    Style.windows.join [onDrive letter ks, x] = onDrive letter (ks ++ [x]) := by
  rw [join_onDrive hletter hplain ⟨hx.proper.ne_nil, hsep⟩, reduce_concat_proper _ hx.proper, hks]

end Path

namespace Naming

theorem mem_composed {w : Write} {t : Text} (hw : w.part? = some t) (st : Style) (p : Text)
    {c : Char} : (c ∈ t → c ∈ w.composed st p) ∧ (c ∈ w.composed st p → c ∈ t ∨ c ∈ st.name p) := by
  cases w with
  | directory d => exact absurd hw (by simp [Write.part?])
  | basename b =>
    obtain rfl := Option.some.inj hw
    exact ⟨id, Or.inl⟩
  | stem b =>
    obtain rfl := Option.some.inj hw
    refine ⟨List.mem_append_left _, fun h => ?_⟩
    exact (List.mem_append.mp h).imp_right Style.mem_name_of_mem_extension
  | extension b =>
    obtain rfl := Option.some.inj hw
    refine ⟨List.mem_append_right _, fun h => ?_⟩
    exact (List.mem_append.mp h).symm.imp_right Style.mem_name_of_mem_nameWithout

/-- A name that is accepted has no separators exactly if the part that is written has no slash. -/
theorem composed_iff {w : Write} {t : Text} (hw : w.part? = some t) {p : Text}
    (hback : '\\' ∉ w.composed .windows p) :
    (∀ c ∈ w.composed .windows p, Style.windows.isSep c = false) ↔ '/' ∉ t := by
  constructor
  · intro hsep hslash
    exact absurd (hsep '/' ((mem_composed hw .windows p).1 hslash)) (by decide)
  · intro hslash c hc
    rw [Style.isSep, Bool.or_eq_false_iff, beq_eq_false_iff_ne, beq_eq_false_iff_ne]
    constructor
    · rintro rfl
      rcases (mem_composed hw .windows p).2 hc with h | h
      · exact hslash h
      · exact absurd (Path.no_sep_name .windows p '/' h) (by decide)
    · rintro rfl
      exact hback hc

/-- **A part of a name stays in the directory exactly if it holds no slash.** A Windows file in
normal form on a drive takes a name, a stem or an extension that is not only dots. If the setter
accepts it, then the directory is the same as before and the new name is the one composed if and
only if the part has no slash. -/
theorem keeps_directory_iff {n : Naming} {p : Text} (hst : n.style = .windows)
    (hp : n.path = .text p) (hfile : Path.IsDriveFile p) {w : Write} {t : Text}
    (hw : w.part? = some t) (ht : IsStem t) {s : Store} {m : Naming × List Renaming}
    (hset : n.set s w.call.1 w.call.2 = .ok m) :
    m.1.directory s = n.directory s ∧ m.1.basename s = .ok (some (w.composed .windows p)) ↔
    '/' ∉ t := by
  rw [set_text s (p := some p) hp w, hst] at hset
  cases htarget : w.target .windows (some p) with
  | error e => exact absurd (htarget ▸ hset) (by simp [Except.map])
  | ok x =>
    obtain ⟨d, x⟩ := x
    rw [htarget] at hset
    obtain rfl := Except.ok.inj hset
    obtain ⟨rfl, hback, -, hd⟩ := Write.target_eq_ok htarget
    obtain rfl := hd t hw
    rw [directory_rename, basename_rename, directory, facet_text s hp, hst, Except.ok.injEq,
      Option.some.injEq, Except.ok.injEq, Option.some.injEq, ← composed_iff hw hback]
    constructor
    · -- a name never holds a separator
      rintro ⟨-, hname⟩
      exact hname ▸ Path.no_sep_name .windows _
    · intro hsep
      have hx : IsStem (w.composed .windows p) := by
        obtain ⟨c, hc, hne⟩ := ht
        exact ⟨c, (mem_composed hw .windows p).1 hc, hne⟩
      have hplain : Plain (w.composed .windows p) := ⟨hx.proper.ne_nil, hsep⟩
      obtain ⟨letter, ks, hletter, hparent, hks, hfolder⟩ := Path.exists_folder hfile
      rw [hparent, Path.join_folder hletter hks hfolder hx hsep]
      exact ⟨Path.parent_onDrive hletter hfolder hplain, Path.name_onDrive hletter hfolder hplain⟩

/-- An extension with a colon and a blank stays in the directory. -/
theorem keeps_directory_iff_colon :
    Path.IsDriveFile "C:\\x\\a.txt".toList ∧
    ∃ m, Naming.set {} ⟨.windows, [.ofString "C:\\x\\a.txt"]⟩ .extname
      (.ofString ".D: b") = .ok m ∧ m.1.directory {} = .ok (some "C:\\x".toList) ∧
      m.1.basename {} = .ok (some "a.D: b".toList) := by
  have hfile : Path.IsDriveFile "C:\\x\\a.txt".toList :=
    ⟨⟨'C', "x\\a.txt".toList, by decide, rfl⟩, by decide +kernel, by decide +kernel⟩
  obtain ⟨hdir, hname⟩ :=
    (keeps_directory_iff (n := ⟨.windows, [.ofString "C:\\x\\a.txt"]⟩) rfl rfl hfile
      (w := .extension ".D: b".toList) rfl ⟨'D', by decide, by decide⟩ (s := {}) rfl).mpr
        (by decide)
  exact ⟨hfile, _, rfl, hdir.trans (by decide +kernel), hname.trans (by decide +kernel)⟩

/-- **A name with a slash is a path**: it is accepted and moves the file. -/
theorem setBasename_slash : ∃ m,
    Naming.setBasename {} ⟨.windows, [.ofString "C:\\x\\a.txt"]⟩ (.ofString "b/c") = .ok m ∧
    Naming.directory {} ⟨.windows, [.ofString "C:\\x\\a.txt"]⟩ = .ok (some "C:\\x".toList) ∧
    m.1.directory {} = .ok (some "C:\\x\\b".toList) :=
  ⟨_, rfl, by decide +kernel, by decide +kernel⟩

end Naming

end VirtualFile
