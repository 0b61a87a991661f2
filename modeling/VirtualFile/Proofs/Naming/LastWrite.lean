import VirtualFile.Proofs.Naming.Texts
/-!
# The last write wins

Setting the directory, the stem, the extension or the name of a posix path computes the other parts
anew from the text of the whole path. All the same the parts are independent of each other: after
any run of such writes each part is the one that was written last (`run_writes`), so the order of
writes to different parts does not matter, nor how often a part was written before.

* `Write`: a write of a part; a name with an extension is a write of two.
* `Parts.after`: the parts after a run of writes, by what was written last.
* `set_write`, `parted_write`: one write. It keeps the parts readable
  off the path (`Path.Parted`), which carries the induction.
-/

namespace VirtualFile
open VirtualFile.Path (Style IsStem IsExtension Parted)

namespace Naming

/-- A write of a part of the path. -/
inductive Write
  | directory (d : Option Text)
  | stem (t : Text)
  | extension (t : Text)
  | basename (t : Text)
  deriving DecidableEq, Repr

namespace Write

/-- The setter and its argument. -/
def call : Write → Facet × Value
  | .directory d => (.dirname, .ofText? d)
  | .stem t => (.stem, .text t)
  | .extension t => (.extname, .text t)
  | .basename t => (.basename, .text t)

/-- A stem with a character other than a dot, an extension with one dot, or a name with an
extension, none of them with a slash. Any directory will do. -/
def Sound : Write → Prop
  | .directory _ => True
  | .stem t => IsStem t ∧ '/' ∉ t
  | .extension t => IsExtension t ∧ '/' ∉ t
  | .basename t => Style.posix.extension t ≠ [] ∧ '/' ∉ t

/-- The directory that is written, in normal form. -/
def directory? : Write → Option Text
  | .directory d => some (Style.posix.normalize (d.getD []))
  | _ => none

def stem? : Write → Option Text
  | .stem t => some t
  | .basename t => some (Style.posix.nameWithout t (Style.posix.extension t))
  | _ => none

def extension? : Write → Option Text
  | .extension t => some t
  | .basename t => some (Style.posix.extension t)
  | _ => none

end Write

/-- What was written last, or else the initial text. -/
def lastWritten (written? : Write → Option Text) (ws : List Write) (initial : Text) : Text :=
  (ws.filterMap written?).getLast?.getD initial

/-- The parts of a path. -/
structure Parts where
  directory : Text
  stem : Text
  extension : Text
  deriving DecidableEq, Repr

namespace Parts

/-- The path with these parts. -/
def path (x : Parts) : Text := Style.posix.join [x.directory, x.stem ++ x.extension]

/-- The parts of a path, its directory in normal form. -/
def ofPath (p : Text) : Parts where
  directory := Style.posix.normalize (Style.posix.parent p)
  stem := Style.posix.nameWithout p (Style.posix.extension p)
  extension := Style.posix.extension p

/-- **The parts after a run of writes.** -/
def after (x : Parts) (ws : List Write) : Parts where
  directory := lastWritten Write.directory? ws x.directory
  stem := lastWritten Write.stem? ws x.stem
  extension := lastWritten Write.extension? ws x.extension

end Parts

/-- A run of setters. -/
def run (s : Store) : Naming → List (Facet × Value) → Except Fault Naming
  | n, [] => .ok n
  | n, (facet, v) :: calls => do
    let (m, _) ← n.set s facet v
    m.run s calls

/-! ### One write -/

theorem lastWritten_cons (written? : Write → Option Text) (w : Write) (ws : List Write)
    (initial : Text) : lastWritten written? (w :: ws) initial =
      lastWritten written? ws (lastWritten written? [w] initial) := by
  cases h : written? w with
  | none => simp [lastWritten, h]
  | some t =>
    simp only [lastWritten, List.filterMap_cons, h, List.filterMap_nil, List.getLast?_cons]
    cases (ws.filterMap written?).getLast? <;> simp

namespace Parts
variable (x : Parts)

theorem after_cons (w : Write) (ws : List Write) : x.after (w :: ws) = (x.after [w]).after ws := by
  simp only [after, lastWritten_cons _ w ws]

theorem after_append (ws us : List Write) : x.after (ws ++ us) = (x.after ws).after us := by
  induction ws generalizing x with
  | nil => rfl
  | cons w ws ih => rw [List.cons_append, after_cons, ih, ← after_cons]

end Parts

variable {n : Naming} {p : Text} {x : Parts} {w : Write}

theorem parted_path (hd : Style.posix.normalize x.directory = x.directory) (hs : IsStem x.stem)
    (he : IsExtension x.extension)
    (hsep : ∀ c ∈ x.stem ++ x.extension, Style.posix.isSep c = false) :
    Parted x.path x.directory x.stem x.extension := by
  have := Path.parted_join x.directory hs he hsep
  rwa [hd] at this

theorem parted_basename {t : Text} (hext : Style.posix.extension t ≠ []) (ht : '/' ∉ t) :
    t = (Parts.ofPath t).stem ++ (Parts.ofPath t).extension ∧ IsStem (Parts.ofPath t).stem ∧
      IsExtension (Parts.ofPath t).extension := by
  have h := Path.parted_of_extension hext
  have hname : Style.posix.name t = t := Path.name_of_no_sep (Path.no_sep_iff.mpr ht)
  exact ⟨hname.symm.trans h.name, h.stem, h.extension⟩

/-- **One write** keeps the parts readable off the path. -/
theorem parted_write (h : Parted p x.directory x.stem x.extension) (hw : w.Sound) :
    Parted (x.after [w]).path (x.after [w]).directory (x.after [w]).stem
      (x.after [w]).extension := by
  cases w with
  | directory d =>
    exact parted_path (Path.normalize_normalize (d.getD [])) h.stem h.extension h.no_sep
  | stem t =>
    have ht := Path.no_sep_iff.mpr hw.2
    exact parted_path h.normalize_directory hw.1 h.extension
      (List.forall_mem_append.mpr ⟨ht, h.no_sep_extension⟩)
  | extension t =>
    have ht := Path.no_sep_iff.mpr hw.2
    exact parted_path h.normalize_directory h.stem hw.1
      (List.forall_mem_append.mpr ⟨h.no_sep_stem, ht⟩)
  | basename t =>
    obtain ⟨heq, hs, he⟩ := parted_basename hw.1 hw.2
    exact parted_path h.normalize_directory hs he (heq ▸ Path.no_sep_iff.mpr hw.2)

/-- **One write** sets the path to that of the new parts. -/
theorem set_write (hst : n.style = .posix) (hp : n.path = .text p)
    (h : Parted p x.directory x.stem x.extension) (hw : w.Sound) (s : Store) :
    n.set s w.call.1 w.call.2 = .ok (n.rename (x.after [w]).path) := by
  cases w with
  | directory d => exact setDirectory_text s hst hp h d
  | stem t => exact setStem_text s hst hp h hw.1 (Path.no_sep_iff.mpr hw.2)
  | extension t => exact setExtension_text s hst hp h hw.1 (Path.no_sep_iff.mpr hw.2)
  | basename t =>
    -- the name is set as a whole, but counts as its stem and its extension
    obtain ⟨heq, hs, -⟩ := parted_basename hw.1 hw.2
    have hname : Style.posix.IsName t :=
      heq ▸ Path.isName_append hs (heq ▸ Path.no_sep_iff.mpr hw.2)
    refine (setBasename_text s hst hp h hname).trans ?_
    exact congrArg (fun b => Except.ok (n.rename (Style.posix.join [x.directory, b]))) heq

/-! ### Runs -/

theorem path_rename (n : Naming) (q : Text) : (n.rename q).1.path = .text q := by
  rw [rename]
  split_ifs with hq
  · exact hq
  · simp [Naming.path]

theorem style_rename (n : Naming) (q : Text) : (n.rename q).1.style = n.style := by
  rw [rename]
  split_ifs <;> rfl

variable {ws : List Write}

theorem parted_after (h : Parted p x.directory x.stem x.extension) (hne : ws ≠ [])
    (hws : ∀ w ∈ ws, w.Sound) :
    Parted (x.after ws).path (x.after ws).directory (x.after ws).stem (x.after ws).extension := by
  induction ws generalizing p x with
  | nil => exact absurd rfl hne
  | cons w ws ih =>
    have hfirst := parted_write h (hws w (by simp))
    by_cases hrest : ws = []
    · subst hrest
      exact hfirst
    · rw [x.after_cons w ws]
      exact ih hfirst hrest fun u hu => hws u (by simp [hu])

theorem run_path (hst : n.style = .posix) (hp : n.path = .text p)
    (h : Parted p x.directory x.stem x.extension) (hne : ws ≠ []) (hws : ∀ w ∈ ws, w.Sound)
    (s : Store) : ∃ n', n.run s (ws.map Write.call) = .ok n' ∧ n'.style = .posix ∧
      n'.path = .text (x.after ws).path := by
  induction ws generalizing n p x with
  | nil => exact absurd rfl hne
  | cons w ws ih =>
    have hfirst := hws w (by simp)
    rw [List.map_cons, run, set_write hst hp h hfirst s]
    by_cases hrest : ws = []
    · subst hrest
      exact ⟨_, rfl, (style_rename n _).trans hst, path_rename n _⟩
    · rw [x.after_cons w ws]
      exact ih ((style_rename n _).trans hst) (path_rename n _) (parted_write h hfirst) hrest
        fun u hu => hws u (by simp [hu])

/-- Writes that can be made one after the other: there are some, all are sound, and the current path
is a posix path with an extension. -/
structure CanWrite (n : Naming) (p : Text) (ws : List Write) : Prop where
  style : n.style = .posix
  path : n.path = .text p
  extension : Style.posix.extension p ≠ []
  nonempty : ws ≠ []
  sound : ∀ w ∈ ws, w.Sound

theorem parted_ofPath (hext : Style.posix.extension p ≠ []) : Parted p (Parts.ofPath p).directory
    (Parts.ofPath p).stem (Parts.ofPath p).extension :=
  Path.parted_of_extension hext

theorem parent_path (h : Parted p x.directory x.stem x.extension) :
    Style.posix.parent x.path = x.directory := by
  rw [Parts.path, Path.parent_join _ h.isName, h.normalize_directory]

theorem CanWrite.run (h : CanWrite n p ws) (s : Store) :
    ∃ n', n.run s (ws.map Write.call) = .ok n' ∧
      n'.path = .text ((Parts.ofPath p).after ws).path ∧
      n'.directory s = .ok (some ((Parts.ofPath p).after ws).directory) ∧
      n'.stem s = .ok (some ((Parts.ofPath p).after ws).stem) ∧
      n'.extension s = .ok (some ((Parts.ofPath p).after ws).extension) := by
  have hx := parted_ofPath h.extension
  obtain ⟨n', hrun, hst, hq⟩ := run_path h.style h.path hx h.nonempty h.sound s
  have hread := parted_after hx h.nonempty h.sound
  refine ⟨n', hrun, hq, ?_, stem_text s hst hq hread, extension_text s hst hq hread⟩
  rw [directory_text s hst hq, parent_path hread]

/-- **The last write wins.** Every run of writes succeeds, its path is made of the parts that were
written last, and these are read back. Two runs that agree on them end on the same path. -/
theorem run_writes (h : CanWrite n p ws) (s : Store) :
    (∃ n', n.run s (ws.map Write.call) = .ok n' ∧
      n'.path = .text ((Parts.ofPath p).after ws).path ∧
      n'.directory s = .ok (some ((Parts.ofPath p).after ws).directory) ∧
      n'.stem s = .ok (some ((Parts.ofPath p).after ws).stem) ∧
      n'.extension s = .ok (some ((Parts.ofPath p).after ws).extension)) ∧
    ∀ m q us, CanWrite m q us → (Parts.ofPath q).after us = (Parts.ofPath p).after ws →
      (m.run s (us.map Write.call)).map Naming.path =
        (n.run s (ws.map Write.call)).map Naming.path := by
  refine ⟨h.run s, fun m q us h' heq => ?_⟩
  obtain ⟨m', hm, hmpath, -⟩ := h'.run s
  obtain ⟨n', hn, hnpath, -⟩ := h.run s
  rw [hm, hn, Except.map, Except.map, hmpath, hnpath, heq]

/-- A directory is left, a name is written and half of it written over. -/
theorem run_writes_relative : ∃ n', run {} ⟨.posix, [.ofString "src/../a//main.c"]⟩
      [(.dirname, .ofString "lib/./"), (.basename, .ofString "d.tar.gz"), (.stem, .ofString "e")] =
        .ok n' ∧
    n'.path = .ofString "lib/e.gz" := by
  have h : CanWrite ⟨.posix, [.ofString "src/../a//main.c"]⟩ "src/../a//main.c".toList
      [.directory (some "lib/./".toList), .basename "d.tar.gz".toList, .stem "e".toList] :=
    ⟨rfl, rfl, by decide +kernel, by decide,
      by simp only [List.forall_mem_cons]; exact ⟨trivial, ⟨by decide +kernel, by decide⟩,
        ⟨⟨'e', by decide, by decide⟩, by decide⟩, by simp⟩⟩
  obtain ⟨⟨n', hrun, hpath, -⟩, -⟩ := run_writes h {}
  exact ⟨n', hrun, hpath.trans (by decide +kernel)⟩

end Naming

end VirtualFile
