import VirtualFile.Naming
import VirtualFile.Proofs.Path.Extension
/-!
# Setting facets to texts

A posix path with a stem and an extension takes every directory, stem, extension and name with an
extension. What comes out is always the directory joined with the stem and the extension, one or two
of them new; the old parts are those that the path is read as (`Path.Parted`).

* `Naming.setPath_text`, `Naming.setJoined_name`: a text is set as it is.
* `Naming.setDirectory_text`, `Naming.setBasename_text`, `Naming.setStem_text`,
  `Naming.setExtension_text`: the four facets.
-/

namespace VirtualFile
open VirtualFile.Path (Style IsStem IsExtension Parted)

/-! ### Texts as arguments -/

namespace Store
variable (s : Store)

theorem pathSource_text (st : Style) (t : Text) : s.pathSource st (.text t) = .ok (.text t) := by
  simp [pathSource, isUrl, hasAttribute, attribute?, cell?]

@[simp] theorem truthy_text (t : Text) : s.truthy (.text t) = (t != []) := by
  simp [truthy]

theorem checkPart_text {sep : Char} {facet : Facet} {t : Text} (ht : sep ∉ t) :
    s.checkPart sep facet (.text t) = .ok () := by
  simp [checkPart, ht]

end Store

namespace Naming
variable (s : Store) {n : Naming} {p d stem ext : Text}

theorem facet_text (hp : n.path = .text p) (read : Text → Text) :
    n.facet s read = .ok (some (read p)) := by
  rw [facet, hp]

theorem setPath_text (n : Naming) {t : Text} (ht : t ≠ []) :
    n.setPath s (.text t) = .ok (n.rename t) := by
  rw [setPath, Store.pathSource_text]
  simp [ht, bind, Except.bind, pure, Except.pure]

theorem setJoined_name (hst : n.style = .posix) (d : Text) {x : Text} (hx : Style.posix.IsName x) :
    n.setJoined s [d, x] = .ok (n.rename (Style.posix.join [d, x])) := by
  have hne : Style.posix.join [d, x] ≠ [] := by
    rw [Path.join_name d hx, Style.written_concat, ne_eq, List.append_eq_nil_iff]
    rintro ⟨-, h⟩
    refine List.concat_ne_nil _ _ (Text.join_eq_nil (fun c hc => ?_) h)
    rcases List.mem_append.mp hc with hc | hc
    · exact Style.ne_nil_of_mem_kept hc
    · exact List.mem_singleton.mp hc ▸ hx.ne_nil
  rw [setJoined, hst]
  exact setPath_text s n hne

theorem join_nil_cons (st : Style) (x : Text) : st.join [[], x] = st.join [x] := by
  simp [Style.join]

theorem checkExtension_text {e : Text} (he : IsExtension e) :
    checkExtension s (.text e) = .ok e := by
  obtain ⟨t, rfl, ht⟩ := he
  simp [checkExtension, ht]

/-! ### The facets -/

section Facets
variable (hst : n.style = .posix)
include hst

theorem checkPart_posix (facet : Facet) {t : Text} (ht : ∀ c ∈ t, Style.posix.isSep c = false) :
    s.checkPart n.style.sep facet (.text t) = .ok () := by
  rw [hst]
  exact Store.checkPart_text s (Path.no_sep_iff.mp ht)

variable (hp : n.path = .text p)
include hp

theorem directory_text : n.directory s = .ok (some (Style.posix.parent p)) := by
  rw [directory, hst, facet_text s hp]

variable (h : Parted p d stem ext)
include h

theorem basename_text : n.basename s = .ok (some (stem ++ ext)) := by
  rw [basename, hst, facet_text s hp, h.name]

theorem stem_text : n.stem s = .ok (some stem) := by
  rw [Naming.stem, hst, facet_text s hp, h.nameWithout_eq]

theorem extension_text : n.extension s = .ok (some ext) := by
  rw [extension, hst, facet_text s hp, h.extension_eq]

theorem setDirectory_text (dir : Option Text) : n.setDirectory s (.ofText? dir) =
    .ok (n.rename (Style.posix.join [Style.posix.normalize (dir.getD []), stem ++ ext])) := by
  rw [Path.join_normalize _ h.isName, ← setJoined_name s hst _ h.isName, setDirectory,
    basename_text s hst hp h]
  have hne : stem ++ ext ≠ [] := h.isName.ne_nil
  rcases dir with _ | _ | ⟨c, t⟩
  · simp [hne, bind, Except.bind, Value.ofText?, Store.truthy, setJoined, join_nil_cons]
  · simp [hne, bind, Except.bind, Value.ofText?, setJoined, join_nil_cons]
  · simp [hne, bind, Except.bind, Value.ofText?]

theorem setBasename_text {b : Text} (hb : Style.posix.IsName b) :
    n.setBasename s (.text b) = .ok (n.rename (Style.posix.join [d, b])) := by
  rw [← h.join_parent hb, ← setJoined_name s hst _ hb, setBasename,
    checkPart_posix s hst _ hb.no_sep, directory_text s hst hp]
  simp [hb.ne_nil, bind, Except.bind, Store.textOnly]

theorem setStem_text {t : Text} (ht : IsStem t) (hsep : ∀ c ∈ t, Style.posix.isSep c = false) :
    n.setStem s (.text t) = .ok (n.rename (Style.posix.join [d, t ++ ext])) := by
  have hx : Style.posix.IsName (t ++ ext) :=
    Path.isName_append ht (List.forall_mem_append.mpr ⟨hsep, h.no_sep_extension⟩)
  have hne : stem ++ ext ≠ [] := h.isName.ne_nil
  rw [← h.join_parent hx, ← setJoined_name s hst _ hx, setStem, checkPart_posix s hst _ hsep,
    directory_text s hst hp, basename_text s hst hp h, extension_text s hst hp h]
  simp [ht.proper.ne_nil, hne, bind, Except.bind, Store.textOnly]

theorem setExtension_text {e : Text} (he : IsExtension e)
    (hsep : ∀ c ∈ e, Style.posix.isSep c = false) :
    n.setExtension s (.text e) = .ok (n.rename (Style.posix.join [d, stem ++ e])) := by
  have hx : Style.posix.IsName (stem ++ e) :=
    Path.isName_append h.stem (List.forall_mem_append.mpr ⟨h.no_sep_stem, hsep⟩)
  rw [← h.join_parent hx, ← setJoined_name s hst _ hx, setExtension,
    checkPart_posix s hst _ hsep, directory_text s hst hp, checkExtension_text s he,
    stem_text s hst hp h]
  simp [bind, Except.bind]

end Facets

end Naming

end VirtualFile
