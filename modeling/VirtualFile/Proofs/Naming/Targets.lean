import VirtualFile.Proofs.Naming.LastWrite
/-!
# What a setter joins

Given a text, each setter of a facet works out a directory and a name from the current
path and joins them, or is refused. Both depend on the style and the path alone
(`Write.target`), so that a call is known once its target is (`set_text`). The path that
comes out is never empty, so nothing is refused after that.

* `Path.Style.join_ne_nil`: joined paths are not empty.
* `Fault.IsNaming`: the refusals of setters that are given texts.
* `Write.target`, `Write.target_error`: the directory and the name, or such a refusal.
* `Write.composed`, `Write.target_eq_ok`: the name that is joined.
-/

namespace VirtualFile
open VirtualFile.Path (Style)

namespace Path.Style

theorem normalize_ne_nil (st : Style) (p : Text) : st.normalize p ≠ [] := by
  rw [normalize_eq_written, written]
  split_ifs with h
  · simp [here]
  · intro hnil
    rw [List.append_eq_nil_iff] at hnil
    exact h ⟨hnil.1, Text.join_eq_nil (fun _ hc => ne_nil_of_mem_kept hc) hnil.2⟩

/-- **Joined paths are not empty.** -/
theorem join_ne_nil (st : Style) (segments : List Text) : st.join segments ≠ [] := by
  rw [join]
  split
  · simp [here]
  · exact normalize_ne_nil st _

end Path.Style

/-- A refusal that belongs to the library's own family and is about a path or a part of one. -/
def Fault.IsNaming (e : Fault) : Prop := e.kind.isFileError = true ∧ e.kind ≠ .invalidOptions

namespace Naming

/-- **What a write joins**, a directory and a name, or why it is refused. -/
def Write.target (st : Style) (p : Option Text) : Write → Except Fault (Text × Text)
  | .directory d =>
    if (p.map st.name).getD [] = [] then .error (.noName .dirname)
    else .ok (d.getD [], (p.map st.name).getD [])
  | .basename b =>
    if b = [] then .error (.emptyPart .basename)
    else if st.sep ∈ b then .error (.partIsPath .basename st.sep)
    else .ok ((p.map st.parent).getD [], b)
  | .stem t =>
    if t = [] then .error (.emptyPart .stem)
    else if st.sep ∈ t then .error (.partIsPath .stem st.sep)
    else if (p.map st.name).getD [] = [] then .error (.noName .stem)
    else .ok ((p.map st.parent).getD [], t ++ (p.map st.extension).getD [])
  | .extension e =>
    if st.sep ∈ e then .error (.partIsPath .extname st.sep)
    else match p with
      | none => .error .noPath
      | some p =>
        if e ≠ [] ∧ e.head? ≠ some '.' then .error .noDot
        else if '.' ∈ e.tail then .error .manyDots
        else .ok (st.parent p, st.nameWithout p (st.extension p) ++ e)

/-- **Writes are refused by faults of the family.** -/
theorem Write.target_error {st : Style} {p : Option Text} {w : Write} {e : Fault}
    (h : w.target st p = .error e) : e.IsNaming := by
  have hnaming : ∀ e' : Fault, e'.IsNaming → (.error e' : Except Fault (Text × Text)) = .error e →
      e.IsNaming := fun e' he' heq => Except.error.inj heq ▸ he'
  cases w with
  | directory d =>
    rw [target] at h
    split_ifs at h
    exact hnaming _ ⟨rfl, by decide⟩ h
  | basename b =>
    rw [target] at h
    split_ifs at h
    · exact hnaming _ ⟨rfl, by decide⟩ h
    · exact hnaming _ ⟨rfl, by simp [Fault.kind]⟩ h
  | stem t =>
    rw [target] at h
    split_ifs at h
    · exact hnaming _ ⟨rfl, by decide⟩ h
    · exact hnaming _ ⟨rfl, by simp [Fault.kind]⟩ h
    · exact hnaming _ ⟨rfl, by decide⟩ h
  | extension t =>
    cases p with
    | none =>
      rw [target] at h
      split_ifs at h
      · exact hnaming _ ⟨rfl, by simp [Fault.kind]⟩ h
      · exact hnaming _ ⟨rfl, by decide⟩ h
    | some p =>
      rw [target] at h
      split_ifs at h
      · exact hnaming _ ⟨rfl, by simp [Fault.kind]⟩ h
      · exact hnaming _ ⟨rfl, by decide⟩ h
      · exact hnaming _ ⟨rfl, by decide⟩ h

/-- The name that a write composes beside a path. -/
def Write.composed (st : Style) (p : Text) : Write → Text
  | .directory _ => st.name p
  | .basename b => b
  | .stem t => t ++ st.extension p
  | .extension e => st.nameWithout p (st.extension p) ++ e

/-- The part of a name that is written. -/
def Write.part? : Write → Option Text
  | .directory _ => none
  | .stem t | .extension t | .basename t => some t

section Accepted
variable {st : Style} {p d x : Text} {w : Write}

theorem sep_not_mem_name (st : Style) (p : Text) : st.sep ∉ st.name p := fun h => by
  have := Path.no_sep_name st p st.sep h
  simp at this

/-- **A write that is accepted** joins the name that it composes, which does not hold the separator
that the style writes, and to the directory of the path unless it writes the directory. -/
theorem Write.target_eq_ok (h : w.target st (some p) = .ok (d, x)) : x = w.composed st p ∧
    st.sep ∉ x ∧ (st.name p ≠ [] → x ≠ []) ∧ ∀ t, w.part? = some t → d = st.parent p := by
  have hname := sep_not_mem_name st p
  have hext : st.sep ∉ st.extension p := fun hc => hname (Style.mem_name_of_mem_extension hc)
  have hstem : st.sep ∉ st.nameWithout p (st.extension p) := fun hc =>
    hname (Style.mem_name_of_mem_nameWithout hc)
  cases w with
  | directory d' =>
    rw [target] at h
    split_ifs at h
    obtain ⟨-, rfl⟩ := Prod.mk.inj (Except.ok.inj h)
    exact ⟨rfl, hname, id, by simp [part?]⟩
  | basename b =>
    rw [target] at h
    split_ifs at h with hb hsep
    obtain ⟨rfl, rfl⟩ := Prod.mk.inj (Except.ok.inj h)
    exact ⟨rfl, hsep, fun _ => hb, fun _ _ => rfl⟩
  | stem t =>
    rw [target] at h
    split_ifs at h with ht hsep
    obtain ⟨rfl, rfl⟩ := Prod.mk.inj (Except.ok.inj h)
    exact ⟨rfl, by simpa using ⟨hsep, hext⟩, by simp [ht], fun _ _ => rfl⟩
  | extension e =>
    rw [target] at h
    split_ifs at h with hsep
    obtain ⟨rfl, rfl⟩ := Prod.mk.inj (Except.ok.inj h)
    exact ⟨rfl, by simpa using ⟨hstem, hsep⟩,
      fun hne => by simp [Style.nameWithout_eq_nil, hne], fun _ _ => rfl⟩

end Accepted

/-! ### Results -/

section Results
variable {α β : Type} (e : Fault) (x : α)

@[simp] theorem throw_eq_error : (throw e : Except Fault α) = .error e := rfl

@[simp] theorem error_bind (f : α → Except Fault β) : (.error e >>= f) = .error e := rfl

@[simp] theorem ok_bind (f : α → Except Fault β) : (.ok x >>= f) = f x := rfl

@[simp] theorem map_error (f : α → β) : Except.map f (.error e : Except Fault α) = .error e := rfl

@[simp] theorem map_ok (f : α → β) : Except.map f (.ok x : Except Fault α) = .ok (f x) := rfl

end Results

/-! ### The setters -/

section Set
variable (s : Store) {n : Naming} {p : Option Text}

theorem facet_ofText? (hp : n.path = .ofText? p) (read : Text → Text) :
    n.facet s read = .ok (p.map read) := by
  rw [facet, hp]
  cases p <;> rfl

theorem setJoined_eq (n : Naming) (segments : List Text) :
    n.setJoined s segments = .ok (n.rename (n.style.join segments)) :=
  setPath_text s n (n.style.join_ne_nil segments)

theorem checkPart_ofText {sep : Char} {facet : Facet} {t : Text} (ht : t ≠ []) :
    s.checkPart sep facet (.text t) =
      if sep ∈ t then .error (.partIsPath facet sep) else .ok () := by
  simp [Store.checkPart, ht]

theorem checkExtension_ofText (e : Text) : checkExtension s (.text e) =
    if e ≠ [] ∧ e.head? ≠ some '.' then .error .noDot
    else if '.' ∈ e.tail then .error .manyDots else .ok e := by
  rcases e with _ | ⟨c, t⟩
  · simp [checkExtension]
  · by_cases hc : c = '.'
    · subst hc
      by_cases ht : '.' ∈ t <;> simp [checkExtension, ht]
    · simp [checkExtension, hc]

/-- **A setter that is given a text** joins its target or is refused. -/
theorem set_text (hp : n.path = .ofText? p) (w : Write) : n.set s w.call.1 w.call.2 =
    (w.target n.style p).map fun x => n.rename (n.style.join [x.1, x.2]) := by
  have hfacet := facet_ofText? s hp
  cases w with
  | directory d =>
    change n.setDirectory s (.ofText? d) = _
    rw [setDirectory, basename, hfacet, Write.target]
    by_cases hname : (p.map n.style.name).getD [] = []
    · simp [hname]
    · rcases d with _ | _ | ⟨c, t⟩ <;>
        simp [hname, Value.ofText?, Store.truthy, setJoined_eq, join_nil_cons]
  | basename b =>
    change n.setBasename s (.text b) = _
    rw [setBasename, directory, hfacet, Write.target]
    by_cases hb : b = []
    · simp [hb]
    · rw [checkPart_ofText s hb]
      by_cases hsep : n.style.sep ∈ b <;> simp [hb, hsep, Store.textOnly, setJoined_eq]
  | stem t =>
    change n.setStem s (.text t) = _
    rw [setStem, basename, directory, extension, hfacet, hfacet, hfacet, Write.target]
    by_cases ht : t = []
    · simp [ht]
    · rw [checkPart_ofText s ht]
      by_cases hsep : n.style.sep ∈ t
      · simp [ht, hsep]
      · by_cases hname : (p.map n.style.name).getD [] = [] <;>
          simp [ht, hsep, hname, Store.textOnly, setJoined_eq]
  | extension e =>
    change n.setExtension s (.text e) = _
    rw [setExtension, directory, stem, hfacet, hfacet, checkExtension_ofText, Write.target.eq_def]
    by_cases hsep : n.style.sep ∈ e
    · have he : e ≠ [] := List.ne_nil_of_mem hsep
      simp [checkPart_ofText s he, hsep]
    · rw [Store.checkPart_text s hsep]
      cases p with
      | none => simp [hsep]
      | some p =>
        simp only [hsep, ok_bind, Option.map_some, Option.getD_some, if_false]
        split_ifs <;> simp [setJoined_eq]

end Set

/-! ### Facets after renaming -/

theorem directory_rename (s : Store) (n : Naming) (q : Text) :
    (n.rename q).1.directory s = .ok (some (n.style.parent q)) := by
  rw [directory, style_rename, facet_text s (path_rename n q)]

theorem basename_rename (s : Store) (n : Naming) (q : Text) :
    (n.rename q).1.basename s = .ok (some (n.style.name q)) := by
  rw [basename, style_rename, facet_text s (path_rename n q)]

theorem stem_rename (s : Store) (n : Naming) (q : Text) :
    (n.rename q).1.stem s = .ok (some (n.style.nameWithout q (n.style.extension q))) := by
  rw [stem, style_rename, facet_text s (path_rename n q)]

theorem extension_rename (s : Store) (n : Naming) (q : Text) :
    (n.rename q).1.extension s = .ok (some (n.style.extension q)) := by
  rw [extension, style_rename, facet_text s (path_rename n q)]

end Naming

end VirtualFile
