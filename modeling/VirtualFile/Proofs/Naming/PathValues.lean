import VirtualFile.Proofs.Naming.Targets
import VirtualFile.Proofs.World.Success
/-!
# Values that a path is read from

A path can be set to anything. If what looks like a URL has texts for its parts, then the
path is set or refused by a fault of the family, unless the value stands for a path and
gives neither a text nor bytes (`Naming.setPath_readable`). Cells that are added before
that make no difference (`Naming.setPath_extend`).

* `Store.Readable`: values of which the parts can be read.
* `Store.Misdirected`: stand-ins for paths that give no path.
-/

namespace VirtualFile
open VirtualFile.Path (Style)

namespace Store

/-- The attributes of a URL that say where its file is. -/
def urlAttributes : List String := ["scheme", "host", "hostname", "path"]

/-- **A value of which the parts can be read.** If it refers to a cell, the cell is there, and so is
the dictionary of further keys of a record of options. -/
structure Readable (s : Store) (v : Value) : Prop where
  cell : ∀ r, v = .ref r → (s.cell? v).isSome
  extra : ∀ o, s.options? v = some o → (s.dict? o.extra).isSome
  /-- What looks like a URL has texts for its parts, or nothing. -/
  url : s.isUrl v = true →
    ∀ name ∈ urlAttributes, ∃ t, (s.attribute? v name).getD .null = .ofText? t

/-- **An object that stands for a path but gives none**: no URL, and
its target is neither a text nor bytes. -/
def Misdirected (s : Store) (v : Value) : Prop :=
  s.isUrl v = false ∧ ∃ target fields, s.cell? v = some (.pathLike target fields) ∧
    (∀ t, target ≠ .text t) ∧ ∀ bs, target ≠ .bytes bs

variable {s s' : Store} {v : Value}

/-! ### Cells that are added -/

/-- The cell that a value refers to is there, if it refers to one. -/
def Live (s : Store) (v : Value) : Prop := ∀ r, v = .ref r → (s.cell? v).isSome

theorem Live.cell?_extend (hv : s.Live v) (hle : s.Extends s') : s'.cell? v = s.cell? v := by
  cases v with
  | ref r =>
    obtain ⟨c, hc⟩ := Option.isSome_iff_exists.mp (hv r rfl)
    rw [hc, hle _ _ hc]
  | _ => rfl

theorem Live.extend (hv : s.Live v) (hle : s.Extends s') : s'.Live v := fun r hr => by
  rw [hv.cell?_extend hle]
  exact hv r hr

theorem Live.truthy_extend (hv : s.Live v) (hle : s.Extends s') : s'.truthy v = s.truthy v := by
  cases v with
  | ref r => simp only [truthy, hv.cell?_extend hle]
  | _ => rfl

section Extend
variable (hv : s.Readable v) (hle : s.Extends s')
include hv hle

theorem cell?_extend : s'.cell? v = s.cell? v := Live.cell?_extend hv.cell hle

theorem attribute?_extend (name : String) : s'.attribute? v name = s.attribute? v name := by
  have hcell := cell?_extend hv hle
  cases v with
  | ref r =>
    obtain ⟨c, hc⟩ := Option.isSome_iff_exists.mp (hv.cell r rfl)
    rw [hc] at hcell
    simp only [attribute?, hcell, hc]
    cases c with
    | options o =>
      obtain ⟨es, hes⟩ := Option.isSome_iff_exists.mp (hv.extra o (options?_eq_some.mpr hc))
      simp only [hes, hle.dict? hes]
    | _ => rfl
  | _ => rfl

theorem isUrl_extend : s'.isUrl v = s.isUrl v := by
  simp only [isUrl, hasAttribute, attribute?_extend hv hle]

end Extend

theorem Readable.extend (hv : s.Readable v) (hle : s.Extends s') : s'.Readable v := by
  have hcell := cell?_extend hv hle
  refine ⟨fun r hr => ?_, fun o ho => ?_, fun hurl name hname => ?_⟩
  · rw [hcell]
    exact hv.cell r hr
  · rw [options?, hcell] at ho
    obtain ⟨es, hes⟩ := Option.isSome_iff_exists.mp (hv.extra o ho)
    rw [hle.dict? hes]
    rfl
  · rw [isUrl_extend hv hle] at hurl
    rw [attribute?_extend hv hle]
    exact hv.url hurl name hname

/-! ### URLs -/

theorem nonemptyAttribute?_text {name : String} {t : Option Text}
    (h : (s.attribute? v name).getD .null = .ofText? t) :
    s.nonemptyAttribute? v name = (t.filter (· != [])).map .text := by
  rw [nonemptyAttribute?]
  cases ha : s.attribute? v name with
  | none =>
    rw [ha] at h
    cases t with
    | none => rfl
    | some t => exact absurd h (by simp [Value.ofText?])
  | some a =>
    rw [ha, Option.getD_some] at h
    rw [h]
    cases t with
    | none => simp [Value.ofText?, truthy]
    | some t => by_cases ht : t = [] <;> simp [Value.ofText?, Option.filter, ht]

theorem urlPath_texts (st : Style) (hv : s.Readable v) (hurl : s.isUrl v = true) :
    (∃ p, s.urlPath st v = .ok p) ∨ ∃ f, s.urlPath st v = .error (.url f) := by
  have htext := hv.url hurl
  simp only [urlAttributes, List.forall_mem_cons] at htext
  obtain ⟨-, ⟨host, hhost⟩, ⟨hostname, hhostname⟩, ⟨path, hpath⟩, -⟩ := htext
  have hhost' : ∃ t, s.urlHost v = .text t := by
    rw [urlHost, nonemptyAttribute?_text hhost, nonemptyAttribute?_text hhostname]
    cases host.filter (· != []) <;> cases hostname.filter (· != []) <;> exact ⟨_, rfl⟩
  have hpath' : ∃ t, (s.nonemptyAttribute? v "path").getD (.text []) = .text t := by
    rw [nonemptyAttribute?_text hpath]
    cases path.filter (· != []) <;> exact ⟨_, rfl⟩
  obtain ⟨t, ht⟩ := hhost'
  obtain ⟨q, hq⟩ := hpath'
  rw [urlPath]
  split_ifs
  · exact .inr ⟨_, rfl⟩
  · simp only [ht, hq]
    cases Url.filePath st t q with
    | ok p => exact .inl ⟨p, rfl⟩
    | error f => exact .inr ⟨f, rfl⟩

/-- The path of a URL depends on its attributes alone, and on the cells that they refer to. -/
theorem urlPath_congr {st : Style} (hattr : ∀ name, s'.attribute? v name = s.attribute? v name)
    (hlive : ∀ name ∈ urlAttributes, ∀ x, s.attribute? v name = some x → s.Live x)
    (hle : s.Extends s') : s'.urlPath st v = s.urlPath st v := by
  have hnonempty : ∀ name ∈ urlAttributes,
      s'.nonemptyAttribute? v name = s.nonemptyAttribute? v name := by
    intro name hname
    rw [nonemptyAttribute?, nonemptyAttribute?, hattr]
    cases h : s.attribute? v name with
    | none => rfl
    | some x => simp only [Option.filter, (hlive name hname x h).truthy_extend hle]
  simp only [urlAttributes, List.forall_mem_cons] at hnonempty
  obtain ⟨-, hhost, hhostname, hpath, -⟩ := hnonempty
  simp only [urlPath, urlHost, hattr, hhost, hhostname, hpath]

theorem urlPath_extend {st : Style} (hv : s.Readable v) (hle : s.Extends s')
    (hurl : s.isUrl v = true) : s'.urlPath st v = s.urlPath st v := by
  refine urlPath_congr (attribute?_extend hv hle) (fun name hname x hx r hr => ?_) hle
  -- a text is no cell
  obtain ⟨t, ht⟩ := hv.url hurl name hname
  rw [hx, Option.getD_some, hr] at ht
  cases t <;> exact absurd ht (by simp [Value.ofText?])

/-! ### What a path is read from -/

/-- What a path is read from. Only a misdirected stand-in is mistyped. -/
theorem pathSource_readable (st : Style) (hv : s.Readable v) :
    (∃ source, s.pathSource st v = .ok source) ∨ (∃ f, s.pathSource st v = .error (.url f)) ∨
      s.pathSource st v = .error .mistyped ∧ s.Misdirected v := by
  rw [pathSource]
  split_ifs with hurl
  · obtain ⟨p, hp⟩ | ⟨f, hf⟩ := urlPath_texts st hv hurl
    · exact .inl ⟨.text p, by rw [hp]; rfl⟩
    · exact .inr (.inl ⟨f, by rw [hf]; rfl⟩)
  · split
    · next target fields hc =>
      split
      · exact .inl ⟨_, rfl⟩
      · exact .inl ⟨_, rfl⟩
      · next htext hbytes =>
        exact .inr (.inr ⟨rfl, Bool.eq_false_iff.mpr hurl, target, fields, hc, htext, hbytes⟩)
    · exact .inl ⟨v, rfl⟩

theorem pathSource_misdirected (st : Style) (h : s.Misdirected v) :
    s.pathSource st v = .error .mistyped := by
  obtain ⟨hurl, target, fields, hc, htext, hbytes⟩ := h
  rw [pathSource, hurl, hc]
  cases target with
  | text t => exact absurd rfl (htext t)
  | bytes bs => exact absurd rfl (hbytes bs)
  | _ => rfl

theorem pathSource_extend {st : Style} (hv : s.Readable v) (hle : s.Extends s') :
    s'.pathSource st v = s.pathSource st v := by
  rw [pathSource, pathSource, isUrl_extend hv hle, cell?_extend hv hle]
  split_ifs with hurl
  · rw [urlPath_extend hv hle hurl]
  · rfl

theorem pathSource_eq_ok {st : Style} (hv : s.Readable v) {source : Value}
    (h : s.pathSource st v = .ok source) :
    (∃ p, source = .text p) ∨ (∃ bs, source = .bytes bs) ∨ source = v := by
  rw [pathSource] at h
  split_ifs at h with hurl
  · obtain ⟨p, hp⟩ | ⟨f, hf⟩ := urlPath_texts st hv hurl
    · rw [hp] at h
      exact .inl ⟨p, (Except.ok.inj h).symm⟩
    · rw [hf] at h
      exact absurd h (by simp [Except.map])
  · split at h
    · split at h
      · exact .inl ⟨_, (Except.ok.inj h).symm⟩
      · exact .inr (.inl ⟨_, (Except.ok.inj h).symm⟩)
      · exact absurd h (by simp)
    · exact .inr (.inr (Except.ok.inj h).symm)

end Store

/-! ### Setting the path -/

/-- **The path is set to a URL** if there is a path in it, and refused otherwise. -/
theorem Naming.setPath_url {s : Store} {v : Value} (n : Naming) (hurl : s.isUrl v = true) :
    (∃ p, p ≠ [] ∧ s.urlPath n.style v = .ok p ∧ n.setPath s v = .ok (n.rename p)) ∨
      (∀ p, p ≠ [] → s.urlPath n.style v ≠ .ok p) ∧ ∃ e, n.setPath s v = .error e := by
  rw [setPath, Store.pathSource, if_pos hurl]
  cases s.urlPath n.style v with
  | error e => exact .inr ⟨by simp, e, rfl⟩
  | ok p =>
    by_cases hp : p = []
    · subst hp
      exact .inr ⟨fun q hq h => hq (Except.ok.inj h).symm, .emptyPath, rfl⟩
    · exact .inl ⟨p, hp, rfl, by simp [hp, Except.map, bind, Except.bind, pure, Except.pure]⟩

namespace Naming
variable {s s' : Store} {v : Value} (n : Naming) (hv : s.Readable v)
include hv

/-- **The path is set or refused**, by a fault of the family unless the value is misdirected. -/
theorem setPath_readable :
    (∃ p, n.setPath s v = .ok (n.rename p)) ∨
      ∃ e, n.setPath s v = .error e ∧ (e.IsNaming ∨ e = .mistyped ∧ s.Misdirected v) := by
  rw [setPath]
  obtain ⟨source, hsource⟩ | ⟨f, hf⟩ | ⟨hmistyped, h⟩ := Store.pathSource_readable n.style hv
  · rw [hsource]
    by_cases htrue : s.truthy source = true
    · simp only [htrue, bind, Except.bind, Bool.not_true, Bool.false_eq_true, if_false]
      split
      · exact .inl ⟨_, rfl⟩
      · exact .inr ⟨_, rfl, .inl ⟨rfl, by simp [Fault.kind]⟩⟩
    · exact .inr ⟨.emptyPath, by simp [htrue], .inl ⟨rfl, by decide⟩⟩
  · rw [hf]
    exact .inr ⟨.url f, rfl, .inl ⟨rfl, by simp [Fault.kind]⟩⟩
  · rw [hmistyped]
    exact .inr ⟨.mistyped, rfl, .inr ⟨rfl, h⟩⟩

/-- **Cells that are added make no difference** to it. -/
theorem setPath_extend (hle : s.Extends s') : n.setPath s' v = n.setPath s v := by
  rw [setPath, setPath, Store.pathSource_extend hv hle]
  cases hsource : s.pathSource n.style v with
  | error e => rfl
  | ok source =>
    have hsame : s'.truthy source = s.truthy source ∧ s'.kindName source = s.kindName source := by
      obtain ⟨p, rfl⟩ | ⟨bs, rfl⟩ | rfl := Store.pathSource_eq_ok hv hsource
      · exact ⟨rfl, rfl⟩
      · exact ⟨rfl, rfl⟩
      · have hcell := Store.cell?_extend hv hle
        cases source with
        | ref r => simp only [Store.truthy, Store.kindName, hcell, and_self]
        | _ => exact ⟨rfl, rfl⟩
    simp only [bind, Except.bind, hsame.1]
    cases source with
    | text p => rfl
    | _ => simp only [hsame.2]

omit hv in
theorem setPath_misdirected (h : s.Misdirected v) : n.setPath s v = .error .mistyped := by
  rw [setPath, Store.pathSource_misdirected n.style h]
  rfl

end Naming

end VirtualFile
