import VirtualFile.Proofs.File.Report
/-!
# Names of records

A record of a warning or a notice is named after the current path of its file and its place. The
name tells both, though it is put together without escapes (`Message.name_unambiguous`): whatever
colons and dashes the path has, the place is read off the end.

* `isLabel_rendered`: what is shown of a place is a point or a range.
* `Message.NamedFor`: a record with the name for a path and a place.
* `Action.ends_warn_named`, `Action.ends_inform_named`: every record that a report returns.
-/

namespace VirtualFile

/-- **A place is shown as a point or as a range**, as the first point
if there is nothing to show. -/
theorem isLabel_rendered {label : Text} (h : label = [] ∨ IsLabel label) :
    IsLabel (rendered label) := by
  obtain rfl | h := h
  · exact .point {}
  · rw [rendered, if_neg h.ne_nil]
    exact h

/-- **A record is named** for a path and a place, and its file is the path. -/
def Message.NamedFor (s : Store) (place : Value) (m : Message) : Prop :=
  ∃ path label, s.describe place = .ok label ∧ m.name = .text (recordName path (rendered label)) ∧
    m.file = .text (path.getD [])

namespace Action
variable {w : World} {v : Value} {f : File}

theorem ends_push {record : Value} {m : Message} (h : w.store.message? record = some m)
    (target x : Value) :
    (push target x).Ends w (fun _ w' => w'.store.message? record = some m) fun _ _ => True := by
  have hm := Store.message?_eq_some.mp h
  obtain ⟨q, rfl⟩ := Store.exists_ref hm
  -- the record is not what is written to
  have hwrite : ∀ {r : Ref} {c d : Cell}, w.store.cell? (.ref r) = some c → (∀ m, c ≠ .message m) →
      (write r d).Ends w (fun _ w' => w'.store.message? (.ref q) = some m) fun _ _ => True := by
    intro r c d hc hne
    have hrq : r ≠ q := by
      rintro rfl
      exact hne m (Option.some.inj (hc.symm.trans hm))
    have hkept : (w.store.write r d).cell? (.ref q) = some (.message m) :=
      (Store.cell?_write_of_ne _ _ hrq).trans hm
    exact Returns.ends ⟨(), _, outcome_write r d w, Store.message?_eq_some.mpr hkept⟩
  rw [push]
  refine ends_store_bind ?_
  split
  · next r vs hc => exact hwrite hc (by simp)
  · next r bs hc =>
    split
    · split_ifs
      · exact hwrite hc (by simp)
      · exact ends_throw trivial
    · exact ends_throw trivial
  · exact ends_throw trivial

theorem ends_recorded (messages : Value) (m : Message) (w : World) : (do
      let record ← alloc (.message m)
      push messages record
      note (.recorded (← shown m.name) (← shown m.reason))
      return record).Ends w (fun record w' => w'.store.message? record = some m)
      fun _ _ => True := by
  refine (succeeds_alloc (.message m) w).ends.bind fun record w₁ ⟨_, hrecord⟩ => ?_
  refine (ends_push (Store.message?_eq_some.mpr hrecord) messages record).bind fun _ w₂ h₂ => ?_
  have htrue : ∀ w' : World, w'.store = w₂.store → True := fun _ _ => trivial
  refine (fixes_shown _).ends_bind rfl htrue fun name w₃ hw₃ => ?_
  refine (fixes_shown _).ends_bind hw₃ htrue fun reason w₄ hw₄ => ?_
  exact (fixes_note _).ends_bind hw₄ htrue fun _ w₅ hw₅ => ends_pure (hw₅ ▸ h₂)

/-- **A warning on a file with a path** returns a record that is named for it, if it returns. -/
theorem ends_warn_named {path : Option Text} (hf : w.store.file? v = some f)
    (hpath : f.path = .ofText? path) (reason place origin : Value) :
    (warn v reason place origin).Ends w
      (fun record w' => ∃ m, w'.store.message? record = some m ∧ m.NamedFor w.store place)
      fun _ _ => True := by
  obtain ⟨r, rfl⟩ := Store.exists_ref (Store.cell?_eq_of_file? hf)
  rw [warn]
  refine ends_bind_same (outcome_file hf) ?_
  dsimp only
  refine (consults_checkOperation f "message").reads.fixes.ends_bind rfl (fun _ _ => trivial)
    fun _ w₁ hw₁ => ?_
  refine (ends_newMessage .null reason place origin w₁).forget.bind
    fun m w₂ hdrafted => ?_
  obtain ⟨-, hm⟩ := hdrafted
  rw [hw₁] at hm
  obtain ⟨label, hlabel, hname⟩ := hm.name
  cases hn : f.naming with
  | none => exact ends_throw trivial
  | some n =>
    rw [File.path, hn] at hpath
    have hpath : n.path = .ofText? path := hpath
    have hrecord : ∀ {m' : Message} {w' : World}, m'.NamedFor w.store place → (do
        let record ← alloc (.message m')
        push f.messages record
        note (.recorded (← shown m'.name) (← shown m'.reason))
        return record).Ends w'
        (fun record w' => ∃ m, w'.store.message? record = some m ∧ m.NamedFor w.store place)
        fun _ _ => True :=
      fun hnamed => (ends_recorded _ _ _).mono (fun _ _ h => ⟨_, h, hnamed⟩) fun _ _ h => h
    dsimp only
    refine ends_store_bind ?_
    split_ifs with htruthy
    · rw [hpath] at htruthy ⊢
      cases path with
      | none => exact absurd htruthy (by simp [Value.ofText?, Store.truthy])
      | some p =>
        refine ends_bind_same (outcome_shown_text p w₂) ?_
        rw [hname]
        refine ends_bind_same (outcome_shown_text _ w₂) (ends_bind_same (outcome_pure _ w₂) ?_)
        exact hrecord ⟨some p, label, hlabel, rfl, rfl⟩
    · exact ends_bind_same (outcome_pure _ w₂) (hrecord ⟨none, label, hlabel, hname, hm.file⟩)

theorem ends_setFatal {record : Value} {m : Message} (hm : w.store.message? record = some m)
    (fatal : Value) :
    (setFatal record fatal).Ends w (fun _ w' => w'.store.message? record = some { m with fatal })
      fun _ _ => True := by
  have hc := Store.message?_eq_some.mp hm
  obtain ⟨q, rfl⟩ := Store.exists_ref hc
  have hset := Store.message?_eq_some.mpr (Store.cell?_write_self (.message { m with fatal }) hc)
  exact Returns.ends ⟨(), _, outcome_setFatal hm fatal, hset⟩

/-- **A notice on a file with a path** returns a record that is named for it, if it returns. -/
theorem ends_inform_named {path : Option Text} (hf : w.store.file? v = some f)
    (hpath : f.path = .ofText? path) (reason place origin : Value) :
    (inform v reason place origin).Ends w
      (fun record w' => ∃ m, w'.store.message? record = some m ∧ m.NamedFor w.store place)
      fun _ _ => True := by
  obtain ⟨r, rfl⟩ := Store.exists_ref (Store.cell?_eq_of_file? hf)
  rw [inform]
  refine ends_bind_same (outcome_file hf) ?_
  dsimp only
  refine (consults_checkOperation f "info").reads.fixes.ends_bind rfl (fun _ _ => trivial)
    fun _ w₁ hw₁ => ?_
  rw [← hw₁] at hf ⊢
  refine (ends_warn_named hf hpath reason place origin).bind fun record w₂ hwarned => ?_
  obtain ⟨m, hm, hnamed⟩ := hwarned
  refine (ends_setFatal hm .null).bind fun _ w₃ hset => ?_
  exact ends_pure ⟨_, hset, hnamed⟩

end Action

namespace Message
variable {m : Message} {w : World} {path : Option Text} {place : Value}

/-- **A record of a warning or a notice** on a file, whose path is a text or missing, about a place
that does not go in a circle and does not lead to a range with other ends than points. -/
structure Recorded (m : Message) (w : World) (path : Option Text) (place : Value) : Prop where
  acyclic : w.store.Acyclic place
  points : ∀ a b, w.store.LeadsTo place (.position a b) → a.isPoint ∧ b.isPoint
  made : ∃ v f reason origin record w', w.store.file? v = some f ∧ f.path = .ofText? path ∧
    ((Action.warn v reason place origin).outcome w = (.ok record, w') ∨
      (Action.inform v reason place origin).outcome w = (.ok record, w')) ∧
      w'.store.message? record = some m

theorem Recorded.namedFor (h : m.Recorded w path place) : m.NamedFor w.store place := by
  obtain ⟨v, f, reason, origin, record, w', hf, hpath, hreport, hm⟩ := h.made
  obtain ⟨m', hm', hnamed⟩ : ∃ m', w'.store.message? record = some m' ∧
    m'.NamedFor w.store place := by
    obtain hwarn | hinform := hreport
    · exact (Action.ends_warn_named hf hpath reason place origin).of_ok hwarn
    · exact (Action.ends_inform_named hf hpath reason place origin).of_ok hinform
  obtain rfl := Option.some.inj (hm.symm.trans hm')
  exact hnamed

theorem Recorded.exists_isLabel (h : m.Recorded w path place) :
    ∃ label, w.store.describe place = .ok label ∧ IsLabel (rendered label) := by
  obtain ⟨x, hx⟩ := h.acyclic.exists_innermost
  obtain ⟨label, hlabel, hagree⟩ :=
    Store.agree_innermost hx.2 fun a b hab => h.points a b (hab ▸ hx.1)
  exact ⟨label, hx.describe_eq.trans hlabel, isLabel_rendered hagree.shown⟩

/-- **Names of records are unambiguous**: records with one name are on files with one path, or both
on files without one, and about places that are shown alike. -/
theorem name_unambiguous {m₁ m₂ : Message} {w₁ w₂ : World} {path₁ path₂ : Option Text}
    {place₁ place₂ : Value} (h₁ : m₁.Recorded w₁ path₁ place₁) (h₂ : m₂.Recorded w₂ path₂ place₂)
    (hname : m₁.name = m₂.name) :
    m₁.file = m₂.file ∧ ∃ t, (w₁.store.describe place₁).map rendered = .ok t ∧
      (w₂.store.describe place₂).map rendered = .ok t := by
  obtain ⟨label₁, hlabel₁, hshown₁⟩ := h₁.exists_isLabel
  obtain ⟨label₂, hlabel₂, hshown₂⟩ := h₂.exists_isLabel
  obtain ⟨p, label, hlabel, hname₁, hfile₁⟩ := h₁.namedFor
  obtain rfl := Except.ok.inj (hlabel₁.symm.trans hlabel)
  obtain ⟨q, label, hlabel, hname₂, hfile₂⟩ := h₂.namedFor
  obtain rfl := Except.ok.inj (hlabel₂.symm.trans hlabel)
  rw [hname₁, hname₂, Value.text.injEq] at hname
  obtain ⟨rfl, hplace⟩ := recordName_inj hshown₁ hshown₂ hname
  refine ⟨hfile₁.trans hfile₂.symm, rendered label₁, ?_, ?_⟩
  · rw [hlabel₁]
    rfl
  · rw [hlabel₂, hplace]
    rfl

/-- A file whose path reads like places. -/
def placelikeFile : File where
  naming := some ⟨.posix, [.ofString "1:2-3:4"]⟩
  cwd := .null
  value := .null
  data := .null
  messages := .ref 1
  stored := .bool false
  result := .null
  map := .null
  attributes := .null
  encoding := .null

/-- The world with this file, and with an object that has the dictionary of a point. -/
def placelike : World :=
  { store := { cells := #[.file placelikeFile, .list [], .object [("position", .ref 3)] [],
      .dict [(.ofString "line", .int 5), (.ofString "column", .int 6)]] } }

/-- A warning at a point, and a notice about an object that has the same one. -/
theorem name_unambiguous_placelike : ∃ m₁ m₂,
    Recorded m₁ placelike (some "1:2-3:4".toList) (.point (.int 5) (.int 6) .null) ∧
      Recorded m₂ placelike (some "1:2-3:4".toList) (.ref 2) ∧ m₁.name = m₂.name ∧
      m₁.name = .ofString "1:2-3:4:5:6" ∧ m₁.file = m₂.file := by
  have hpoint :
      placelike.store.Innermost (.point (.int 5) (.int 6) .null) (.point (.int 5) (.int 6) .null) :=
    ⟨.here _, rfl⟩
  have hobject : placelike.store.Innermost (.ref 2) (.ref 3) :=
    ⟨.inside (w := .ref 3) rfl (.here _), rfl⟩
  have h₁ : Recorded _ placelike (some "1:2-3:4".toList) (.point (.int 5) (.int 6) .null) :=
    ⟨hpoint.acyclic, fun a b h => absurd (hpoint.eq_of_leadsTo h rfl) (by simp),
      .ref 0, _, .ofString "odd", .null, .ref 4, _, rfl, rfl,
      .inl (Action.outcome_of_fst (by decide +kernel)), rfl⟩
  have h₂ : Recorded _ placelike (some "1:2-3:4".toList) (.ref 2) :=
    ⟨hobject.acyclic, fun a b h => absurd (hobject.eq_of_leadsTo h rfl) (by simp),
      .ref 0, _, .ofString "odd", .null, .ref 4, _, rfl, rfl,
      .inr (Action.outcome_of_fst (by decide +kernel)), rfl⟩
  exact ⟨_, _, h₁, h₂, rfl, rfl, (name_unambiguous h₁ h₂ rfl).1⟩

end Message

end VirtualFile
