import Mathlib.Tactic.SplitIfs
import VirtualFile.Maker
import VirtualFile.Proofs.World.Journal
/-!
# Texts that are read off the store

The text of a message comes from showing values and places. Showing can be refused and can
add warnings to the journal, but it changes nothing in the store, and what it shows is
told by the store alone (`Action.consults_shown`). So every value has a text in a store,
or a fault in its place (`Store.shownText`).

* `Action.Reads`: an action that only reads the store.
* `Action.Consults`: an action that only reads the store and adds at most warnings to the journal.
-/

namespace VirtualFile

namespace Action
variable {α β : Type}

/-! ### Actions that only read -/

/-- **An action that only reads the store**: what it returns, or why it is refused, is told by the
store, which stays as it is. -/
def Reads (a : Action α) : Prop :=
  ∀ w w', w.store = w'.store → (a.outcome w).1 = (a.outcome w').1 ∧ (a.outcome w).2.store = w.store

section Reads
variable {a b : Action α} {f : α → Action β}

theorem Reads.fixes (h : a.Reads) : a.Fixes World.store := fun w => (h w w rfl).2

theorem Reads.bind (ha : a.Reads) (hf : ∀ x, (f x).Reads) : (a >>= f).Reads := by
  intro w w' hw
  obtain ⟨hsame, hstore⟩ := ha w w' hw
  have hstore' := ha.fixes w'
  rw [outcome_bind, outcome_bind]
  rcases h : a.outcome w with ⟨e | x, w₁⟩
  all_goals rcases h' : a.outcome w' with ⟨e' | x', w₁'⟩
  all_goals
    rw [h, h'] at hsame
    rw [h] at hstore
    rw [h'] at hstore'
  · obtain rfl : e = e' := Except.error.inj hsame
    exact ⟨rfl, hstore⟩
  · exact absurd hsame (by simp)
  · exact absurd hsame (by simp)
  · obtain rfl := Except.ok.inj hsame
    obtain ⟨hsame₂, hstore₂⟩ := hf x w₁ w₁' (hstore.trans (hw.trans hstore'.symm))
    exact ⟨hsame₂, hstore₂.trans hstore⟩

end Reads

/-- **An action that consults the store**: it only reads it, and of
the journal it leaves all but warnings. -/
structure Consults (a : Action α) : Prop where
  reads : a.Reads
  warned : ∀ w : World, w.Warned (a.outcome w).2

section Consults
variable {a b : Action α} {f : α → Action β}

theorem Consults.bind (ha : a.Consults) (hf : ∀ x, (f x).Consults) : (a >>= f).Consults := by
  refine ⟨ha.reads.bind fun x => (hf x).reads, fun w => ?_⟩
  have hw := ha.warned w
  rw [outcome_bind]
  rcases h : a.outcome w with ⟨e | x, w₁⟩
  all_goals rw [h] at hw
  · exact hw
  · exact hw.trans ((hf x).warned w₁)

theorem consults_of_outcome (g : Store → Except Fault α) (h : ∀ w, a.outcome w = (g w.store, w)) :
    a.Consults := by
  refine ⟨fun w w' hw => ?_, fun w => ?_⟩
  · rw [h, h, hw]
    exact ⟨rfl, rfl⟩
  · rw [h]
    exact .refl w

theorem consults_pure (x : α) : (pure x : Action α).Consults :=
  consults_of_outcome (fun _ => .ok x) fun _ => rfl

theorem consults_throw (e : Fault) : (throw e : Action α).Consults :=
  consults_of_outcome (fun _ => .error e) fun _ => rfl

theorem consults_throw_bind (e : Fault) (f : α → Action β) :
    ((throw e : Action α) >>= f).Consults :=
  consults_of_outcome (fun _ => .error e) fun _ => rfl

theorem consults_store : store.Consults := consults_of_outcome .ok fun _ => rfl

theorem consults_ofStore (g : Store → Except Fault α) : (ofStore g).Consults :=
  consults_of_outcome g (outcome_ofStore g)

theorem consults_warning {e : Entry} (h : e.level = .warning) : (note e).Consults :=
  ⟨fun _ _ _ => ⟨rfl, rfl⟩, fun _ => ⟨[e], by simpa using h, rfl⟩⟩

theorem consults_cell? (v : Value) : (cell? v).Consults :=
  consults_store.bind fun _ => consults_pure _

theorem consults_file (v : Value) : (file v).Consults := by
  rw [file]
  refine consults_store.bind fun s => ?_
  split
  · exact consults_pure _
  · exact consults_throw _

end Consults

/-! ### Showing -/

section Shown
variable {shown : Value → Action Text} (hshown : ∀ v, (shown v).Consults)
include hshown

theorem consults_codecLabel (f : File) (encoding : Value) :
    (codecLabel shown f encoding).Consults := by
  rw [codecLabel]
  refine consults_store.bind fun s => ?_
  dsimp only
  generalize (if s.truthy encoding then encoding else f.encoding) = label
  have hreport : ∀ t path, (do
      note (.unknownEncoding t path (← shown f.encoding))
      return f.encoding : Action Value).Consults := fun t path =>
    (hshown _).bind fun _ => (consults_warning rfl).bind fun _ => consults_pure _
  split
  · split_ifs
    · exact consults_throw_bind _ _
    · split
      · exact consults_pure _
      · split
        · split_ifs
          · exact (hshown _).bind fun path => hreport _ path
          · exact (consults_pure _).bind fun path => hreport _ path
        · exact consults_throw _
  · exact consults_throw _

theorem consults_contentWith (f : File) (encoding : Value) :
    (contentWith shown f encoding).Consults := by
  rw [contentWith]
  dsimp only
  split_ifs
  · exact consults_throw_bind _ _
  · split
    · exact consults_pure _
    · exact consults_pure _
    · refine consults_store.bind fun s => ?_
      split
      · exact (consults_codecLabel hshown f encoding).bind fun label => consults_ofStore _
      · exact hshown _

theorem consults_systemHead (e : SystemError) : (systemHead shown e).Consults := by
  rw [systemHead]
  exact (hshown _).bind fun code => (hshown _).bind fun text => consults_pure _

theorem consults_systemText? (e : SystemError) : (systemText? shown e).Consults := by
  have hhead := consults_systemHead hshown e
  rw [systemText?]
  split
  · exact hhead.bind fun _ => (consults_ofStore _).bind fun _ => consults_pure _
  · exact hhead.bind fun _ => (consults_ofStore _).bind fun _ => (consults_ofStore _).bind fun _ =>
      consults_pure _
  · split_ifs
    · exact hhead.bind fun _ => consults_pure _
    · exact consults_pure _

theorem consults_failureText (f : Failure) : (failureText shown f).Consults := by
  rw [failureText]
  refine (consults_systemText? hshown _).bind fun t => ?_
  split
  · exact consults_pure _
  · refine (consults_ofStore _).bind fun args => ?_
    split
    · exact consults_pure _
    · exact consults_ofStore _
    · exact hshown _
    · exact consults_ofStore _

end Shown

/-- Showing a value only consults the store, by induction on the depth. -/
theorem consults_showTo (depth : Nat) (v : Value) : (showTo depth v).Consults := by
  induction depth generalizing v with
  | zero => exact consults_throw _
  | succ depth ih =>
    rw [showTo]
    refine (consults_cell? v).bind fun c => ?_
    split
    · exact consults_pure _
    · exact (ih _).bind fun name => (ih _).bind fun reason => consults_pure _
    · exact consults_contentWith ih _ _
    · exact consults_failureText ih _
    · exact consults_ofStore _

theorem consults_shown (v : Value) : (shown v).Consults := by
  rw [shown]
  exact consults_store.bind fun s => consults_showTo _ v

theorem outcome_shown_text (t : Text) (w : World) : (shown (.text t)).outcome w = (.ok t, w) := rfl

theorem fixes_shown (v : Value) : (shown v).Fixes World.store := (consults_shown v).reads.fixes

theorem consults_content (v encoding : Value) : (content v encoding).Consults := by
  rw [content]
  exact (consults_file v).bind fun _ => consults_contentWith consults_shown _ _

/-! ### Messages -/

theorem consults_newMessage (reason place origin : Value) :
    (newMessage reason place origin).Consults := by
  rw [newMessage]
  refine (consults_ofStore _).bind fun position => (consults_shown reason).bind fun text =>
    (consults_ofStore _).bind fun label => ?_
  cases position with
  | some p => exact (consults_ofStore _).bind fun _ => consults_store.bind fun _ => consults_pure _
  | none => exact (consults_pure _).bind fun _ => consults_store.bind fun _ => consults_pure _

theorem consults_checkOperation (f : File) (name : String) : (checkOperation f name).Consults := by
  rw [checkOperation]
  split_ifs
  · exact consults_throw _
  · exact consults_pure _

end Action

/-! ### The text of a value -/

/-- **The text of a value in a store**, or the fault for which it has none. -/
def Store.shownText (s : Store) (v : Value) : Except Fault Text :=
  ((Action.shown v).outcome { store := s }).1

namespace Action
variable {w : World} {v : Value}

theorem outcome_shown_fst (v : Value) (w : World) : ((shown v).outcome w).1 = w.store.shownText v :=
  ((consults_shown v).reads w { store := w.store } rfl).1

theorem returns_shown {t : Text} (h : w.store.shownText v = .ok t) :
    (shown v).Returns w fun x w' => x = t ∧ w.Warned w' :=
  ⟨t, _, outcome_of_fst ((outcome_shown_fst v w).trans h), rfl, (consults_shown v).warned w⟩

theorem ends_shown_bind {α : Type} {g : Text → Action α} {Q : α → World → Prop}
    {E : Fault → World → Prop} (v : Value)
    (herror : ∀ w' e, w.store.shownText v = .error e → w.Warned w' → E e w')
    (hok : ∀ w' t, w.store.shownText v = .ok t → w.Warned w' → (g t).Ends w' Q E) :
    (shown v >>= g).Ends w Q E := by
  have hsame := (consults_shown v).warned w
  have htext := outcome_shown_fst v w
  rw [Ends, outcome_bind]
  rcases h : (shown v).outcome w with ⟨e | t, w'⟩
  all_goals rw [h] at hsame htext
  · exact herror w' e htext.symm hsame
  · have hg := hok w' t htext.symm hsame
    rwa [Ends] at hg

end Action

theorem Store.shownText_text (s : Store) (t : Text) : s.shownText (.text t) = .ok t := rfl

end VirtualFile
