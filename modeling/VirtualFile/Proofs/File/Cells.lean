import VirtualFile.Proofs.World.Success
/-!
# The cells of a file

A file has four cells of its own: the file itself, its data, its messages and its attributes. What
can be read off it one level deep is its snapshot. The snapshot depends on these cells alone, so a
change that keeps them keeps the snapshot (`Store.HoldsFile.keep`).

* `Store.HoldsFile`, `File.cells`: a file and its cells.
* `Store.snapshot?`: the snapshot.
* `Store.Keeps`: a change that is confined to some cells.
-/

namespace VirtualFile

/-! ### Files with their contents -/

/-- The members of the list that a value refers to. -/
def Store.list? (s : Store) (v : Value) : Option (List Value) :=
  match s.cell? v with
  | some (.list vs) => some vs
  | _ => none

theorem Store.list?_eq_some {s : Store} {v : Value} {vs : List Value} :
    s.list? v = some vs ↔ s.cell? v = some (.list vs) := by
  rw [list?]
  split <;> simp_all

theorem Store.message?_eq_some {s : Store} {v : Value} {m : Message} :
    s.message? v = some m ↔ s.cell? v = some (.message m) := by
  rw [message?]
  split <;> simp_all

/-- **A value is a file** with these data, messages and attributes, the data and the attributes in
two different dictionaries. -/
structure Store.HoldsFile (s : Store) (v : Value) (f : File) (data : Entries)
    (messages : List Value) (attributes : Entries) : Prop where
  file : s.cell? v = some (.file f)
  data : s.dict? f.data = some data
  messages : s.cell? f.messages = some (.list messages)
  attributes : s.dict? f.attributes = some attributes
  apart : f.data ≠ f.attributes

/-- The cells that belong to a file. -/
def File.cells (v : Value) (f : File) : List Value := [v, f.data, f.messages, f.attributes]

/-- **A snapshot of a file**: its paths and its plain fields, and its
data, messages and attributes one level deep. -/
structure Snapshot where
  history : List Value
  cwd : Value
  value : Value
  data : Entries
  messages : List Value
  stored : Value
  result : Value
  map : Value
  attributes : Entries
  deriving DecidableEq, Repr

/-- The snapshot of the file that a value refers to. -/
def Store.snapshot? (s : Store) (v : Value) : Option Snapshot := do
  let f ← s.file? v
  let n ← f.naming
  return {
    history := n.history, cwd := f.cwd, value := f.value, data := ← s.dict? f.data,
    messages := ← s.list? f.messages, stored := f.stored, result := f.result, map := f.map,
    attributes := ← s.dict? f.attributes }

namespace Store
variable {s s' s'' : Store} {v : Value} {f : File} {data attributes : Entries}
  {messages : List Value}

theorem HoldsFile.snapshot {n : Naming} (h : s.HoldsFile v f data messages attributes)
    (hn : f.naming = some n) : s.snapshot? v = some {
      history := n.history, cwd := f.cwd, value := f.value, data, messages, stored := f.stored,
      result := f.result, map := f.map, attributes } := by
  simp [snapshot?, file?_of_cell? h.file, hn, h.data, list?_eq_some.mpr h.messages, h.attributes]

theorem HoldsFile.isSome_cell? (h : s.HoldsFile v f data messages attributes) {x : Value}
    (hx : x ∈ f.cells v) : (s.cell? x).isSome := by
  simp only [File.cells, List.mem_cons, List.not_mem_nil, or_false] at hx
  rcases hx with rfl | rfl | rfl | rfl
  · simp [h.file]
  · simp [dict?_eq_some.mp h.data]
  · simp [h.messages]
  · simp [dict?_eq_some.mp h.attributes]

theorem HoldsFile.ne_dict (h : s.HoldsFile v f data messages attributes) {u : Value} {es : Entries}
    (hu : s.dict? u = some es) : v ≠ u ∧ f.messages ≠ u := by
  have hc := dict?_eq_some.mp hu
  constructor
  · rintro rfl
    exact absurd h.file (by simp [hc])
  · rintro rfl
    exact absurd h.messages (by simp [hc])

theorem HoldsFile.ne_messages (h : s.HoldsFile v f data messages attributes) : v ≠ f.messages := by
  rintro rfl
  exact absurd h.file (by simp [h.messages])

theorem HoldsFile.not_mem_cells (h : s.HoldsFile v f data messages attributes) {u : Value}
    {m : Message} (hu : s.cell? u = some (.message m)) : u ∉ f.cells v := by
  have hdata := dict?_eq_some.mp h.data
  have hattributes := dict?_eq_some.mp h.attributes
  simp only [File.cells, List.mem_cons, List.not_mem_nil, or_false, not_or]
  refine ⟨?_, ?_, ?_, ?_⟩
  · rintro rfl
    exact absurd h.file (by simp [hu])
  · rintro rfl
    exact absurd hdata (by simp [hu])
  · rintro rfl
    exact absurd h.messages (by simp [hu])
  · rintro rfl
    exact absurd hattributes (by simp [hu])

/-! ### Changes to some cells -/

/-- **A change that is confined to some cells**: all others that were there stay as they are. -/
def Keeps (s s' : Store) (cs : List Value) : Prop :=
  ∀ v c, s.cell? v = some c → v ∉ cs → s'.cell? v = some c

variable {cs : List Value}

theorem Extends.keeps (h : s.Extends s') (cs : List Value) : s.Keeps s' cs :=
  fun v c hv _ => h v c hv

theorem Keeps.mono {cs' : List Value} (h : s.Keeps s' cs) (hcs : cs ⊆ cs') : s.Keeps s' cs' :=
  fun v c hv hmem => h v c hv fun hv' => hmem (hcs hv')

theorem Keeps.trans (h : s.Keeps s' cs) (h' : s'.Keeps s'' cs) : s.Keeps s'' cs :=
  fun v c hv hmem => h' v c (h v c hv hmem) hmem

theorem Keeps.write (h : s.Keeps s' cs) {r : Ref} (hr : .ref r ∈ cs ∨ s.cell? (.ref r) = none)
    (c : Cell) : s.Keeps (s'.write r c) cs := by
  intro v d hv hmem
  obtain ⟨q, rfl⟩ := exists_ref hv
  have hne : r ≠ q := by
    rintro rfl
    rcases hr with hr | hr
    · exact hmem hr
    · exact absurd hv (by simp [hr])
  rw [cell?_write_of_ne _ _ hne]
  exact h _ _ hv hmem

theorem keeps_write {r : Ref} (hr : .ref r ∈ cs) (c : Cell) : s.Keeps (s.write r c) cs :=
  ((Extends.refl s).keeps cs).write (.inl hr) c

theorem keeps_write_self (s : Store) (r : Ref) (c : Cell) : s.Keeps (s.write r c) [.ref r] :=
  keeps_write (List.mem_singleton_self _) c

theorem Extends.write (h : s.Extends s') {r : Ref} (hr : s.cell? (.ref r) = none) (c : Cell) :
    s.Extends (s'.write r c) :=
  fun v d hv => (h.keeps []).write (.inr hr) c v d hv (by simp)

/-- **What is kept with all its cells** stays the same file. -/
theorem HoldsFile.keep (h : s.HoldsFile v f data messages attributes) (hk : s.Keeps s' cs)
    (hcs : ∀ x ∈ f.cells v, x ∉ cs) : s'.HoldsFile v f data messages attributes := by
  simp only [File.cells, List.forall_mem_cons] at hcs
  obtain ⟨hv, hdata, hmessages, hattributes, -⟩ := hcs
  exact ⟨hk _ _ h.file hv, dict?_eq_some.mpr (hk _ _ (dict?_eq_some.mp h.data) hdata),
    hk _ _ h.messages hmessages,
    dict?_eq_some.mpr (hk _ _ (dict?_eq_some.mp h.attributes) hattributes), h.apart⟩

/-! ### Changing a cell of a file -/

section Write
variable (h : s.HoldsFile v f data messages attributes) {r : Ref}
include h

theorem HoldsFile.write_file (hr : v = .ref r) {f' : File} (hcells : f'.cells v = f.cells v) :
    (s.write r (.file f')).HoldsFile v f' data messages attributes := by
  obtain rfl := hr
  obtain ⟨hdata, hmessages, hattributes⟩ :
      f'.data = f.data ∧ f'.messages = f.messages ∧ f'.attributes = f.attributes := by
    simpa [File.cells] using hcells
  have hk := s.keeps_write_self r (.file f')
  refine ⟨cell?_write_self _ h.file, ?_, ?_, ?_, by rw [hdata, hattributes]; exact h.apart⟩
  · rw [hdata, dict?_eq_some]
    exact hk _ _ (dict?_eq_some.mp h.data) (by simpa using (h.ne_dict h.data).1.symm)
  · rw [hmessages]
    exact hk _ _ h.messages (by simpa using h.ne_messages.symm)
  · rw [hattributes, dict?_eq_some]
    exact hk _ _ (dict?_eq_some.mp h.attributes) (by simpa using (h.ne_dict h.attributes).1.symm)

theorem HoldsFile.write_messages (hr : f.messages = .ref r) (vs : List Value) :
    (s.write r (.list vs)).HoldsFile v f data vs attributes := by
  have hk := s.keeps_write_self r (.list vs)
  refine ⟨hk _ _ h.file (by simpa [hr] using h.ne_messages), ?_, ?_, ?_, h.apart⟩
  · exact dict?_eq_some.mpr
      (hk _ _ (dict?_eq_some.mp h.data) (by simpa [hr] using (h.ne_dict h.data).2.symm))
  · rw [hr]
    exact cell?_write_self _ (hr ▸ h.messages)
  · exact dict?_eq_some.mpr
      (hk _ _ (dict?_eq_some.mp h.attributes) (by simpa [hr] using (h.ne_dict h.attributes).2.symm))

theorem HoldsFile.write_data (hr : f.data = .ref r) (es : Entries) :
    (s.write r (.dict es)).HoldsFile v f es messages attributes := by
  have hk := s.keeps_write_self r (.dict es)
  refine ⟨hk _ _ h.file (by simpa [hr] using (h.ne_dict h.data).1), ?_,
    hk _ _ h.messages (by simpa [hr] using (h.ne_dict h.data).2), ?_, h.apart⟩
  · rw [hr, dict?_eq_some]
    exact cell?_write_self _ (hr ▸ dict?_eq_some.mp h.data)
  · exact dict?_eq_some.mpr
      (hk _ _ (dict?_eq_some.mp h.attributes) (by simpa [hr] using h.apart.symm))

theorem HoldsFile.write_attributes (hr : f.attributes = .ref r) (es : Entries) :
    (s.write r (.dict es)).HoldsFile v f data messages es := by
  have hk := s.keeps_write_self r (.dict es)
  refine ⟨hk _ _ h.file (by simpa [hr] using (h.ne_dict h.attributes).1), ?_,
    hk _ _ h.messages (by simpa [hr] using (h.ne_dict h.attributes).2), ?_, h.apart⟩
  · exact dict?_eq_some.mpr (hk _ _ (dict?_eq_some.mp h.data) (by simpa [hr] using h.apart))
  · rw [hr, dict?_eq_some]
    exact cell?_write_self _ (hr ▸ dict?_eq_some.mp h.attributes)

end Write

end Store

end VirtualFile
