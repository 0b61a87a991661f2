import Mathlib
import VirtualFile.Text.Utf8
/-!
# ASCII within UTF-8

An ASCII byte ends whatever sequence is under way and stands for itself; conversely an ASCII
character is only ever read from its own byte. Both rest on what a sequence under way can be
(`Pending.Sound`): its next byte is never ASCII, and it is never overlong.

* `decode_append_cons`: decoding commutes with cutting at an ASCII byte.
* `mem_of_mem_decode`: the source of an ASCII character.
* `decode_eq_nil`: only the empty sequence decodes to nothing.
-/

namespace VirtualFile.Text.Utf8

/-! ### Sequences under way -/

/-- What holds of a sequence under way: only a continuation byte may follow, and the bits are too
many for ASCII once the last byte is there. -/
structure Pending.Sound (p : Pending) : Prop where
  low : 0x80 ≤ p.low.toNat
  bits : if p.missing ≤ 1 then 2 ≤ p.bits else 2 ≤ p.bits * 64 + (p.low.toNat - 0x80)

/-- A state of the machine whose sequence under way, if there is one, is sound. -/
def Sound (st : Option Pending) : Prop := ∀ p ∈ st, p.Sound

theorem sound_none : Sound none := by simp [Sound]

theorem lead_of_lt {b : UInt8} (hb : b.toNat < 0x80) : lead b = .complete (Char.ofNat b.toNat) := by
  have h : b < 0x80 := UInt8.lt_iff_toNat_lt.mpr hb
  rw [lead, if_pos h]

theorem lead_eq_complete {b : UInt8} {c : Char} (h : lead b = .complete c) :
    b.toNat < 0x80 ∧ c = Char.ofNat b.toNat := by
  unfold lead at h
  split_ifs at h with hb
  exact ⟨UInt8.lt_iff_toNat_lt.mp hb, by cases h; rfl⟩

theorem le_toNat_of_not_lt {b c : UInt8} (h : ¬ b < c) : c.toNat ≤ b.toNat :=
  Nat.le_of_not_lt fun hlt => h (UInt8.lt_iff_toNat_lt.mpr hlt)

theorem lt_toNat_of_not_lt {b c : UInt8} (h : ¬ b < c) (hne : ¬ b = c) : c.toNat < b.toNat :=
  Nat.lt_of_le_of_ne (le_toNat_of_not_lt h) fun he => hne (UInt8.toNat_inj.mp he.symm)

theorem lead_sound {b : UInt8} {p : Pending} (h : lead b = .opens p) : p.Sound := by
  unfold lead at h
  split_ifs at h with h1 h2 h3 h4 h5 h6 h7 h8 h9
  all_goals cases h
  · have hb : 0xC2 ≤ b.toNat := le_toNat_of_not_lt h2
    refine ⟨le_rfl, ?_⟩
    dsimp only
    rw [if_pos le_rfl]
    omega
  · exact ⟨by decide, by decide⟩
  · exact ⟨by decide, by decide⟩
  · have hb : 0xE0 < b.toNat := lt_toNat_of_not_lt h3 h4
    refine ⟨le_rfl, ?_⟩
    dsimp only
    rw [if_neg (by omega)]
    omega
  · exact ⟨by decide, by decide⟩
  · have hb : 0xF0 < b.toNat := lt_toNat_of_not_lt h6 h7
    refine ⟨le_rfl, ?_⟩
    dsimp only
    rw [if_neg (by omega)]
    omega
  · exact ⟨by decide, by decide⟩

theorem start_sound (b : UInt8) : Sound (start b).2 := by
  intro p hp
  unfold start at hp
  cases h : lead b with
  | complete c => simp [h] at hp
  | opens q =>
    simp only [h, Option.mem_def, Option.some.injEq] at hp
    exact hp ▸ lead_sound h
  | never => simp [h] at hp

theorem step_some (p : Pending) (b : UInt8) :
    step (some p) b =
      if p.low ≤ b ∧ b ≤ p.high then
        if p.missing ≤ 1 then ([some (Char.ofNat (p.bits * 64 + (b.toNat - 0x80)))], none)
        else ([], some ⟨p.missing - 1, p.bits * 64 + (b.toNat - 0x80), 0x80, 0xBF⟩)
      else (none :: (start b).1, (start b).2) := rfl

theorem step_sound {st : Option Pending} (hst : Sound st) (b : UInt8) : Sound (step st b).2 := by
  cases st with
  | none => exact start_sound b
  | some p =>
    obtain ⟨hlow, hbits⟩ := hst p rfl
    rw [step_some]
    split_ifs with hb hm
    · exact sound_none
    · intro q hq
      have hle := UInt8.le_iff_toNat_le.mp hb.1
      simp only [Option.mem_def, Option.some.injEq] at hq
      rw [if_neg hm] at hbits
      subst hq
      refine ⟨le_rfl, ?_⟩
      simp only [UInt8.toNat_ofNat]
      split_ifs <;> omega
    · exact start_sound b

/-! ### ASCII bytes -/

theorem scanFrom_cons (st : Option Pending) (b : UInt8) (bs : List UInt8) :
    scanFrom st (b :: bs) = (step st b).1 ++ scanFrom (step st b).2 bs := by
  cases st <;> rfl

/-- An ASCII byte ends the sequence under way, if there is one, and stands for itself. -/
theorem scanFrom_ascii {st : Option Pending} (hst : Sound st) {b : UInt8} (hb : b.toNat < 0x80)
    (bs : List UInt8) :
    scanFrom st (b :: bs) = scanFrom st [] ++ some (Char.ofNat b.toNat) :: scanFrom none bs := by
  have hstart : start b = ([some (Char.ofNat b.toNat)], none) := by rw [start, lead_of_lt hb]
  rw [scanFrom_cons]
  cases st with
  | none => rw [step, hstart]; rfl
  | some p =>
    have hlow := (hst p rfl).low
    have hout : ¬ (p.low ≤ b ∧ b ≤ p.high) := fun h => by
      have := UInt8.le_iff_toNat_le.mp h.1
      omega
    rw [step_some, if_neg hout, hstart]
    rfl

theorem scanFrom_append_cons {b : UInt8} (hb : b.toNat < 0x80) (cs : List UInt8) :
    ∀ (bs : List UInt8) {st : Option Pending}, Sound st →
      scanFrom st (bs ++ b :: cs) = scanFrom st bs ++ some (Char.ofNat b.toNat) :: scanFrom none cs
  | [], _, hst => scanFrom_ascii hst hb cs
  | d :: bs, st, hst => by
    rw [List.cons_append, scanFrom_cons, scanFrom_cons,
      scanFrom_append_cons hb cs bs (step_sound hst d), List.append_assoc]

/-- **Decoding commutes with cutting at an ASCII byte.** -/
theorem decode_append_cons {b : UInt8} (hb : b.toNat < 0x80) (bs cs : List UInt8) :
    decode (bs ++ b :: cs) = decode bs ++ Char.ofNat b.toNat :: decode cs := by
  simp only [decode, scan, scanFrom_append_cons hb cs bs sound_none, List.map_append, List.map_cons,
    Option.getD_some]

/-! ### Where ASCII characters come from -/

/-- A number of at least `0x80` is no ASCII character but perhaps NUL. -/
theorem ofNat_ne {n : Nat} (hn : 0x80 ≤ n) {c : Char} (hc : c.toNat < 0x80) (h0 : c.toNat ≠ 0) :
    Char.ofNat n ≠ c := by
  rintro rfl
  rw [Char.toNat_ofNat] at hc h0
  split_ifs at hc h0 <;> omega

theorem mem_start {b : UInt8} {c : Char} (h : some c ∈ (start b).1) :
    b.toNat < 0x80 ∧ c = Char.ofNat b.toNat := by
  unfold start at h
  cases hl : lead b with
  | complete d =>
    simp only [hl, List.mem_singleton, Option.some.injEq] at h
    exact h ▸ lead_eq_complete hl
  | opens p => simp [hl] at h
  | never => simp [hl] at h

theorem mem_step {st : Option Pending} (hst : Sound st) {b : UInt8} {c : Char}
    (hc : c.toNat < 0x80) (h0 : c.toNat ≠ 0) (h : some c ∈ (step st b).1) : b.toNat = c.toNat := by
  have hself : ∀ {d : Char}, b.toNat < 0x80 ∧ d = Char.ofNat b.toNat → b.toNat = d.toNat := by
    rintro d ⟨hb, rfl⟩
    rw [Char.toNat_ofNat, if_pos (Or.inl (by omega))]
  cases st with
  | none => exact hself (mem_start h)
  | some p =>
    obtain ⟨hlow, hbits⟩ := hst p rfl
    rw [step_some] at h
    split_ifs at h with hb hm
    · have hle := UInt8.le_iff_toNat_le.mp hb.1
      rw [if_pos hm] at hbits
      simp only [List.mem_singleton, Option.some.injEq] at h
      exact absurd h.symm (ofNat_ne (by omega) hc h0)
    · simp at h
    · simp only [List.mem_cons, reduceCtorEq, false_or] at h
      exact hself (mem_start h)

theorem mem_scanFrom {c : Char} (hc : c.toNat < 0x80) (h0 : c.toNat ≠ 0) :
    ∀ (bs : List UInt8) {st : Option Pending}, Sound st → some c ∈ scanFrom st bs →
      ∃ b ∈ bs, b.toNat = c.toNat
  | [], st, _, h => by cases st <;> simp [scanFrom] at h
  | b :: bs, st, hst, h => by
    rw [scanFrom_cons, List.mem_append] at h
    rcases h with h | h
    · exact ⟨b, by simp, mem_step hst hc h0 h⟩
    · obtain ⟨d, hd, hdc⟩ := mem_scanFrom hc h0 bs (step_sound hst b) h
      exact ⟨d, by simp [hd], hdc⟩

/-- **An ASCII character is read from its own byte.** -/
theorem mem_of_mem_decode {c : Char} (hc : c.toNat < 0x80) (h0 : c.toNat ≠ 0) {bs : List UInt8}
    (h : c ∈ decode bs) : ∃ b ∈ bs, b.toNat = c.toNat := by
  obtain ⟨o, ho, rfl⟩ := List.mem_map.mp h
  cases o with
  | none => exact absurd hc (by decide)
  | some c => exact mem_scanFrom hc h0 bs sound_none ho

/-! ### Empty results -/

theorem scanFrom_some_ne_nil : ∀ (bs : List UInt8) (p : Pending), scanFrom (some p) bs ≠ []
  | [], _ => by simp [scanFrom]
  | b :: bs, p => by
    rw [scanFrom_cons, step_some]
    split_ifs
    · simp
    · simpa using scanFrom_some_ne_nil bs _
    · simp

theorem decode_eq_nil {bs : List UInt8} (h : decode bs = []) : bs = [] := by
  cases bs with
  | nil => rfl
  | cons b bs =>
    rw [decode, scan, scanFrom_cons, List.map_eq_nil_iff, List.append_eq_nil_iff] at h
    unfold step start at h
    cases hl : lead b with
    | complete c => simp [hl] at h
    | opens p =>
      simp only [hl] at h
      exact absurd h.2 (scanFrom_some_ne_nil bs p)
    | never => simp [hl] at h

end VirtualFile.Text.Utf8
