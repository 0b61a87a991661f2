import VirtualFile.Proofs.Text.Split
import VirtualFile.Proofs.Text.Utf8
import VirtualFile.Url.Percent
/-!
# Delimiters and percent escapes

Resolving escapes works on runs of ASCII text and on sequences of bytes, yet a delimiter
splits both: no escape and no UTF-8 sequence reaches across it (`decode_append_cons`). As
long as the delimiter is not written as an escape itself, it does not come out of one
either (`mem_of_mem_decode`). So a text can be cut before or after its escapes are
resolved (`split_decode`).
-/

namespace VirtualFile.Url.Percent

/-- **A delimiter**: an ASCII character other than NUL that is no part of an escape. -/
structure Delimiter (c : Char) : Prop where
  ascii : c.toNat < 0x80
  ne_nul : c.toNat ≠ 0
  ne_percent : c ≠ '%'
  digit : digit? c = none

theorem toNat_toUInt8 {c : Char} (hc : c.toNat < 0x80) : c.toUInt8.toNat = c.toNat := by
  rw [Char.toUInt8, UInt32.toNat_toUInt8, Char.toNat_val]
  omega

/-! ### The bytes of a run -/

theorem bytes_cons_of_ne {c : Char} (hc : c ≠ '%') (t : Text) :
    bytes (c :: t) = c.toUInt8 :: bytes t := by
  rw [bytes]
  intro _ _ _ h
  exact absurd h hc

theorem bytes_percent_of_none {t : Text}
    (ht : ∀ high low u, t = high :: low :: u → escaped? high low = none) :
    bytes ('%' :: t) = '%'.toUInt8 :: bytes t := by
  rcases t with _ | ⟨high, _ | ⟨low, u⟩⟩
  · simp [bytes]
  · simp [bytes]
  · rw [bytes, ht high low u rfl]

theorem escaped?_left {c : Char} (hc : digit? c = none) (low : Char) : escaped? c low = none := by
  rw [escaped?, hc]

theorem escaped?_right {c : Char} (hc : digit? c = none) (high : Char) :
    escaped? high c = none := by
  rw [escaped?, hc]
  cases digit? high <;> rfl

/-- No escape reaches across a delimiter. -/
theorem bytes_append_cons {c : Char} (hc : Delimiter c) (a b : Text) :
    bytes (a ++ c :: b) = bytes a ++ c.toUInt8 :: bytes b := by
  fun_induction bytes a with
  | case1 => exact bytes_cons_of_ne hc.ne_percent b
  | case2 high low t x hx ih =>
    rw [List.cons_append, List.cons_append, List.cons_append, bytes, hx]
    simp only [ih, List.cons_append]
  | case3 high low t hx ih =>
    rw [List.cons_append, bytes_percent_of_none (t := high :: low :: t ++ c :: b), ih,
      List.cons_append]
    simp only [List.cons_append, List.cons.injEq]
    rintro _ _ _ ⟨rfl, rfl, -⟩
    exact hx
  | case4 d t hd ih =>
    by_cases hp : d = '%'
    · subst hp
      rw [List.cons_append, bytes_percent_of_none, ih, List.cons_append]
      -- less than two characters of `t` stand between `%` and the delimiter
      intro high low u hu
      rcases t with _ | ⟨x, _ | ⟨y, t⟩⟩
      · simp only [List.nil_append, List.cons.injEq] at hu
        exact hu.1 ▸ escaped?_left hc.digit low
      · simp only [List.cons_append, List.nil_append, List.cons.injEq] at hu
        exact hu.2.1 ▸ escaped?_right hc.digit high
      · exact (hd x y t rfl rfl).elim
    · rw [List.cons_append, bytes_cons_of_ne hp, ih, List.cons_append]

theorem bytes_eq_nil {t : Text} (h : bytes t = []) : t = [] := by
  rw [bytes.eq_def] at h
  split at h
  · rfl
  · split at h <;> simp at h
  · simp at h

/-! ### Written escapes -/

section Written
variable {of : List UInt8}

theorem containsEscape_cons (c : Char) {t : Text} (h : containsEscape of t = true) :
    containsEscape of (c :: t) = true := by
  rw [containsEscape, h, Bool.or_true]

theorem containsEscape_append_right (a : Text) {b : Text} (h : containsEscape of b = true) :
    containsEscape of (a ++ b) = true := by
  induction a with
  | nil => exact h
  | cons c a ih => exact containsEscape_cons c ih

theorem containsEscape_append_left {a : Text} (h : containsEscape of a = true) (b : Text) :
    containsEscape of (a ++ b) = true := by
  induction a with
  | nil => simp [containsEscape] at h
  | cons c a ih =>
    rw [containsEscape, Bool.or_eq_true] at h
    rcases h with h | h
    · split at h
      · next he =>
        cases he
        simp [containsEscape, h]
      · simp at h
    · exact containsEscape_cons c (ih h)

theorem containsEscape_of_mem {x : UInt8} (hx : x ∈ of) {t : Text}
    (h : containsEscape [x] t = true) : containsEscape of t = true := by
  induction t with
  | nil => simp [containsEscape] at h
  | cons c t ih =>
    rw [containsEscape, Bool.or_eq_true] at h
    rcases h with h | h
    · rw [containsEscape, Bool.or_eq_true]
      left
      split at h
      · next high low _ =>
        obtain ⟨y, hy, hyx⟩ := (Option.any_eq_true _ _).mp h
        rw [Option.any_eq_true]
        exact ⟨y, hy, by simpa [List.mem_singleton.mp (List.contains_iff_mem.mp hyx)] using hx⟩
      · simp at h
    · exact containsEscape_cons c (ih h)

theorem mem_bytes {x : UInt8} {t : Text} (h : x ∈ bytes t) :
    (∃ c ∈ t, c.toUInt8 = x) ∨ containsEscape [x] t = true := by
  fun_induction bytes t with
  | case1 => simp at h
  | case2 high low t y hy ih =>
    rcases List.mem_cons.mp h with rfl | h
    · exact Or.inr (by simp [containsEscape, hy])
    · rcases ih h with ⟨c, hc, rfl⟩ | he
      · exact Or.inl ⟨c, by simp [hc], rfl⟩
      · exact Or.inr (containsEscape_append_right ['%', high, low] he)
  | case3 high low t _ ih =>
    rcases List.mem_cons.mp h with rfl | h
    · exact Or.inl ⟨'%', by simp, rfl⟩
    · rcases ih h with ⟨c, hc, rfl⟩ | he
      · exact Or.inl ⟨c, List.mem_cons_of_mem _ hc, rfl⟩
      · exact Or.inr (containsEscape_cons '%' he)
  | case4 d t _ ih =>
    rcases List.mem_cons.mp h with rfl | h
    · exact Or.inl ⟨d, by simp, rfl⟩
    · rcases ih h with ⟨c, hc, rfl⟩ | he
      · exact Or.inl ⟨c, by simp [hc], rfl⟩
      · exact Or.inr (containsEscape_cons d he)

end Written

/-! ### Decoding beside a delimiter -/

section Decoding
variable {c : Char}

theorem decodeBytes_append_cons (hc : Delimiter c) (a b : Text) :
    Text.Utf8.decode (bytes (a ++ c :: b)) =
      Text.Utf8.decode (bytes a) ++ c :: Text.Utf8.decode (bytes b) := by
  have hn := toNat_toUInt8 hc.ascii
  rw [bytes_append_cons hc, Text.Utf8.decode_append_cons (by rw [hn]; exact hc.ascii), hn,
    Char.ofNat_toNat]

theorem decodeFrom_ascii (hc : c.toNat < 0x80) (run t : Text) :
    decodeFrom run (c :: t) = decodeFrom (c :: run) t := by
  rw [decodeFrom, if_pos hc]

theorem decodeFrom_append_cons (hc : Delimiter c) (a : Text) : ∀ (t run : Text),
    decodeFrom (run ++ c :: a) t = Text.Utf8.decode (bytes a.reverse) ++ c :: decodeFrom run t
  | [], run => by
    rw [decodeFrom, decodeFrom, List.reverse_append, List.reverse_cons, List.append_assoc,
      List.singleton_append, decodeBytes_append_cons hc]
  | d :: t, run => by
    rw [decodeFrom, decodeFrom]
    split_ifs
    · exact decodeFrom_append_cons hc a t (d :: run)
    · rw [List.reverse_append, List.reverse_cons, List.append_assoc, List.singleton_append,
        decodeBytes_append_cons hc, List.append_assoc, List.cons_append]

theorem decodeFrom_cons (hc : Delimiter c) (b : Text) : ∀ (a run : Text),
    decodeFrom run (a ++ c :: b) = decodeFrom run a ++ c :: decode b
  | [], run => by
    rw [List.nil_append, decodeFrom_ascii hc.ascii]
    exact decodeFrom_append_cons hc run b []
  | d :: a, run => by
    rw [List.cons_append, decodeFrom, decodeFrom]
    split_ifs
    · exact decodeFrom_cons hc b a (d :: run)
    · rw [decodeFrom_cons hc b a [], List.append_assoc, List.cons_append]

/-- **Decoding commutes with cutting at a delimiter.** -/
theorem decode_append_cons (hc : Delimiter c) (a b : Text) :
    decode (a ++ c :: b) = decode a ++ c :: decode b := decodeFrom_cons hc b a []

theorem mem_of_mem_decodeBytes (hc : Delimiter c) {t : Text} (ht : ∀ x ∈ t, x.toNat < 0x80)
    (h : c ∈ Text.Utf8.decode (bytes t)) : c ∈ t ∨ containsEscape [c.toUInt8] t = true := by
  obtain ⟨x, hx, hxc⟩ := Text.Utf8.mem_of_mem_decode hc.ascii hc.ne_nul h
  have hxc' : x = c.toUInt8 := UInt8.toNat_inj.mp (hxc.trans (toNat_toUInt8 hc.ascii).symm)
  subst hxc'
  rcases mem_bytes hx with ⟨d, hd, he⟩ | he
  · have hdc : d.toNat = c.toNat := by
      rw [← toNat_toUInt8 (ht d hd), he, toNat_toUInt8 hc.ascii]
    exact Or.inl (Char.toNat_inj.mp hdc ▸ hd)
  · exact Or.inr he

theorem mem_of_mem_decodeFrom (hc : Delimiter c) : ∀ (t run : Text), (∀ x ∈ run, x.toNat < 0x80) →
    c ∈ decodeFrom run t →
      c ∈ run.reverse ++ t ∨ containsEscape [c.toUInt8] (run.reverse ++ t) = true
  | [], run, hrun, h => by
    rw [List.append_nil]
    exact mem_of_mem_decodeBytes hc (by simpa using hrun) h
  | d :: t, run, hrun, h => by
    rw [decodeFrom] at h
    split_ifs at h with hd
    · have ih := mem_of_mem_decodeFrom hc t (d :: run) (List.forall_mem_cons.mpr ⟨hd, hrun⟩) h
      rwa [List.reverse_cons, List.append_assoc, List.singleton_append] at ih
    · rcases List.mem_append.mp h with h | h
      · rcases mem_of_mem_decodeBytes hc (by simpa using hrun) h with h | h
        · exact Or.inl (List.mem_append_left _ h)
        · exact Or.inr (containsEscape_append_left h _)
      · rcases List.mem_cons.mp h with rfl | h
        · exact Or.inl (by simp)
        · rcases mem_of_mem_decodeFrom hc t [] (by simp) h with h | h
          · exact Or.inl (List.mem_append_right _ (List.mem_cons_of_mem d h))
          · exact Or.inr (containsEscape_append_right _ (containsEscape_cons d h))

/-- **A delimiter stands in the text or is written as an escape.** -/
theorem mem_of_mem_decode (hc : Delimiter c) {t : Text} (h : c ∈ decode t) :
    c ∈ t ∨ containsEscape [c.toUInt8] t = true :=
  mem_of_mem_decodeFrom hc t [] (by simp) h

end Decoding

theorem decode_nil : decode [] = [] := by
  rw [decode, decodeFrom, List.reverse_nil, bytes]
  rfl

theorem decodeFrom_eq_nil : ∀ {t run : Text}, decodeFrom run t = [] → run = [] ∧ t = []
  | [], run, h => by
    have := bytes_eq_nil (Text.Utf8.decode_eq_nil h)
    exact ⟨List.reverse_eq_nil_iff.mp this, rfl⟩
  | d :: t, run, h => by
    rw [decodeFrom] at h
    split_ifs at h
    · exact absurd (decodeFrom_eq_nil h).1 (by simp)
    · simp at h

theorem decode_eq_nil {t : Text} (h : decode t = []) : t = [] := (decodeFrom_eq_nil h).2

/-- **A text can be cut before or after its escapes are resolved**, if no separator is written as an
escape. -/
theorem split_decode {sep : Char → Bool} (hsep : ∀ c, sep c = true → Delimiter c) {t : Text}
    (ht : ∀ c, sep c = true → containsEscape [c.toUInt8] t = false) :
    Text.split sep (decode t) = (Text.split sep t).map decode := by
  induction t using Text.pieces_induction sep with
  | last t hnone =>
    have hdec : ∀ c ∈ decode t, sep c = false := by
      refine fun c hc => Bool.eq_false_of_not_eq_true fun hs => ?_
      rcases mem_of_mem_decode (hsep c hs) hc with h | h
      · simp [hnone c h] at hs
      · simp [ht c hs] at h
    rw [Text.split_of_none hnone, Text.split_of_none hdec, List.map_singleton]
  | piece a c b ha hc ih =>
    have hleft : ∀ d, sep d = true → containsEscape [d.toUInt8] a = false := fun d hd =>
      Bool.eq_false_of_not_eq_true fun h => by
        simpa [ht d hd] using containsEscape_append_left h (c :: b)
    have hright : ∀ d, sep d = true → containsEscape [d.toUInt8] b = false := fun d hd =>
      Bool.eq_false_of_not_eq_true fun h => by
        simpa [ht d hd] using containsEscape_append_right a (containsEscape_cons c h)
    have hdec : ∀ d ∈ decode a, sep d = false := by
      refine fun d hd => Bool.eq_false_of_not_eq_true fun hs => ?_
      rcases mem_of_mem_decode (hsep d hs) hd with h | h
      · simp [ha d h] at hs
      · simp [hleft d hs] at h
    rw [decode_append_cons (hsep c hc), Text.split_append_cons hc, Text.split_append_cons hc,
      Text.split_of_none hdec, Text.split_of_none ha, ih hright, List.map_append,
      List.map_singleton]

end VirtualFile.Url.Percent
