import VirtualFile.Proofs.Text.Utf8
/-!
# Reading encoded texts

The encoding of a character is its lead byte and continuation bytes that hold six bits
each. The machine opens a sequence at the lead byte, stays within the bounds that this
byte sets, and has the character when the last byte is there (`scanFrom_encodeChar`). So
decoding undoes encoding (`decode_encode`).
-/

namespace VirtualFile.Text.Utf8

/-! ### Bytes of a sequence -/

theorem lead_two {b : UInt8} (h : 0xC2 ≤ b.toNat) (h' : b.toNat < 0xE0) :
    lead b = .opens ⟨1, b.toNat - 0xC0, 0x80, 0xBF⟩ := by
  unfold lead
  simp only [UInt8.lt_iff_toNat_lt, UInt8.reduceToNat]
  rw [if_neg (by omega), if_neg (by omega), if_pos (by omega)]

theorem lead_three {b : UInt8} (h : 0xE0 ≤ b.toNat) (h' : b.toNat < 0xF0) :
    lead b = .opens
      ⟨2, b.toNat - 0xE0, if b = 0xE0 then 0xA0 else 0x80, if b = 0xED then 0x9F else 0xBF⟩ := by
  unfold lead
  simp only [UInt8.lt_iff_toNat_lt, UInt8.reduceToNat]
  rw [if_neg (by omega), if_neg (by omega), if_neg (by omega)]
  by_cases h0 : b = 0xE0
  · subst h0; rfl
  by_cases hd : b = 0xED
  · subst hd; rfl
  rw [if_neg h0, if_neg hd, if_pos h', if_neg h0, if_neg hd]

theorem lead_four {b : UInt8} (h : 0xF0 ≤ b.toNat) (h' : b.toNat ≤ 0xF4) :
    lead b = .opens
      ⟨3, b.toNat - 0xF0, if b = 0xF0 then 0x90 else 0x80, if b = 0xF4 then 0x8F else 0xBF⟩ := by
  unfold lead
  simp only [UInt8.lt_iff_toNat_lt, UInt8.reduceToNat]
  have he0 : b ≠ 0xE0 := by rintro rfl; simp at h
  have hed : b ≠ 0xED := by rintro rfl; simp at h
  rw [if_neg (by omega), if_neg (by omega), if_neg (by omega), if_neg he0, if_neg hed,
    if_neg (by omega)]
  by_cases h0 : b = 0xF0
  · subst h0; rfl
  by_cases h4 : b = 0xF4
  · subst h4; rfl
  have hlt : b.toNat < 0xF4 := Nat.lt_of_le_of_ne h' fun he => h4 (UInt8.toNat_inj.mp he)
  rw [if_neg h0, if_pos hlt, if_neg h0, if_neg h4]

theorem scanFrom_complete {b : UInt8} {c : Char} (h : lead b = .complete c) (bs : List UInt8) :
    scanFrom none (b :: bs) = some c :: scanFrom none bs := by
  simp [scanFrom, step, start, h]

theorem scanFrom_opens {b : UInt8} {p : Pending} (h : lead b = .opens p) (bs : List UInt8) :
    scanFrom none (b :: bs) = scanFrom (some p) bs := by
  simp [scanFrom, step, start, h]

section Continuation
variable {missing bits : Nat} {low high b : UInt8}

theorem scanFrom_next (hm : 1 < missing) (hb : low ≤ b ∧ b ≤ high) (bs : List UInt8) :
    scanFrom (some ⟨missing, bits, low, high⟩) (b :: bs) =
      scanFrom (some ⟨missing - 1, bits * 64 + (b.toNat - 0x80), 0x80, 0xBF⟩) bs := by
  have hmore : ¬ missing ≤ 1 := by omega
  simp [scanFrom, step, proceed, hb, hmore]

theorem scanFrom_last (hm : missing ≤ 1) (hb : low ≤ b ∧ b ≤ high) (bs : List UInt8) :
    scanFrom (some ⟨missing, bits, low, high⟩) (b :: bs) =
      some (Char.ofNat (bits * 64 + (b.toNat - 0x80))) :: scanFrom none bs := by
  simp [scanFrom, step, proceed, hb, hm]

end Continuation

/-! ### Characters -/

/-- With the bound as a number that `omega` reads. -/
theorem toNat_ofNat_byte {n : Nat} (hn : n < 256) : (UInt8.ofNat n).toNat = n :=
  UInt8.toNat_ofNat_of_lt' hn

theorem scanFrom_one {v : Nat} (h : v < 0x80) (bs : List UInt8) :
    scanFrom none (UInt8.ofNat v :: bs) = some (Char.ofNat v) :: scanFrom none bs := by
  have hb := toNat_ofNat_byte (n := v) (by omega)
  rw [scanFrom_complete (lead_of_lt (by omega)), hb]

theorem tail_bounds (n : Nat) : 0x80 ≤ UInt8.ofNat (n % 64 + 128) ∧
    UInt8.ofNat (n % 64 + 128) ≤ 0xBF := by
  rw [UInt8.le_iff_toNat_le, UInt8.le_iff_toNat_le, toNat_ofNat_byte (by omega)]
  simp only [UInt8.reduceToNat]
  omega

theorem scanFrom_two {v : Nat} (h : 0x80 ≤ v) (h' : v < 0x800) (bs : List UInt8) :
    scanFrom none (UInt8.ofNat (v / 64 % 32 + 192) :: UInt8.ofNat (v % 64 + 128) :: bs) =
      some (Char.ofNat v) :: scanFrom none bs := by
  have hb1 := toNat_ofNat_byte (n := v / 64 % 32 + 192) (by omega)
  have hb2 := toNat_ofNat_byte (n := v % 64 + 128) (by omega)
  have hbits : (v / 64 % 32 + 192 - 0xC0) * 64 + (v % 64 + 128 - 0x80) = v := by omega
  rw [scanFrom_opens (lead_two (by omega) (by omega)), scanFrom_last le_rfl (tail_bounds v), hb1,
    hb2, hbits]

/-- The bounds after the lead byte leave out overlong forms and surrogates only. -/
theorem scanFrom_three {v : Nat} (h : 0x800 ≤ v) (h' : v < 0x10000)
    (hsurrogate : v < 0xD800 ∨ 0xDFFF < v) (bs : List UInt8) :
    scanFrom none (UInt8.ofNat (v / 4096 % 16 + 224) :: UInt8.ofNat (v / 64 % 64 + 128) ::
      UInt8.ofNat (v % 64 + 128) :: bs) = some (Char.ofNat v) :: scanFrom none bs := by
  have hb1 := toNat_ofNat_byte (n := v / 4096 % 16 + 224) (by omega)
  have hb2 := toNat_ofNat_byte (n := v / 64 % 64 + 128) (by omega)
  have hb3 := toNat_ofNat_byte (n := v % 64 + 128) (by omega)
  have hbits :
      ((v / 4096 % 16 + 224 - 0xE0) * 64 + (v / 64 % 64 + 128 - 0x80)) * 64 +
        (v % 64 + 128 - 0x80) = v := by
    omega
  rw [scanFrom_opens (lead_three (by omega) (by omega)), scanFrom_next (by decide) ?_,
    scanFrom_last (by decide) (tail_bounds v), hb1, hb2, hb3, hbits]
  simp only [UInt8.le_iff_toNat_le, ← UInt8.toNat_inj, apply_ite UInt8.toNat, hb1, hb2,
    UInt8.reduceToNat]
  split_ifs <;> omega

theorem scanFrom_four {v : Nat} (h : 0x10000 ≤ v) (h' : v < 0x110000) (bs : List UInt8) :
    scanFrom none (UInt8.ofNat (v / 262144 % 8 + 240) :: UInt8.ofNat (v / 4096 % 64 + 128) ::
      UInt8.ofNat (v / 64 % 64 + 128) :: UInt8.ofNat (v % 64 + 128) :: bs) =
        some (Char.ofNat v) :: scanFrom none bs := by
  have hb1 := toNat_ofNat_byte (n := v / 262144 % 8 + 240) (by omega)
  have hb2 := toNat_ofNat_byte (n := v / 4096 % 64 + 128) (by omega)
  have hb3 := toNat_ofNat_byte (n := v / 64 % 64 + 128) (by omega)
  have hb4 := toNat_ofNat_byte (n := v % 64 + 128) (by omega)
  have hbits : (((v / 262144 % 8 + 240 - 0xF0) * 64 + (v / 4096 % 64 + 128 - 0x80)) * 64 +
      (v / 64 % 64 + 128 - 0x80)) * 64 + (v % 64 + 128 - 0x80) = v := by omega
  rw [scanFrom_opens (lead_four (by omega) (by omega)), scanFrom_next (by decide) ?_,
    scanFrom_next (by decide) (tail_bounds (v / 64)), scanFrom_last (by decide) (tail_bounds v),
    hb1, hb2, hb3, hb4, hbits]
  simp only [UInt8.le_iff_toNat_le, ← UInt8.toNat_inj, apply_ite UInt8.toNat, hb1, hb2,
    UInt8.reduceToNat]
  split_ifs <;> omega

/-- **The bytes of a character are read as that character.** -/
theorem scanFrom_encodeChar (c : Char) (bs : List UInt8) :
    scanFrom none (String.utf8EncodeChar c ++ bs) = some c :: scanFrom none bs := by
  have hvalid : c.val.toNat < 0xD800 ∨ (0xDFFF < c.val.toNat ∧ c.val.toNat < 0x110000) := c.valid
  have hc : Char.ofNat c.val.toNat = c := Char.ofNat_toNat c
  unfold String.utf8EncodeChar
  dsimp only
  split_ifs with h1 h2 h3
  · exact (scanFrom_one (by omega) bs).trans (by rw [hc])
  · exact (scanFrom_two (by omega) (by omega) bs).trans (by rw [hc])
  · exact (scanFrom_three (by omega) (by omega) (by omega) bs).trans (by rw [hc])
  · exact (scanFrom_four (by omega) (by omega) bs).trans (by rw [hc])

/-- A byte below `0x80` is only part of the character that it stands for. -/
theorem toNat_of_mem_encodeChar {c : Char} {b : UInt8} (hb : b ∈ String.utf8EncodeChar c)
    (h : b.toNat < 0x80) : c.toNat = b.toNat := by
  change c.val.toNat = b.toNat
  have hhigh : ∀ n, 0x80 ≤ n → n < 256 → b ≠ UInt8.ofNat n := by
    rintro n hn hn' rfl
    rw [toNat_ofNat_byte hn'] at h
    omega
  unfold String.utf8EncodeChar at hb
  dsimp only at hb
  split_ifs at hb with h1 h2 h3 <;> simp only [List.mem_cons, List.not_mem_nil, or_false] at hb
  · rw [hb, toNat_ofNat_byte (by omega)]
  · rcases hb with hb | hb <;> exact absurd hb (hhigh _ (by omega) (by omega))
  · rcases hb with hb | hb | hb <;> exact absurd hb (hhigh _ (by omega) (by omega))
  · rcases hb with hb | hb | hb | hb <;> exact absurd hb (hhigh _ (by omega) (by omega))

/-! ### Texts -/

theorem scanFrom_encode (t : Text) : scanFrom none (encode t) = t.map some := by
  induction t with
  | nil => rfl
  | cons c t ih =>
    unfold encode at ih ⊢
    rw [List.flatMap_cons, scanFrom_encodeChar, ih, List.map_cons]

/-- **Decoding undoes encoding.** -/
theorem decode_encode (t : Text) : decode (encode t) = t := by
  unfold decode scan
  rw [scanFrom_encode, List.map_map]
  exact List.map_id t

end VirtualFile.Text.Utf8
