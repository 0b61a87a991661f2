import VirtualFile.Proofs.Text.Encoding
import VirtualFile.Proofs.Url.Percent
/-!
# Percent encodings

A text has many percent encodings: `%` is always escaped and `/` never, and any other character
stands for itself or is written as the escapes of its UTF-8 bytes, with digits in either case.
Resolving the escapes gives the text back from each of them (`Encodes.decode_eq`), since every `%`
begins an escape, and the escapes of one character follow each other. No encoding holds an escaped
`/`, even if the text looks as if it did (`Encodes.containsEscape_eq`).
-/

namespace VirtualFile.Url.Percent

/-- The hexadecimal digits of a number below sixteen, in either case. -/
def IsDigit (n : Nat) (c : Char) : Prop := c = Nat.digitChar n ∨ c = (Nat.digitChar n).toUpper

/-- **The escapes of bytes**: for each of them `%` and its two digits. -/
inductive Escapes : List UInt8 → Text → Prop
  | nil : Escapes [] []
  | cons {b : UInt8} {bs : List UInt8} {high low : Char} {e : Text}
      (hhigh : IsDigit (b.toNat / 16) high) (hlow : IsDigit (b.toNat % 16) low)
      (h : Escapes bs e) :
      Escapes (b :: bs) ('%' :: high :: low :: e)

/-- **The percent encodings of a text.** -/
inductive Encodes : Text → Text → Prop
  | nil : Encodes [] []
  | keep {c : Char} {p q : Text} (hc : c ≠ '%') (h : Encodes p q) : Encodes (c :: p) (c :: q)
  | escape {c : Char} {p e q : Text} (hc : c ≠ '/') (he : Escapes (String.utf8EncodeChar c) e)
      (h : Encodes p q) : Encodes (c :: p) (e ++ q)

/-! ### Digits -/

theorem digit?_of_isDigit {n : Nat} (hn : n < 16) {c : Char} (h : IsDigit n c) :
    digit? c = some n := by
  unfold IsDigit at h
  interval_cases n <;> rcases h with rfl | rfl <;> decide

theorem toNat_lt_of_digit? {c : Char} {n : Nat} (h : digit? c = some n) : c.toNat < 0x80 := by
  have hle : ∀ d : Char, c ≤ d → c.toNat ≤ d.toNat := fun d hd => hd
  unfold digit? at h
  split_ifs at h with h1 h2 h3
  · exact Nat.lt_of_le_of_lt (hle '9' h1.2) (by decide)
  · exact Nat.lt_of_le_of_lt (hle 'f' h2.2) (by decide)
  · exact Nat.lt_of_le_of_lt (hle 'F' h3.2) (by decide)

theorem ne_percent_of_digit? {c : Char} {n : Nat} (h : digit? c = some n) : c ≠ '%' := by
  rintro rfl
  have hnone : digit? '%' = none := by decide
  rw [hnone] at h
  cases h

section Escape
variable {b : UInt8} {high low : Char} (hhigh : IsDigit (b.toNat / 16) high)
  (hlow : IsDigit (b.toNat % 16) low)
include hhigh hlow

theorem digits_of_byte : digit? high = some (b.toNat / 16) ∧ digit? low = some (b.toNat % 16) := by
  have hlt := b.toNat_lt
  exact ⟨digit?_of_isDigit (by omega) hhigh, digit?_of_isDigit (by omega) hlow⟩

theorem escaped?_of_isDigit : escaped? high low = some b := by
  obtain ⟨h1, h2⟩ := digits_of_byte hhigh hlow
  have hbyte : b.toNat / 16 * 16 + b.toNat % 16 = b.toNat := by omega
  unfold escaped?
  rw [h1, h2]
  dsimp only
  rw [hbyte, UInt8.ofNat_toNat]

end Escape

/-! ### Resolving escapes -/

theorem Escapes.ascii {bs : List UInt8} {e : Text} (h : Escapes bs e) :
    ∀ c ∈ e, c.toNat < 0x80 := by
  induction h with
  | nil => simp
  | cons hhigh hlow _ ih =>
    obtain ⟨h1, h2⟩ := digits_of_byte hhigh hlow
    simp only [List.forall_mem_cons]
    exact ⟨by decide, toNat_lt_of_digit? h1, toNat_lt_of_digit? h2, ih⟩

theorem Escapes.bytes_append {bs : List UInt8} {e : Text} (h : Escapes bs e) (t : Text) :
    bytes (e ++ t) = bs ++ bytes t := by
  induction h with
  | nil => rfl
  | cons hhigh hlow _ ih =>
    simp only [List.cons_append]
    rw [bytes, escaped?_of_isDigit hhigh hlow]
    simp only [ih]

namespace Encodes
variable {p q : Text}

theorem append {r t : Text} (h : Encodes p q) (h' : Encodes r t) : Encodes (p ++ r) (q ++ t) := by
  induction h with
  | nil => exact h'
  | keep hc _ ih => exact .keep hc ih
  | escape hc he _ ih =>
    rw [List.append_assoc]
    exact .escape hc he ih

theorem bytes_eq (h : Encodes p q) (hq : ∀ c ∈ q, c.toNat < 0x80) :
    bytes q = Text.Utf8.encode p := by
  induction h with
  | nil => simp [bytes, Text.Utf8.encode]
  | @keep c p q hc _ ih =>
    obtain ⟨hascii, hrest⟩ := List.forall_mem_cons.mp hq
    have hbytes : String.utf8EncodeChar c = [c.toUInt8] :=
      String.utf8EncodeChar_eq_singleton (Char.utf8Size_eq_one_iff.mpr (Nat.le_of_lt_succ hascii))
    rw [bytes_cons_of_ne hc, ih hrest, Text.Utf8.encode, Text.Utf8.encode,
      List.flatMap_cons, hbytes, List.singleton_append]
  | escape _ he _ ih =>
    rw [he.bytes_append, ih fun c hc => hq c (List.mem_append_right _ hc), Text.Utf8.encode,
      Text.Utf8.encode, List.flatMap_cons]

end Encodes

theorem decodeFrom_append_ascii (t : Text) : ∀ (e run : Text), (∀ c ∈ e, c.toNat < 0x80) →
    decodeFrom run (e ++ t) = decodeFrom (e.reverse ++ run) t
  | [], _, _ => rfl
  | c :: e, run, he => by
    obtain ⟨hc, he⟩ := List.forall_mem_cons.mp he
    rw [List.cons_append, decodeFrom_ascii hc, decodeFrom_append_ascii t e (c :: run) he,
      List.reverse_cons, List.append_assoc, List.singleton_append]

namespace Encodes
variable {p q : Text}

/-- What is decoded with a run read so far: the run encodes a text of its own, so no escape and no
character reaches from it into what follows. -/
theorem decodeFrom_eq (h : Encodes p q) : ∀ {r run : Text}, Encodes r run.reverse →
    (∀ c ∈ run, c.toNat < 0x80) → decodeFrom run q = r ++ p := by
  induction h with
  | nil =>
    intro r run hrun hascii
    rw [decodeFrom, hrun.bytes_eq (by simpa using hascii), Text.Utf8.decode_encode, List.append_nil]
  | @keep c p q hc _ ih =>
    intro r run hrun hascii
    by_cases hlt : c.toNat < 0x80
    · have hrun' : Encodes (r ++ [c]) (c :: run).reverse := by
        rw [List.reverse_cons]
        exact hrun.append (.keep hc .nil)
      rw [decodeFrom_ascii hlt, ih hrun' (List.forall_mem_cons.mpr ⟨hlt, hascii⟩),
        List.append_assoc, List.singleton_append]
    · -- a character beyond ASCII ends the run
      rw [decodeFrom, if_neg hlt, hrun.bytes_eq (by simpa using hascii), Text.Utf8.decode_encode,
        ih .nil (by simp), List.nil_append]
  | @escape c p e q hc he _ ih =>
    intro r run hrun hascii
    have hrun' : Encodes (r ++ [c]) (e.reverse ++ run).reverse := by
      have hone : Encodes [c] e := List.append_nil e ▸ .escape hc he .nil
      rw [List.reverse_append, List.reverse_reverse]
      exact hrun.append hone
    have hascii' : ∀ x ∈ e.reverse ++ run, x.toNat < 0x80 :=
      List.forall_mem_append.mpr ⟨by simpa using he.ascii, hascii⟩
    rw [decodeFrom_append_ascii q e run he.ascii, ih hrun' hascii', List.append_assoc,
      List.singleton_append]

/-- **Resolving the escapes of an encoding gives the text.** -/
theorem decode_eq (h : Encodes p q) : decode q = p := by
  have hnil : Encodes [] ([] : Text).reverse := .nil
  exact h.decodeFrom_eq hnil (by simp)

end Encodes

/-! ### Escapes that are written -/

section Written
variable {of : List UInt8}

theorem containsEscape_cons_of_ne {c : Char} (hc : c ≠ '%') (t : Text) :
    containsEscape of (c :: t) = containsEscape of t := by
  rw [containsEscape]
  split
  · next h => exact absurd (List.cons.inj h).1 hc
  · rfl

theorem Escapes.containsEscape_append {bs : List UInt8} {e : Text} (h : Escapes bs e)
    (hof : ∀ b ∈ bs, b ∉ of) (t : Text) : containsEscape of (e ++ t) = containsEscape of t := by
  induction h with
  | nil => rfl
  | @cons b bs high low e hhigh hlow _ ih =>
    obtain ⟨hb, hbs⟩ := List.forall_mem_cons.mp hof
    obtain ⟨h1, h2⟩ := digits_of_byte hhigh hlow
    have hskip : containsEscape of (high :: low :: (e ++ t)) = containsEscape of t := by
      rw [containsEscape_cons_of_ne (ne_percent_of_digit? h1),
        containsEscape_cons_of_ne (ne_percent_of_digit? h2), ih hbs]
    simp only [List.cons_append]
    rw [containsEscape, hskip]
    simp [escaped?_of_isDigit hhigh hlow, hb]

/-- **An encoding holds no escape of a byte that no escaped character has.** -/
theorem Encodes.containsEscape_eq {p q : Text} (h : Encodes p q)
    (hof : ∀ c ∈ p, c ≠ '/' → ∀ b ∈ String.utf8EncodeChar c, b ∉ of) :
    containsEscape of q = false := by
  induction h with
  | nil => rfl
  | keep hc _ ih =>
    rw [containsEscape_cons_of_ne hc]
    exact ih (List.forall_mem_cons.mp hof).2
  | escape hc he _ ih =>
    obtain ⟨hfirst, hrest⟩ := List.forall_mem_cons.mp hof
    rw [he.containsEscape_append (hfirst hc)]
    exact ih hrest

/-- No escape of an ASCII character is written if the character is `/` or not in the text. -/
theorem Encodes.containsEscape_ascii {p q : Text} (h : Encodes p q)
    (hof : ∀ b ∈ of, ∃ c : Char, b.toNat = c.toNat ∧ c.toNat < 0x80 ∧ (c = '/' ∨ c ∉ p)) :
    containsEscape of q = false := by
  refine h.containsEscape_eq fun d hd hne b hb hmem => ?_
  obtain ⟨c, hbc, hascii, hc⟩ := hof b hmem
  have hdc : d = c :=
    Char.toNat_inj.mp ((Text.Utf8.toNat_of_mem_encodeChar hb (by omega)).trans hbc)
  rcases hc with hc | hc
  · exact hne (hdc.trans hc)
  · exact hc (hdc ▸ hd)

end Written

end VirtualFile.Url.Percent
