import VirtualFile.Proofs.Url.Encodings
import VirtualFile.Proofs.Url.Separators
/-!
# File URLs of the machine itself

A file URL without a host, or with `localhost` for one, names a path of the machine itself: in posix
style the URL's path with its escapes resolved, in Windows style what that is at a drive.

* `urlPath_encoded`: every percent encoding of a path leads to that path.
* `urlPath_atDrive_iff`: in Windows style the path is a drive alone or goes on with a backslash,
  unless a line break alone follows the drive.
-/

namespace VirtualFile

open VirtualFile.Path (Style)

namespace Url

/-- **A path at a drive**: a letter and a colon, and behind them
nothing, or a backslash and anything. -/
def AtDrive (t : Text) : Prop :=
  ∃ letter rest, t = letter :: ':' :: rest ∧ letter.isAlpha = true ∧
  (rest = [] ∨ rest.head? = some '\\')

/-- A drive with a line break alone behind it. -/
def AtLineBreak (t : Text) : Prop := ∃ letter, t = [letter, ':', '\n'] ∧ letter.isAlpha = true

theorem replace_cons_of_ne {old new c : Char} (hc : c ≠ old) (t : Text) :
    Text.replace old new (c :: t) = c :: Text.replace old new t := by
  unfold Text.replace
  rw [List.map_cons, if_neg hc]

theorem replace_replace {t : Text} (ht : '/' ∉ t) :
    Text.replace '/' '\\' (Text.replace '\\' '/' t) = t := by
  unfold Text.replace
  rw [List.map_map]
  refine (List.map_congr_left fun c hc => ?_).trans (List.map_id t)
  have hslash : c ≠ '/' := fun he => ht (he ▸ hc)
  by_cases hback : c = '\\' <;> simp [hback, hslash]

theorem backslash_not_mem_replace (t : Text) : '\\' ∉ Text.replace '\\' '/' t := by
  unfold Text.replace
  intro hmem
  obtain ⟨c, -, hc⟩ := List.mem_map.mp hmem
  split_ifs at hc with hback
  · exact absurd hc (by decide)
  · exact hback hc

theorem not_separator_of_isAlpha {c : Char} (hc : c.isAlpha = true) : c ≠ '/' ∧ c ≠ '\\' := by
  constructor <;> rintro rfl <;> exact absurd hc (by decide)

theorem AtLineBreak.eq {letter : Char} {rest : Text} (h : AtLineBreak (letter :: ':' :: rest)) :
    rest = ['\n'] := by
  obtain ⟨l, hl, -⟩ := h
  exact (List.cons.inj (List.cons.inj hl).2).2

/-- A path at a drive has something else than a line break behind the drive. -/
theorem AtDrive.not_atLineBreak {t : Text} (h : AtDrive t) : ¬ AtLineBreak t := by
  obtain ⟨letter, rest, rfl, -, hrest⟩ := h
  intro hbreak
  rw [hbreak.eq] at hrest
  simp at hrest

theorem atDrive_or_atLineBreak {d : Text} (h : hasDriveLetter d = true) :
    (AtDrive (Text.replace '/' '\\' (withoutSlash d)) ∧ ¬ AtLineBreak (withoutSlash d)) ∨
      (AtLineBreak (Text.replace '/' '\\' (withoutSlash d)) ∧ AtLineBreak (withoutSlash d)) := by
  obtain ⟨letter, rest, hd, hletter, hrest⟩ := hasDriveLetter_iff.mp h
  have hreplace : Text.replace '/' '\\' (letter :: ':' :: rest) =
      letter :: ':' :: Text.replace '/' '\\' rest := by
    rw [replace_cons_of_ne (not_separator_of_isAlpha hletter).1, replace_cons_of_ne (by decide)]
  rw [hd, hreplace]
  rcases hrest with hslash | rfl | rfl
  · obtain ⟨u, rfl⟩ := List.head?_eq_some_iff.mp hslash
    exact .inl ⟨⟨letter, _, rfl, hletter, .inr rfl⟩, fun hb => absurd hb.eq (by simp)⟩
  · exact .inl ⟨⟨letter, _, rfl, hletter, .inl rfl⟩, fun hb => absurd hb.eq (by simp)⟩
  · exact .inr ⟨⟨letter, rfl, hletter⟩, ⟨letter, rfl, hletter⟩⟩

/-! ### Encoded paths -/

theorem posixPath_encoded {p q : Text} (h : Percent.Encodes p q) : posixPath [] q = .ok p := by
  have hescape : Percent.containsEscape [0x2F] q = false := by
    refine h.containsEscape_ascii ?_
    simp only [List.mem_singleton, forall_eq]
    exact ⟨'/', by decide, by decide, .inl rfl⟩
  unfold posixPath
  rw [if_neg (by simp), if_neg (by simp [hescape]), h.decode_eq]

theorem windowsPath_encoded {letter : Char} {rest p q : Text} (hletter : letter.isAlpha = true)
    (hrest : '/' ∉ rest) (hp : withoutSlash p = letter :: ':' :: '/' :: Text.replace '\\' '/' rest)
    (hback : '\\' ∉ p) (h : Percent.Encodes p q) :
    windowsPath [] q = .ok (letter :: ':' :: '\\' :: rest) := by
  have hescape : Percent.containsEscape [0x2F, 0x5C] q = false := by
    refine h.containsEscape_ascii ?_
    simp only [List.mem_cons, List.not_mem_nil, or_false, forall_eq_or_imp, forall_eq]
    exact ⟨⟨'/', by decide, by decide, .inl rfl⟩, '\\', by decide, by decide, .inr hback⟩
  have hdrive : hasDriveLetter p = true := hasDriveLetter_iff.mpr ⟨letter, _, hp, hletter, .inl rfl⟩
  rw [windowsPath_eq_ok_iff (.inl rfl), h.decode_eq]
  refine ⟨hescape, hdrive, ?_⟩
  rw [hp, replace_cons_of_ne (not_separator_of_isAlpha hletter).1, replace_cons_of_ne (by decide)]
  change _ = letter :: ':' :: '\\' :: Text.replace '/' '\\' (Text.replace '\\' '/' rest)
  rw [replace_replace hrest]

end Url

namespace Store
variable {s : Store} {v : Value} {p : Text}

/-- **A file URL of the machine itself** with the given path. -/
structure IsLocalUrl (s : Store) (v : Value) (p : Text) : Prop where
  scheme : s.attribute? v "scheme" = some (.ofString "file")
  host : s.urlHost v = .text [] ∨ s.urlHost v = .text Url.localhost
  path : s.attribute? v "path" = some (.text p)

theorem urlPath_local (h : s.IsLocalUrl v p) (st : Style) :
    s.urlPath st v = (Url.filePath st [] p).mapError Fault.url := by
  have hlocal : Url.filePath st Url.localhost p = Url.filePath st [] p := by
    cases st <;> simp [Url.filePath, Url.posixPath, Url.windowsPath]
  unfold urlPath
  rw [if_neg (by simp [h.scheme]), nonemptyAttribute?_getD h.path]
  rcases h.host with hhost | hhost <;> rw [hhost]
  exact congrArg (Except.mapError Fault.url) hlocal

theorem urlPath_eq_ok_iff (h : s.IsLocalUrl v p) {st : Style} {t : Text} :
    s.urlPath st v = .ok t ↔ Url.filePath st [] p = .ok t := by
  rw [urlPath_local h]
  cases Url.filePath st [] p <;> simp [Except.mapError]

/-- **Percent encodings of a path are read back**, none is refused for an escaped separator. In
Windows style the path is one below the root of a drive, the slashes of the encoded text are its
backslashes, and a slash may stand before the drive. -/
theorem urlPath_encoded {q : Text} (h : s.IsLocalUrl v q) :
    (∀ p, Url.Percent.Encodes p q → s.urlPath .posix v = .ok p) ∧
    ∀ letter rest, letter.isAlpha = true → '/' ∉ rest →
      (Url.Percent.Encodes (letter :: ':' :: '/' :: Text.replace '\\' '/' rest) q ∨
        ∃ q', q = '/' :: q' ∧
        Url.Percent.Encodes (letter :: ':' :: '/' :: Text.replace '\\' '/' rest) q') →
      s.urlPath .windows v = .ok (letter :: ':' :: '\\' :: rest) := by
  constructor
  · intro p hp
    exact (urlPath_eq_ok_iff h).mpr (Url.posixPath_encoded hp)
  · intro letter rest hletter hrest hq
    have hback : '\\' ∉ letter :: ':' :: '/' :: Text.replace '\\' '/' rest := by
      have hne : '\\' ≠ letter := (Url.not_separator_of_isAlpha hletter).2.symm
      simp only [List.mem_cons, not_or]
      exact ⟨hne, by decide, by decide, Url.backslash_not_mem_replace rest⟩
    rw [urlPath_eq_ok_iff h]
    rcases hq with hq | ⟨q', rfl, hq⟩
    · have hslash : Url.withoutSlash (letter :: ':' :: '/' :: Text.replace '\\' '/' rest) =
          letter :: ':' :: '/' :: Text.replace '\\' '/' rest :=
        Url.withoutSlash_of_ne (by simpa using (Url.not_separator_of_isAlpha hletter).1)
      exact Url.windowsPath_encoded hletter hrest hslash hback hq
    · have hback' : '\\' ∉ '/' :: letter :: ':' :: '/' :: Text.replace '\\' '/' rest := by
        rw [List.mem_cons, not_or]
        exact ⟨by decide, hback⟩
      exact Url.windowsPath_encoded hletter hrest rfl hback' (.keep (by decide) hq)

/-- A URL of the machine itself with the given path. -/
def localUrl (p : String) : Store :=
  { cells := #[.object [("scheme", .ofString "file"), ("hostname", .ofString "localhost"),
    ("path", .ofString p)] []] }

theorem isLocalUrl_localUrl (p : String) : (localUrl p).IsLocalUrl (.ref 0) p.toList :=
  ⟨rfl, .inr rfl, rfl⟩

/-- Digits of either case, a name that looks like an escape, and a letter of two bytes. -/
theorem urlPath_encoded_cases :
    (localUrl "/C:/%c3%A9%252f").urlPath .posix (.ref 0) = .ok "/C:/é%2f".toList ∧
      (localUrl "/C:/%c3%A9%252f").urlPath .windows (.ref 0) = .ok "C:\\é%2f".toList := by
  have hletter : Url.Percent.Escapes (String.utf8EncodeChar 'é') "%c3%A9".toList := by
    have hbytes : String.utf8EncodeChar 'é' = [0xC3, 0xA9] := by decide
    rw [hbytes]
    exact .cons (.inl rfl) (.inl rfl) (.cons (.inr rfl) (.inl rfl) .nil)
  have hpercent : Url.Percent.Escapes (String.utf8EncodeChar '%') "%25".toList := by
    have hbytes : String.utf8EncodeChar '%' = [0x25] := by decide
    rw [hbytes]
    exact .cons (.inl rfl) (.inl rfl) .nil
  have hname : Url.Percent.Encodes "é%2f".toList "%c3%A9%252f".toList :=
    .escape (by decide) hletter
      (.escape (by decide) hpercent (.keep (by decide) (.keep (by decide) .nil)))
  have hdrive : Url.Percent.Encodes "C:/é%2f".toList "C:/%c3%A9%252f".toList :=
    .keep (by decide) (.keep (by decide) (.keep (by decide) hname))
  obtain ⟨hposix, hwindows⟩ := urlPath_encoded (isLocalUrl_localUrl "/C:/%c3%A9%252f")
  exact ⟨hposix _ (.keep (by decide) hdrive),
    hwindows 'C' "é%2f".toList (by decide) (by decide) (.inr ⟨_, rfl, hdrive⟩)⟩

/-- **In Windows style a path is at a drive** if and only if no line break alone follows the drive
in the URL; if one does, it follows the drive of the path as well. -/
theorem urlPath_atDrive_iff (h : s.IsLocalUrl v p) {t : Text} (ht : s.urlPath .windows v = .ok t) :
    (Url.AtDrive t ↔ ¬ Url.AtLineBreak (Url.withoutSlash (Url.Percent.decode p))) ∧
      (Url.AtDrive t ∨ Url.AtLineBreak t) := by
  obtain ⟨-, hdrive, rfl⟩ := (Url.windowsPath_eq_ok_iff (.inl rfl)).mp ((urlPath_eq_ok_iff h).mp ht)
  rcases Url.atDrive_or_atLineBreak hdrive with ⟨hat, hnot⟩ | ⟨hat, hbreak⟩
  · exact ⟨iff_of_true hat hnot, .inl hat⟩
  · exact ⟨iff_of_false (fun hd => hd.not_atLineBreak hat) (fun hn => hn hbreak), .inr hat⟩

/-- A line break that begins a name. -/
theorem urlPath_atDrive_iff_name : ∃ t, (localUrl "/c:/%0A").urlPath .windows (.ref 0) = .ok t ∧
    Url.AtDrive t := by
  have ht : (localUrl "/c:/%0A").urlPath .windows (.ref 0) = .ok "c:\\\n".toList :=
    (urlPath_eq_ok_iff (isLocalUrl_localUrl "/c:/%0A")).mpr (by cbv)
  have hdecode : Url.withoutSlash (Url.Percent.decode "/c:/%0A".toList) =
      ['c', ':', '/', '\n'] := by cbv
  have hbreak : ¬ Url.AtLineBreak (Url.withoutSlash (Url.Percent.decode "/c:/%0A".toList)) := by
    rw [hdecode]
    rintro ⟨letter, hbreak, -⟩
    simp at hbreak
  exact ⟨_, ht, (urlPath_atDrive_iff (isLocalUrl_localUrl "/c:/%0A") ht).1.mpr hbreak⟩

/-- **A line break alone behind the drive** is taken for the end of the path. -/
theorem urlPath_lineBreak : (localUrl "/C:%0A").urlPath .windows (.ref 0) = .ok "C:\n".toList ∧
    ¬ Url.AtDrive "C:\n".toList := by
  have hbreak : Url.AtLineBreak "C:\n".toList := ⟨'C', by decide, by decide⟩
  exact ⟨(urlPath_eq_ok_iff (isLocalUrl_localUrl "/C:%0A")).mpr (by cbv),
    fun hdrive => hdrive.not_atLineBreak hbreak⟩

end Store

end VirtualFile
