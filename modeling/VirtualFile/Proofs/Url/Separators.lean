import VirtualFile.Naming
import VirtualFile.Proofs.Path.Drives
import VirtualFile.Proofs.Url.Percent
/-!
# Separators of file URLs

The path that a file URL names has its separators where the URL has them: resolving escapes never
creates, removes or moves one, because escaped separators are refused before and every separator is
a delimiter (`Percent.split_decode`). The main statement is `Store.split_urlPath`.
-/

namespace VirtualFile

open VirtualFile.Path (Style)

namespace Url

/-! ### Separators as delimiters -/

theorem delimiter_of_isSep {st : Style} {c : Char} (h : st.isSep c = true) :
    Percent.Delimiter c := by
  have hc : c = '/' ∨ c = '\\' := by
    cases st with
    | posix => exact Or.inl (by simpa [Style.isSep] using h)
    | windows => simpa [Style.isSep] using h
  rcases hc with rfl | rfl <;> constructor <;> decide

theorem split_decode_posix {p : Text} (hp : Percent.containsEscape [0x2F] p = false) :
    Text.split Style.posix.isSep (Percent.decode p) =
      (Text.split Style.posix.isSep p).map Percent.decode := by
  refine Percent.split_decode (fun c hc => delimiter_of_isSep hc) fun c hc => ?_
  have hc' : c = '/' := by simpa [Style.isSep] using hc
  exact hc' ▸ hp

theorem split_decode_windows {p : Text} (hp : Percent.containsEscape [0x2F, 0x5C] p = false) :
    Text.split Style.windows.isSep (Percent.decode p) =
      (Text.split Style.windows.isSep p).map Percent.decode := by
  refine Percent.split_decode (fun c hc => delimiter_of_isSep hc) fun c hc => ?_
  refine Bool.eq_false_of_not_eq_true fun h => ?_
  have hmem : c.toUInt8 ∈ ([0x2F, 0x5C] : List UInt8) := by
    have hc' : c = '/' ∨ c = '\\' := by simpa [Style.isSep] using hc
    rcases hc' with rfl | rfl <;> decide
  simpa [hp] using Percent.containsEscape_of_mem hmem h

/-! ### The slash before a drive letter -/

/-- A text without the slash that it may begin with. -/
def withoutSlash : Text → Text
  | '/' :: t => t
  | t => t

theorem withoutSlash_of_ne {t : Text} (ht : t.head? ≠ some '/') : withoutSlash t = t := by
  unfold withoutSlash
  split
  · next u => exact absurd rfl ht
  · rfl

theorem hasDriveLetter_iff {t : Text} : hasDriveLetter t = true ↔
    ∃ letter rest, withoutSlash t = letter :: ':' :: rest ∧ letter.isAlpha = true ∧
      (rest.head? = some '/' ∨ rest = [] ∨ rest = ['\n']) := by
  unfold hasDriveLetter
  dsimp only
  split
  · next l r hl =>
    rw [Bool.and_eq_true, Bool.or_eq_true, Bool.or_eq_true, beq_iff_eq, beq_iff_eq, beq_iff_eq,
      or_assoc]
    constructor
    · intro h
      exact ⟨l, r, hl, h⟩
    · rintro ⟨letter, rest, he, h⟩
      cases hl.symm.trans he
      exact h
  · next hnone =>
    constructor
    · intro h
      exact absurd h Bool.false_ne_true
    · rintro ⟨letter, rest, he, -⟩
      exact absurd he (hnone letter rest)

theorem dropWhile_of_hasDriveLetter {t : Text} (h : hasDriveLetter t = true) :
    t.dropWhile (· == '/') = withoutSlash t := by
  obtain ⟨letter, rest, he, hl, -⟩ := hasDriveLetter_iff.mp h
  have hne : (letter == '/') = false := by
    rw [beq_eq_false_iff_ne]
    rintro rfl
    exact absurd hl (by decide)
  unfold withoutSlash at he ⊢
  split at he
  · rw [List.dropWhile_cons_of_pos (by decide), he, List.dropWhile_cons, hne]
    rfl
  · rw [he, List.dropWhile_cons, hne]
    rfl

/-- A decoded path begins with a slash only if the path does:
otherwise its first piece is not empty. -/
theorem head?_of_head?_decode {p : Text} (hp : Percent.containsEscape [0x2F] p = false)
    (h : (Percent.decode p).head? = some '/') : p.head? = some '/' := by
  obtain ⟨u, hu⟩ : ∃ u, Percent.decode p = '/' :: u := List.head?_eq_some_iff.mp h
  have hsplit := split_decode_posix hp
  rw [hu, Text.split, if_pos (by decide)] at hsplit
  cases p with
  | nil => rw [Percent.decode_nil] at hu; cases hu
  | cons c p =>
    by_cases hc : c = '/'
    · rw [hc]; rfl
    · rw [Text.split, if_neg (by simpa [Style.isSep] using hc)] at hsplit
      split at hsplit
      all_goals
        have := Percent.decode_eq_nil (List.cons.inj hsplit).1.symm
        simp at this

theorem decode_withoutSlash {p : Text} (hp : Percent.containsEscape [0x2F] p = false) :
    withoutSlash (Percent.decode p) = Percent.decode (withoutSlash p) := by
  by_cases h : p.head? = some '/'
  · obtain ⟨u, rfl⟩ := List.head?_eq_some_iff.mp h
    have hdec := Percent.decode_append_cons (@delimiter_of_isSep .posix '/' rfl) [] u
    rw [List.nil_append, Percent.decode_nil, List.nil_append] at hdec
    rw [hdec]
    rfl
  · rw [withoutSlash_of_ne h, withoutSlash_of_ne fun hd => h (head?_of_head?_decode hp hd)]

/-! ### Paths of file URLs -/

theorem split_posixPath {host p t : Text} (h : posixPath host p = .ok t) :
    Text.split (· == '/') t = (Text.split (· == '/') p).map Percent.decode := by
  unfold posixPath at h
  split_ifs at h with h1 h2
  cases h
  exact split_decode_posix (Bool.eq_false_of_not_eq_true h2)

/-- **Which paths are taken without a server**, and what becomes of them. -/
theorem windowsPath_eq_ok_iff {host p t : Text} (hhost : host = [] ∨ host = localhost) :
    windowsPath host p = .ok t ↔
    Percent.containsEscape [0x2F, 0x5C] p = false ∧ hasDriveLetter (Percent.decode p) = true ∧
      t = Text.replace '/' '\\' (withoutSlash (Percent.decode p)) := by
  have hlocal : ¬ (host ≠ [] ∧ host ≠ localhost) :=
    not_and_or.mpr (hhost.imp not_not.mpr not_not.mpr)
  unfold windowsPath
  dsimp only
  rw [if_neg hlocal]
  constructor
  · intro h
    split_ifs at h with hescape hdrive
    rw [dropWhile_of_hasDriveLetter hdrive] at h
    exact ⟨Bool.eq_false_of_not_eq_true hescape, hdrive, (Except.ok.inj h).symm⟩
  · rintro ⟨hescape, hdrive, rfl⟩
    rw [if_neg (by simp [hescape]), if_pos hdrive, dropWhile_of_hasDriveLetter hdrive]

theorem split_windowsPath {host p t : Text} (hhost : host = [] ∨ host = localhost)
    (h : windowsPath host p = .ok t) :
    Text.split (· == '\\') t =
      (Text.split Style.windows.isSep (withoutSlash p)).map Percent.decode := by
  obtain ⟨hp, -, rfl⟩ := (windowsPath_eq_ok_iff hhost).mp h
  have hslash : Percent.containsEscape [0x2F] p = false := Bool.eq_false_of_not_eq_true fun he =>
    Bool.eq_false_iff.mp hp (Percent.containsEscape_of_mem (by decide) he)
  have hrest : Percent.containsEscape [0x2F, 0x5C] (withoutSlash p) = false := by
    unfold withoutSlash
    split
    · exact Bool.eq_false_of_not_eq_true fun he =>
        Bool.eq_false_iff.mp hp (Percent.containsEscape_cons '/' he)
    · exact hp
  rw [decode_withoutSlash hslash, Path.split_replace, split_decode_windows hrest]

theorem split_sharePath {host p t : Text} (hhost : host ≠ [] ∧ host ≠ localhost)
    (h : windowsPath host p = .ok t) :
    ∃ rest, t = '\\' :: '\\' :: host ++ rest ∧
      Text.split (· == '\\') rest = (Text.split Style.windows.isSep p).map Percent.decode := by
  simp only [windowsPath, if_pos hhost] at h
  split_ifs at h with h1
  · cases h
    refine ⟨_, rfl, ?_⟩
    rw [Path.split_replace, split_decode_windows (Bool.eq_false_of_not_eq_true h1)]

end Url

namespace Store

/-- An attribute that is a text is read as this text, be it empty or not. -/
theorem nonemptyAttribute?_getD {s : Store} {v : Value} {name : String} {p : Text}
    (h : s.attribute? v name = some (.text p)) :
    (s.nonemptyAttribute? v name).getD (.text []) = .text p := by
  rw [nonemptyAttribute?, h, Option.filter_some]
  by_cases hp : p = [] <;> simp [truthy, hp]

theorem urlPath_of_text {s : Store} {v : Value} {host p : Text} (st : Style)
    (hhost : s.urlHost v = .text host) (hpath : s.attribute? v "path" = some (.text p)) {t : Text}
    (h : s.urlPath st v = .ok t) : Url.filePath st host p = .ok t := by
  unfold urlPath at h
  split_ifs at h
  rw [hhost, nonemptyAttribute?_getD hpath] at h
  cases hf : Url.filePath st host p with
  | ok u => simpa [hf, Except.mapError] using h
  | error e => simp [hf, Except.mapError] at h

/-- **Resolving the escapes of a file URL leaves every separator in its place.** In posix style the
pieces of the path are the decoded pieces of the URL's path. In Windows style the URL's path is cut
at both separators and the path at backslashes; a slash before the drive letter is dropped, and the
path of a share begins with its server. -/
theorem split_urlPath {s : Store} {st : Style} {v : Value} {host p t : Text}
    (hhost : s.urlHost v = .text host) (hpath : s.attribute? v "path" = some (.text p))
    (h : s.urlPath st v = .ok t) :
    match st with
    | .posix => Text.split (· == '/') t = (Text.split (· == '/') p).map Url.Percent.decode
    | .windows =>
      if host = [] ∨ host = Url.localhost then
        Text.split (· == '\\') t =
          (Text.split Style.windows.isSep (Url.withoutSlash p)).map Url.Percent.decode
      else
        ∃ rest, t = '\\' :: '\\' :: host ++ rest ∧
          Text.split (· == '\\') rest =
            (Text.split Style.windows.isSep p).map Url.Percent.decode := by
  have hf := urlPath_of_text st hhost hpath h
  cases st with
  | posix => exact Url.split_posixPath hf
  | windows =>
    dsimp only
    split_ifs with hl
    · exact Url.split_windowsPath hl hf
    · exact Url.split_sharePath (not_or.mp hl) hf

/-- A URL with a truncated UTF-8 sequence before a `%` that begins no
escape, between two separators. -/
def driveUrl : Store :=
  { cells := #[.object [("scheme", .ofString "file"),
    ("path", .ofString "/c:/a%20b\\%e4%2/x%")] []] }

theorem split_urlPath_driveUrl :
    ∃ t, driveUrl.urlPath .windows (.ref 0) = .ok t ∧
      Text.split (· == '\\') t = ["c:", "a b", "\uFFFD%2", "x%"].map String.toList := by
  have ht : driveUrl.urlPath .windows (.ref 0) = .ok "c:\\a b\\\uFFFD%2\\x%".toList := by cbv
  have h := split_urlPath (by decide : driveUrl.urlHost (.ref 0) = .text [])
    (by decide : driveUrl.attribute? (.ref 0) "path" = some (.text "/c:/a%20b\\%e4%2/x%".toList)) ht
  exact ⟨_, ht, (if_pos (Or.inl rfl) ▸ h).trans (by cbv)⟩

end Store

end VirtualFile
