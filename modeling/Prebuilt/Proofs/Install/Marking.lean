import Prebuilt.Proofs.Archive.Downloading
import Prebuilt.Proofs.Install.Configuring
import Prebuilt.Proofs.Text.Decoding
/-!
What a marker says. An address that an archive was downloaded from, of a type that its name tells, is read back from its line.
-/
set_option autoImplicit false

namespace Prebuilt

variable {url type : Text} {c : CodePoint}

/-! ## Blanks -/

def blankValues : List Nat :=
  [9, 10, 11, 12, 13, 28, 29, 30, 31, 32, 0x85, 0xA0, 0x1680, 0x2000, 0x2001, 0x2002, 0x2003, 0x2004, 0x2005, 0x2006, 0x2007,
    0x2008, 0x2009, 0x200A, 0x2028, 0x2029, 0x202F, 0x205F, 0x3000]

theorem CodePoint.ofValue_value (d : Char) : ofValue (CodePoint.char d).value = .char d := Utf8.ofValue_of_valid d.valid

theorem lower_of_isBlank (h : c.isBlank = true) : c.lower = [c] := by
  have hvalues : ∀ n ∈ blankValues, (CodePoint.ofValue n).lower = [CodePoint.ofValue n] := by decide +kernel
  cases c with
  | lone n => rfl
  | char d =>
    have hmem : (CodePoint.char d).value ∈ blankValues := by
      simp only [CodePoint.isBlank, Bool.or_eq_true, Bool.and_eq_true, decide_eq_true_eq, beq_iff_eq] at h
      simp only [blankValues, List.mem_cons, List.not_mem_nil, or_false]
      omega
    rw [← CodePoint.ofValue_value d]
    exact hvalues _ hmem

theorem isBlank_of_isAsciiLetter (h : c.isAsciiLetter = true) : c.isBlank = false := by
  simp only [CodePoint.isAsciiLetter, CodePoint.isBlank] at *
  simp at *
  omega

/-! ## Ends of an address -/

theorem getLast?_lower (t : Text) (hc : c ≠ .char 'Σ') : ∃ front, Text.lower (t ++ [c]) = front ++ c.lower := by
  obtain ⟨lowered, hlowered⟩ := Text.lowerFrom_append [] t [c]
  refine ⟨lowered, ?_⟩
  rw [Text.lower, hlowered, Text.lowerFrom, if_neg hc, Text.lowerFrom, List.append_nil]

/-- No blank ends an address with the name of an archive. -/
theorem IsTyped.getLast? (h : IsTyped url type) : ∃ c, url.getLast? = some c ∧ c.isBlank = false := by
  obtain ⟨suffix, hmem, hends⟩ := h
  have hsuffixes : ∀ entry ∈ archiveSuffixes, ∃ x ∈ entry.1.getLast?, x.isBlank = false := by decide
  obtain ⟨x, hx, hplain⟩ := hsuffixes _ hmem
  obtain ⟨front, rfl⟩ := List.getLast?_eq_some_iff.1 hx
  rcases List.eq_nil_or_concat' (Text.afterLast '/' url) with hnil | ⟨name, c, hname⟩
  · rw [hnil] at hends
    simp [Text.lower, Text.lowerFrom] at hends
  · have hlast : url.getLast? = some c := by
      rcases Text.eq_afterLast_or '/' url with he | ⟨a, he⟩ <;> rw [he, hname]
      · exact List.getLast?_concat
      · rw [← List.cons_append, ← List.append_assoc, List.getLast?_concat]
    refine ⟨c, hlast, Bool.eq_false_iff.2 fun hblank => ?_⟩
    have hc : c ≠ .char 'Σ' := by
      rintro rfl
      revert hblank
      decide
    obtain ⟨lowered, hlower⟩ := getLast?_lower name hc
    obtain ⟨rest, hrest⟩ := hends
    rw [hname, hlower, lower_of_isBlank hblank, ← List.append_assoc] at hrest
    obtain rfl : x = c := by simpa using (List.append_inj' hrest rfl).2
    rw [hplain] at hblank
    cases hblank

theorem Url.parse_ok {u : Url} (h : Url.parse url = .ok u) : url.find? Url.isControl = none ∧ Url.ofParts (Url.splitParts url) none = .ok u := by
  rw [Url.parse] at h
  split at h
  · cases h
  · split at h
    · cases h
    · rename_i hnone
      exact ⟨hnone, h⟩

theorem Url.ofParts_scheme {parts : Url.Parts} {u : Url} (h : Url.ofParts parts none = .ok u) : u.scheme = Text.toLowerAscii parts.scheme := by
  simp only [Url.ofParts, bind, Except.bind] at h
  repeat' split at h
  all_goals cases h
  rfl

theorem Url.splitScheme_ne_nil (h : (Url.splitScheme url).1 ≠ []) : ∃ c, url.head? = some c ∧ c.isAsciiLetter = true := by
  rw [Url.splitScheme] at h
  split at h
  · split at h
    · exact absurd rfl h
    · rename_i c rest htake
      have hletter : c.isAsciiLetter = true := by
        by_contra hnot
        exact h (by simp [hnot])
      have hwhole := List.takeWhile_append_dropWhile (p := Url.isSchemePart) (l := url)
      rw [htake] at hwhole
      exact ⟨c, by rw [← hwhole]; rfl, hletter⟩
  · exact absurd rfl h

/-- Only an absolute address has a scheme. -/
theorem Url.IsWeb.parse (h : Url.IsWeb url) : ∃ u, Url.parse url = .ok u ∧ u.scheme ≠ [] := by
  obtain ⟨u, hu, hscheme⟩ := h
  have hne : u.scheme ≠ [] := by
    intro hnil
    rw [hnil] at hscheme
    cases hscheme
  simp only [Url.ofRequest, bind, Except.bind] at hu
  split at hu
  · cases hu
  rename_i parsed hparsed
  split at hu
  · rw [Url.ofParts_scheme hu] at hne
    exact absurd rfl hne
  · cases hu
    exact ⟨_, hparsed, hne⟩

theorem Url.IsWeb.head? (h : Url.IsWeb url) : ∃ c, url.head? = some c ∧ c.isBlank = false := by
  obtain ⟨u, hu, hne⟩ := h.parse
  obtain ⟨-, hparts⟩ := Url.parse_ok hu
  have hscheme : (Url.splitScheme url).1 ≠ [] := by
    intro hnil
    refine hne ?_
    rw [Url.ofParts_scheme hparts]
    show Text.toLowerAscii (Url.splitScheme url).1 = []
    rw [hnil]
    rfl
  obtain ⟨c, hc, hletter⟩ := Url.splitScheme_ne_nil hscheme
  exact ⟨c, hc, isBlank_of_isAsciiLetter hletter⟩

theorem Url.IsWeb.return_not_mem (h : Url.IsWeb url) : CodePoint.char '\r' ∉ url := by
  obtain ⟨u, hu, -⟩ := h.parse
  intro hmem
  have hcontrol := List.find?_eq_none.1 (Url.parse_ok hu).1 _ hmem
  exact hcontrol (by decide)

/-- The line that holds such an address is read as the address. -/
theorem strip_marker (htype : archiveType url = .ok type) (hweb : Url.IsWeb url) : (url ++ "\n").unifyLineEnds.strip = url := by
  obtain ⟨first, hfirst, hfirst'⟩ := hweb.head?
  obtain ⟨last, hlast, hlast'⟩ := (archiveType_ok_iff.1 htype).getLast?
  rw [Text.unifyLineEnds_eq, Text.strip_line hfirst hfirst' hlast hlast']
  intro hmem
  rcases List.mem_append.1 hmem with hmem | hmem
  · exact hweb.return_not_mem hmem
  · revert hmem
    decide

end Prebuilt
