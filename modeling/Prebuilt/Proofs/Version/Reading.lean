import Prebuilt.Proofs.Files.Paths
import Prebuilt.Version
/-!
How a version is read. The check cuts a text at its first plus sign, then at its first dash and then at every dot. No
part that it takes holds a sign it cuts at, so what it accepts is what is `Written` from such parts.
-/
set_option autoImplicit false

namespace Prebuilt.Text

variable {sep : CodePoint} {t a b : Text}

theorem cut?_of_not_mem (h : sep ∉ t) : cut? sep t = none := by
  have hall : ∀ c ∈ t, (c != sep) = true := fun c hc => by simpa using fun he : c = sep => h (he ▸ hc)
  simp [cut?, List.dropWhile_eq_nil_iff.2 hall]

theorem cut?_append_cons (h : sep ∉ a) : cut? sep (a ++ sep :: b) = some (a, b) := by
  induction a with
  | nil => simp [cut?]
  | cons c r ih =>
    rw [List.mem_cons, not_or] at h
    have hc : (c != sep) = true := by simpa using Ne.symm h.1
    have hr := ih h.2
    simp only [cut?] at hr ⊢
    rw [List.cons_append, List.dropWhile_cons_of_pos (by simpa using hc), List.takeWhile_cons_of_pos (by simpa using hc)]
    split at hr
    · cases hr
    · simp_all

theorem mem_joinWith {c : CodePoint} {parts : List Text} (h : c ∈ joinWith [sep] parts) :
    c = sep ∨ ∃ part ∈ parts, c ∈ part := by
  induction parts with
  | nil => simp [joinWith] at h
  | cons p ps ih =>
    cases ps with
    | nil => exact .inr ⟨p, by simp, h⟩
    | cons q qs =>
      simp only [joinWith, List.mem_append, List.mem_singleton] at h
      rcases h with (h | h) | h
      · exact .inr ⟨p, by simp, h⟩
      · exact .inl h
      · rcases ih h with h | ⟨part, hpart, hc⟩
        · exact .inl h
        · exact .inr ⟨part, List.mem_cons_of_mem _ hpart, hc⟩

end Prebuilt.Text

namespace Prebuilt.Version

variable {t major minor patch : Text} {parts preRelease build : List Text}

/-- Parts with dots between them after a mark, or nothing if there are none. -/
def marked (mark : CodePoint) : List Text → Text
  | [] => []
  | parts => mark :: Text.joinWith ['.'] parts

def assembled (major minor patch : Text) (preRelease build : List Text) : Text :=
  Text.joinWith ['.'] [major, minor, patch] ++ marked '-' preRelease ++ marked '+' build

/-- A text of three numbers, parts after a dash and words after a plus sign. -/
def Written (number part word : Text → Prop) (t : Text) : Prop :=
  ∃ major minor patch preRelease build, t = assembled major minor patch preRelease build ∧
    number major ∧ number minor ∧ number patch ∧ (∀ x ∈ preRelease, part x) ∧ ∀ x ∈ build, word x

theorem subset_marked {mark : CodePoint} {x : Text} (h : x ∈ parts) : x ⊆ marked mark parts := by
  cases parts with
  | nil => cases h
  | cons y ys => exact List.Subset.trans (Text.subset_joinWith h) (List.subset_cons_self _ _)

/-- What is known of the pieces may be used of their characters, which are all characters of the text. -/
theorem Written.imp {number part word number' part' word' : Text → Prop} (h : Written number part word t)
    (hnumber : ∀ x ⊆ t, number x → number' x) (hpart : ∀ x ⊆ t, part x → part' x)
    (hword : ∀ x ⊆ t, word x → word' x) : Written number' part' word' t := by
  obtain ⟨a, b, c, pre, build, rfl, ha, hb, hc, hpre, hbuild⟩ := h
  have hcore : Text.joinWith ['.'] [a, b, c] ⊆ assembled a b c pre build := fun d hd => by simp [assembled, hd]
  have hdash : marked '-' pre ⊆ assembled a b c pre build := fun d hd => by simp [assembled, hd]
  have hplus : marked '+' build ⊆ assembled a b c pre build := fun d hd => by simp [assembled, hd]
  have hnumbers (x : Text) (hx : x ∈ [a, b, c]) : x ⊆ assembled a b c pre build := List.Subset.trans (Text.subset_joinWith hx) hcore
  exact ⟨a, b, c, pre, build, rfl, hnumber a (hnumbers a (by simp)) ha, hnumber b (hnumbers b (by simp)) hb,
    hnumber c (hnumbers c (by simp)) hc, fun x hx => hpart x (List.Subset.trans (subset_marked hx) hdash) (hpre x hx),
    fun x hx => hword x (List.Subset.trans (subset_marked hx) hplus) (hbuild x hx)⟩

/-- One or more letters, dashes and digits `0` to `9`. -/
def IsWord (t : Text) : Prop := t ≠ [] ∧ ∀ c ∈ t, isIdentifierPart c = true

/-- What a pre-release may be made of. -/
def IsPart (t : Text) : Prop := isNumber t = true ∨ isName t = true

/-- A character that a part may hold. -/
def IsPartCharacter (c : CodePoint) : Prop := isIdentifierPart c = true ∨ c.isDigit = true

theorem isDigit_of_isAsciiDigit {c : CodePoint} (h : c.isAsciiDigit = true) : c.isDigit = true := by
  have hascii : c.isAscii = true := by simp [CodePoint.isAsciiDigit, CodePoint.isAscii] at *; omega
  simp [CodePoint.isDigit, CodePoint.digit?, hascii, h]

theorem isAsciiDigit_of_isDigit {c : CodePoint} (hascii : c.isAscii = true) (h : c.isDigit = true) :
    c.isAsciiDigit = true := by
  by_contra hc
  simp [CodePoint.isDigit, CodePoint.digit?, hascii, hc] at h

theorem digits_of_isNumber (h : isNumber t = true) : ∀ c ∈ t, c.isDigit = true := by
  cases t with
  | nil => simp [isNumber] at h
  | cons c r =>
    simp only [isNumber] at h
    split at h
    · rename_i hc
      obtain rfl : r = [] := by simpa using h
      rw [hc]
      exact fun d hd => List.mem_singleton.1 hd ▸ by decide
    · simp only [Bool.and_eq_true, List.all_eq_true] at h
      simpa using ⟨isDigit_of_isAsciiDigit h.1, h.2⟩

theorem isAscii_of_isLetter {c : CodePoint} (h : isLetter c = true) : c.isAscii = true := by
  simp only [isLetter, CodePoint.isAsciiLetter, CodePoint.isAscii, Bool.or_eq_true, Bool.and_eq_true,
    decide_eq_true_eq, beq_iff_eq] at h ⊢
  rcases h with h | rfl
  · omega
  · decide

theorem not_isAsciiDigit_of_isLetter {c : CodePoint} (h : isLetter c = true) : c.isAsciiDigit = false := by
  simp only [isLetter, CodePoint.isAsciiLetter, CodePoint.isAsciiDigit, Bool.or_eq_true, Bool.and_eq_true,
    decide_eq_true_eq, beq_iff_eq, Bool.and_eq_false_iff, decide_eq_false_iff_not] at h ⊢
  rcases h with h | rfl
  · omega
  · decide

theorem isName_iff : isName t = true ↔
    ∃ digits c r, t = digits ++ c :: r ∧ (∀ d ∈ digits, d.isDigit = true) ∧ isLetter c = true ∧
      ∀ d ∈ r, isIdentifierPart d = true := by
  have hsplit := List.takeWhile_append_dropWhile (p := CodePoint.isDigit) (l := t)
  constructor
  · intro h
    unfold isName at h
    split at h
    · cases h
    · rename_i c r hd
      rw [hd] at hsplit
      simp only [Bool.and_eq_true, List.all_eq_true] at h
      exact ⟨_, c, r, hsplit.symm, fun d hd => List.mem_takeWhile_imp hd, h⟩
  · rintro ⟨digits, c, r, rfl, hdigits, hc, hr⟩
    have hletter : c.isDigit = false := by
      by_contra hd
      have hdigit := isAsciiDigit_of_isDigit (isAscii_of_isLetter hc) (by simpa using hd)
      rw [not_isAsciiDigit_of_isLetter hc] at hdigit
      cases hdigit
    have hdrop : (digits ++ c :: r).dropWhile CodePoint.isDigit = c :: r := by
      rw [List.dropWhile_append_of_pos hdigits, List.dropWhile_cons_of_neg (by simp [hletter])]
    simp only [isName, hdrop, Bool.and_eq_true, List.all_eq_true]
    exact ⟨hc, hr⟩

theorem characters_of_isPart (h : IsPart t) : ∀ c ∈ t, IsPartCharacter c := by
  intro c hc
  rcases h with h | h
  · exact .inr (digits_of_isNumber h c hc)
  · obtain ⟨digits, d, r, rfl, hdigits, hd, hr⟩ := isName_iff.1 h
    simp only [List.mem_append, List.mem_cons] at hc
    rcases hc with hc | rfl | hc
    · exact .inr (hdigits c hc)
    · exact .inl (by simp [isIdentifierPart, hd])
    · exact .inl (hr c hc)

/-- None of the signs that a version is cut at is part of what it is made of, and no line end is. -/
theorem isPartCharacter_ne {c : CodePoint} (h : IsPartCharacter c) : c ≠ '.' ∧ c ≠ '+' ∧ c ≠ '\n' := by
  refine ⟨?_, ?_, ?_⟩ <;>
  · rintro rfl
    exact absurd h (by unfold IsPartCharacter; decide)

theorem dash_not_digit {c : CodePoint} (h : c.isDigit = true) : c ≠ '-' := by
  rintro rfl
  exact absurd h (by decide)

/-- The parts of a text all pass a test that no text with a dot in it passes. -/
theorem all_splitOn_iff {p : Text → Bool} (hdot : ∀ x, p x = true → CodePoint.char '.' ∉ x) :
    (Text.splitOn '.' t).all p = true ↔ ∃ parts ≠ [], t = Text.joinWith ['.'] parts ∧ ∀ x ∈ parts, p x = true := by
  rw [List.all_eq_true]
  constructor
  · exact fun h => ⟨_, Text.splitOn_ne_nil _ t, (Text.joinWith_splitOn _ t).symm, h⟩
  · rintro ⟨parts, hne, rfl, h⟩
    rwa [Text.splitOn_joinWith hne fun x hx => hdot x (h x hx)]

theorem isPreRelease_iff : isPreRelease t = true ↔ ∃ parts ≠ [], t = Text.joinWith ['.'] parts ∧ ∀ x ∈ parts, IsPart x := by
  have hdot (x : Text) (hx : (isNumber x || isName x) = true) : CodePoint.char '.' ∉ x := fun hmem =>
    (isPartCharacter_ne (characters_of_isPart (by simpa [IsPart] using hx) _ hmem)).1 rfl
  simpa only [isPreRelease, IsPart, Bool.or_eq_true] using all_splitOn_iff hdot

theorem isBuild_iff : isBuild t = true ↔ ∃ parts ≠ [], t = Text.joinWith ['.'] parts ∧ ∀ x ∈ parts, IsWord x := by
  have hword (x : Text) : (!x.isEmpty && x.all isIdentifierPart) = true ↔ IsWord x := by simp [IsWord]
  have hdot (x : Text) (hx : (!x.isEmpty && x.all isIdentifierPart) = true) : CodePoint.char '.' ∉ x := fun hmem =>
    (isPartCharacter_ne (.inl (((hword x).1 hx).2 _ hmem))).1 rfl
  simpa only [isBuild, hword] using all_splitOn_iff hdot

theorem isCore_iff : isCore t = true ↔ ∃ major minor patch, t = Text.joinWith ['.'] [major, minor, patch] ∧
    isNumber major = true ∧ isNumber minor = true ∧ isNumber patch = true := by
  constructor
  · intro h
    unfold isCore at h
    split at h
    · rename_i a b c hs
      simp only [Bool.and_eq_true] at h
      exact ⟨a, b, c, by rw [← hs]; exact (Text.joinWith_splitOn _ t).symm, h.1.1, h.1.2, h.2⟩
    · cases h
  · rintro ⟨a, b, c, rfl, ha, hb, hc⟩
    have hdot (x : Text) (hx : isNumber x = true) : CodePoint.char '.' ∉ x := fun hmem =>
      (isPartCharacter_ne (characters_of_isPart (.inl hx) _ hmem)).1 rfl
    have hs : Text.splitOn '.' (Text.joinWith ['.'] [a, b, c]) = [a, b, c] :=
      Text.splitOn_joinWith (by simp) (by simpa using ⟨hdot a ha, hdot b hb, hdot c hc⟩)
    simp [isCore, hs, ha, hb, hc]

/-- A check of what stands before the first mark and of what follows it, or of all the text if there is no mark in it. -/
theorem cut_iff {mark : CodePoint} {front : Text → Bool} (tail : Text → Bool) (hmark : ∀ x, front x = true → mark ∉ x) :
    (match Text.cut? mark t with
      | some (a, b) => front a && tail b
      | none => front t) = true ↔ ∃ a, front a = true ∧ (t = a ∨ ∃ b, t = a ++ mark :: b ∧ tail b = true) := by
  by_cases hmem : mark ∈ t
  · obtain ⟨a, b, rfl, ha⟩ := List.eq_append_cons_of_mem hmem
    rw [Text.cut?_append_cons ha]
    rw [Bool.and_eq_true]
    constructor
    · exact fun h => ⟨a, h.1, .inr ⟨b, rfl, h.2⟩⟩
    · rintro ⟨a', ha', rfl | ⟨b', heq, hb'⟩⟩
      · exact absurd hmem (hmark _ ha')
      · have hcut := Text.cut?_append_cons ha (b := b)
        rw [heq, Text.cut?_append_cons (hmark a' ha')] at hcut
        obtain ⟨rfl, rfl⟩ := Prod.mk.inj (Option.some.inj hcut)
        exact ⟨ha', hb'⟩
  · rw [Text.cut?_of_not_mem hmem]
    constructor
    · exact fun h => ⟨t, h, .inl rfl⟩
    · rintro ⟨a, ha, rfl | ⟨b, rfl, -⟩⟩
      · exact ha
      · simp at hmem

/-- Parts that may be left out together with their mark. -/
theorem optional_iff (mark : CodePoint) {a : Text} {p : Text → Prop} :
    (t = a ∨ ∃ b, t = a ++ mark :: b ∧ ∃ parts ≠ [], b = Text.joinWith ['.'] parts ∧ ∀ x ∈ parts, p x) ↔
      ∃ parts, t = a ++ marked mark parts ∧ ∀ x ∈ parts, p x := by
  constructor
  · rintro (rfl | ⟨b, rfl, parts, hne, rfl, hp⟩)
    · exact ⟨[], by simp [marked], by simp⟩
    · refine ⟨parts, ?_, hp⟩
      rw [marked.eq_2 mark parts hne]
  · rintro ⟨parts, rfl, hp⟩
    cases parts with
    | nil => exact .inl (by simp [marked])
    | cons x xs => exact .inr ⟨_, rfl, x :: xs, by simp, rfl, hp⟩

theorem characters_of_numbers (h1 : isNumber major = true) (h2 : isNumber minor = true) (h3 : isNumber patch = true) :
    ∀ x ∈ [major, minor, patch], ∀ c ∈ x, c.isDigit = true := by
  simpa using ⟨digits_of_isNumber h1, digits_of_isNumber h2, digits_of_isNumber h3⟩

theorem mem_marked {mark c : CodePoint} (hc : c ∈ marked mark parts) :
    c = mark ∨ c = '.' ∨ ∃ part ∈ parts, c ∈ part := by
  cases parts with
  | nil => simp [marked] at hc
  | cons x xs =>
    rcases List.mem_cons.1 hc with hc | hc
    · exact .inl hc
    · exact .inr (Text.mem_joinWith hc)

theorem isRelease_iff : isRelease t = true ↔ ∃ major minor patch preRelease,
    t = Text.joinWith ['.'] [major, minor, patch] ++ marked '-' preRelease ∧
      isNumber major = true ∧ isNumber minor = true ∧ isNumber patch = true ∧ ∀ x ∈ preRelease, IsPart x := by
  have hdash (x : Text) (hx : isCore x = true) : CodePoint.char '-' ∉ x := by
    obtain ⟨a, b, c, rfl, ha, hb, hc⟩ := isCore_iff.1 hx
    intro hmem
    rcases Text.mem_joinWith hmem with h | ⟨part, hpart, hin⟩
    · cases h
    · exact dash_not_digit (characters_of_numbers ha hb hc part hpart _ hin) rfl
  have h : isRelease t = true ↔ _ := cut_iff isPreRelease hdash
  simp only [h, isPreRelease_iff, optional_iff, isCore_iff]
  constructor
  · rintro ⟨a, ⟨major, minor, patch, rfl, h1, h2, h3⟩, preRelease, ht, hpre⟩
    exact ⟨major, minor, patch, preRelease, ht, h1, h2, h3, hpre⟩
  · rintro ⟨major, minor, patch, preRelease, ht, h1, h2, h3, hpre⟩
    exact ⟨_, ⟨major, minor, patch, rfl, h1, h2, h3⟩, preRelease, ht, hpre⟩

theorem characters_of_release {c : CodePoint} (h : isRelease t = true) (hc : c ∈ t) : IsPartCharacter c ∨ c = '.' := by
  obtain ⟨major, minor, patch, preRelease, rfl, h1, h2, h3, hpre⟩ := isRelease_iff.1 h
  rcases List.mem_append.1 hc with hc | hc
  · rcases Text.mem_joinWith hc with hdot | ⟨part, hpart, hin⟩
    · exact .inr hdot
    · exact .inl (.inr (characters_of_numbers h1 h2 h3 part hpart c hin))
  · rcases mem_marked hc with rfl | hdot | ⟨part, hpart, hin⟩
    · exact .inl (.inl (by decide))
    · exact .inr hdot
    · exact .inl (characters_of_isPart (hpre part hpart) c hin)

/-- The check of a text that no line end closes. -/
def isClosed (t : Text) : Bool :=
  match Text.cut? '+' t with
  | some (release, build) => isRelease release && isBuild build
  | none => isRelease t

theorem isClosed_iff : isClosed t = true ↔ Written (fun x => isNumber x = true) IsPart IsWord t := by
  have hplus (x : Text) (hx : isRelease x = true) : CodePoint.char '+' ∉ x := by
    intro hmem
    rcases characters_of_release hx hmem with h | h
    · exact (isPartCharacter_ne h).2.1 rfl
    · cases h
  have h : isClosed t = true ↔ _ := cut_iff isBuild hplus
  simp only [h, isBuild_iff, optional_iff, isRelease_iff]
  constructor
  · rintro ⟨a, ⟨major, minor, patch, preRelease, rfl, h1, h2, h3, hpre⟩, build, ht, hbuild⟩
    exact ⟨major, minor, patch, preRelease, build, ht, h1, h2, h3, hpre, hbuild⟩
  · rintro ⟨major, minor, patch, preRelease, build, ht, h1, h2, h3, hpre, hbuild⟩
    exact ⟨_, ⟨major, minor, patch, preRelease, rfl, h1, h2, h3, hpre⟩, build, ht, hbuild⟩

/-- The characters of a version. -/
theorem characters_of_written {c : CodePoint} (h : Written (fun x => isNumber x = true) IsPart IsWord t) (hc : c ∈ t) :
    IsPartCharacter c ∨ c = '.' ∨ c = '+' := by
  obtain ⟨major, minor, patch, preRelease, build, rfl, h1, h2, h3, hpre, hbuild⟩ := h
  rcases List.mem_append.1 hc with hc | hc
  · rcases characters_of_release (isRelease_iff.2 ⟨_, _, _, _, rfl, h1, h2, h3, hpre⟩) hc with h | h
    · exact .inl h
    · exact .inr (.inl h)
  · rcases mem_marked hc with hplus | hdot | ⟨part, hpart, hin⟩
    · exact .inr (.inr hplus)
    · exact .inr (.inl hdot)
    · exact .inl (.inl ((hbuild part hpart).2 c hin))

theorem lineEnd_not_mem (h : Written (fun x => isNumber x = true) IsPart IsWord t) : CodePoint.char '\n' ∉ t := by
  intro hmem
  rcases characters_of_written h hmem with h | h | h
  · exact (isPartCharacter_ne h).2.2 rfl
  · cases h
  · cases h

theorem withoutLineEnd_of_not_mem (h : CodePoint.char '\n' ∉ t) : withoutLineEnd t = t :=
  if_neg fun hlast => h (List.mem_of_getLast? hlast)

/-- The check accepts what is written as a version, with a line end after it or without. -/
theorem isSemantic_iff : isSemantic t = true ↔
    ∃ body, (t = body ∨ t = body ++ [CodePoint.char '\n']) ∧
      Written (fun x => isNumber x = true) IsPart IsWord body := by
  have hclosed : isSemantic t = isClosed (withoutLineEnd t) := rfl
  rw [hclosed, isClosed_iff]
  constructor
  · intro h
    refine ⟨_, ?_, h⟩
    unfold withoutLineEnd
    split
    · rename_i hlast
      exact .inr (List.dropLast_append_getLast? _ hlast).symm
    · exact .inl rfl
  · rintro ⟨body, rfl | rfl, hbody⟩
    · rwa [withoutLineEnd_of_not_mem (lineEnd_not_mem hbody)]
    · simpa [withoutLineEnd] using hbody

end Prebuilt.Version
