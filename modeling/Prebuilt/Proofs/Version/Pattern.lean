import Mathlib.Computability.Language
import Prebuilt.Proofs.Version.Reading
/-!
The regular expression of versions, as the language of the texts that it matches from their start to their end. The
check decides it without going back over a text.
-/
set_option autoImplicit false

namespace Prebuilt.Version.Pattern

open scoped Computability

variable {p : CodePoint → Bool} {l m : Language CodePoint} {t : Text}

/-- One character of a class. -/
def oneOf (p : CodePoint → Bool) : Language CodePoint := {t | ∃ c, t = [c] ∧ p c = true}

def exactly (t : Text) : Language CodePoint := {t}

/-- `0|[1-9]\d*` -/
def number : Language CodePoint :=
  exactly ['0'] + oneOf (fun c => c.isAsciiDigit && c != '0') * (oneOf CodePoint.isDigit)∗

/-- `\d*[a-zA-Z-][0-9a-zA-Z-]*` -/
def name : Language CodePoint :=
  (oneOf CodePoint.isDigit)∗ * (oneOf isLetter * (oneOf isIdentifierPart)∗)

/-- `[0-9a-zA-Z-]+` -/
def word : Language CodePoint := oneOf isIdentifierPart * (oneOf isIdentifierPart)∗

/-- `l(?:\.l)*` -/
def dotted (l : Language CodePoint) : Language CodePoint := l * (exactly ['.'] * l)∗

/-- `(?:mark l)?` -/
def optional (mark : CodePoint) (l : Language CodePoint) : Language CodePoint := 1 + exactly [mark] * l

/-- `number\.number\.number` -/
def core : Language CodePoint := number * (exactly ['.'] * (number * (exactly ['.'] * number)))

/-- `^core(?:-parts)?(?:\+words)?$`, where `$` also stands before a line end that closes the text. -/
def whole : Language CodePoint :=
  core * optional '-' (dotted (number + name)) * optional '+' (dotted word) * (1 + exactly ['\n'])

@[simp] theorem mem_oneOf : t ∈ oneOf p ↔ ∃ c, t = [c] ∧ p c = true := Iff.rfl

@[simp] theorem mem_exactly {s : Text} : t ∈ exactly s ↔ t = s := Iff.rfl

theorem mem_oneOf_star : t ∈ (oneOf p)∗ ↔ ∀ c ∈ t, p c = true := by
  rw [Language.mem_kstar]
  constructor
  · rintro ⟨pieces, rfl, hpieces⟩ c hc
    obtain ⟨piece, hpiece, hin⟩ := List.mem_flatten.1 hc
    obtain ⟨d, rfl, hd⟩ := hpieces piece hpiece
    rwa [List.mem_singleton.1 hin]
  · intro h
    refine ⟨t.map fun c => [c], by rw [← List.flatMap_def, List.flatMap_singleton'], fun piece hpiece => ?_⟩
    obtain ⟨c, hc, rfl⟩ := List.mem_map.1 hpiece
    exact ⟨c, rfl, h c hc⟩

theorem mem_exactly_mul {s : Text} : t ∈ exactly s * l ↔ ∃ r ∈ l, t = s ++ r := by
  rw [Language.mem_mul]
  constructor
  · rintro ⟨a, rfl, r, hr, rfl⟩
    exact ⟨r, hr, rfl⟩
  · rintro ⟨r, hr, rfl⟩
    exact ⟨s, rfl, r, hr, rfl⟩

theorem mem_oneOf_mul : t ∈ oneOf p * l ↔ ∃ c r, t = c :: r ∧ p c = true ∧ r ∈ l := by
  rw [Language.mem_mul]
  constructor
  · rintro ⟨a, ⟨c, rfl, hc⟩, r, hr, rfl⟩
    exact ⟨c, r, rfl, hc, hr⟩
  · rintro ⟨c, r, rfl, hc, hr⟩
    exact ⟨[c], ⟨c, rfl, hc⟩, r, hr, rfl⟩

theorem mem_number : t ∈ number ↔ isNumber t = true := by
  simp only [number, Language.mem_add, mem_exactly, mem_oneOf_mul, mem_oneOf_star]
  constructor
  · rintro (rfl | ⟨c, r, rfl, hc, hr⟩)
    · rfl
    · simp only [Bool.and_eq_true, bne_iff_ne] at hc
      simpa [isNumber, hc.1, hc.2] using hr
  · intro h
    cases t with
    | nil => cases h
    | cons c r =>
      by_cases hc : c = CodePoint.char '0'
      · exact .inl (by simpa [isNumber, hc] using h)
      · exact .inr ⟨c, r, rfl, by simpa [isNumber, hc] using h⟩

theorem mem_name : t ∈ name ↔ isName t = true := by
  rw [name, Language.mem_mul, isName_iff]
  simp only [mem_oneOf_mul, mem_oneOf_star]
  constructor
  · rintro ⟨digits, hdigits, _, ⟨c, r, rfl, hc, hr⟩, rfl⟩
    exact ⟨digits, c, r, rfl, hdigits, hc, hr⟩
  · rintro ⟨digits, c, r, rfl, hdigits, hc, hr⟩
    exact ⟨digits, hdigits, c :: r, ⟨c, r, rfl, hc, hr⟩, rfl⟩

theorem mem_word : t ∈ word ↔ IsWord t := by
  simp only [word, mem_oneOf_mul, mem_oneOf_star, IsWord]
  constructor
  · rintro ⟨c, r, rfl, hc, hr⟩
    simpa using ⟨hc, hr⟩
  · intro h
    cases t with
    | nil => exact absurd rfl h.1
    | cons c r => exact ⟨c, r, rfl, by simpa using h.2⟩

/-- What a repetition of dotted parts adds is the parts, each after its dot. -/
theorem mem_dots_star : t ∈ (exactly ['.'] * l)∗ ↔
    ∃ parts : List Text, t = (parts.map (CodePoint.char '.' :: ·)).flatten ∧ ∀ x ∈ parts, x ∈ l := by
  rw [Language.mem_kstar]
  constructor
  · rintro ⟨pieces, rfl, h⟩
    induction pieces with
    | nil => exact ⟨[], rfl, by simp⟩
    | cons piece pieces ih =>
      obtain ⟨x, hx, rfl⟩ := mem_exactly_mul.1 (h piece (by simp))
      obtain ⟨parts, hparts, hl⟩ := ih fun y hy => h y (List.mem_cons_of_mem _ hy)
      exact ⟨x :: parts, by simp [hparts], by simpa using ⟨hx, hl⟩⟩
  · rintro ⟨parts, rfl, h⟩
    refine ⟨_, rfl, fun piece hpiece => ?_⟩
    obtain ⟨x, hx, rfl⟩ := List.mem_map.1 hpiece
    exact mem_exactly_mul.2 ⟨x, h x hx, rfl⟩

theorem joinWith_cons (sep : CodePoint) (x : Text) (xs : List Text) :
    Text.joinWith [sep] (x :: xs) = x ++ (xs.map (sep :: ·)).flatten := by
  induction xs generalizing x with
  | nil => simp [Text.joinWith]
  | cons y ys ih => rw [Text.joinWith, ih y]; simp

theorem mem_dotted : t ∈ dotted l ↔ ∃ parts ≠ [], t = Text.joinWith ['.'] parts ∧ ∀ x ∈ parts, x ∈ l := by
  simp only [dotted, Language.mem_mul, mem_dots_star]
  constructor
  · rintro ⟨x, hx, _, ⟨parts, rfl, hl⟩, rfl⟩
    exact ⟨x :: parts, by simp, (joinWith_cons '.' x parts).symm, by simpa using ⟨hx, hl⟩⟩
  · rintro ⟨parts, hne, rfl, hl⟩
    cases parts with
    | nil => exact absurd rfl hne
    | cons x xs =>
      rw [List.forall_mem_cons] at hl
      exact ⟨x, hl.1, _, ⟨xs, rfl, hl.2⟩, (joinWith_cons '.' x xs).symm⟩

theorem mem_optional_dotted (mark : CodePoint) :
    t ∈ optional mark (dotted l) ↔ ∃ parts, t = marked mark parts ∧ ∀ x ∈ parts, x ∈ l := by
  simpa only [optional, Language.mem_add, Language.mem_one, mem_exactly_mul, mem_dotted, List.nil_append,
    List.singleton_append, and_comm] using optional_iff (t := t) mark (a := []) (p := (· ∈ l))

theorem mem_core : t ∈ core ↔ ∃ major minor patch, t = Text.joinWith ['.'] [major, minor, patch] ∧
    major ∈ number ∧ minor ∈ number ∧ patch ∈ number := by
  rw [core, Language.mem_mul]
  simp only [mem_exactly_mul, Text.joinWith]
  constructor
  · rintro ⟨major, h1, _, ⟨r, hr, rfl⟩, rfl⟩
    obtain ⟨minor, h2, _, hpatch, rfl⟩ := Language.mem_mul.1 hr
    obtain ⟨patch, h3, rfl⟩ := mem_exactly_mul.1 hpatch
    exact ⟨major, minor, patch, by simp, h1, h2, h3⟩
  · rintro ⟨major, minor, patch, rfl, h1, h2, h3⟩
    refine ⟨major, h1, _, ⟨_, Language.mem_mul.2 ⟨minor, h2, _, mem_exactly_mul.2 ⟨patch, h3, rfl⟩, rfl⟩, rfl⟩, by simp⟩

theorem mem_whole : t ∈ whole ↔ ∃ body, (t = body ∨ t = body ++ [CodePoint.char '\n']) ∧
    Written (· ∈ number) (· ∈ number + name) (· ∈ word) body := by
  have hend {s : Text} : s ∈ 1 + exactly ['\n'] ↔ s = [] ∨ s = [CodePoint.char '\n'] := Iff.rfl
  rw [whole, Language.mem_mul]
  constructor
  · rintro ⟨body, hbody, s, hs, rfl⟩
    obtain ⟨release, hrelease, _, hplus, rfl⟩ := Language.mem_mul.1 hbody
    obtain ⟨_, hcore, _, hdash, rfl⟩ := Language.mem_mul.1 hrelease
    obtain ⟨build, rfl, hbuild⟩ := (mem_optional_dotted _).1 hplus
    obtain ⟨preRelease, rfl, hpre⟩ := (mem_optional_dotted _).1 hdash
    obtain ⟨major, minor, patch, rfl, h1, h2, h3⟩ := mem_core.1 hcore
    refine ⟨_, ?_, major, minor, patch, preRelease, build, rfl, h1, h2, h3, hpre, hbuild⟩
    rcases hend.1 hs with rfl | rfl
    · exact .inl (List.append_nil _)
    · exact .inr rfl
  · rintro ⟨body, ht, major, minor, patch, preRelease, build, rfl, h1, h2, h3, hpre, hbuild⟩
    have hcore := mem_core.2 ⟨major, minor, patch, rfl, h1, h2, h3⟩
    have hdash := (mem_optional_dotted '-').2 ⟨preRelease, rfl, hpre⟩
    have hplus := (mem_optional_dotted '+').2 ⟨build, rfl, hbuild⟩
    have hbody := Language.mem_mul.2 ⟨_, Language.mem_mul.2 ⟨_, hcore, _, hdash, rfl⟩, _, hplus, rfl⟩
    rcases ht with rfl | rfl
    · exact ⟨_, hbody, [], hend.2 (.inl rfl), List.append_nil _⟩
    · exact ⟨_, hbody, _, hend.2 (.inr rfl), rfl⟩

/-- The check accepts the texts that the regular expression matches and no others. -/
theorem isSemantic_iff_mem : isSemantic t = true ↔ t ∈ whole := by
  simp only [isSemantic_iff, mem_whole, mem_number, mem_name, mem_word, Language.mem_add]
  rfl

end Prebuilt.Version.Pattern
