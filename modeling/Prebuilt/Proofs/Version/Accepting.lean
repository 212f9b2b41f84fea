import Prebuilt.Metadata
import Prebuilt.Proofs.Fields
import Prebuilt.Proofs.Version.Reading
/-!
Semantic versions by their grammar, and the versions that package metadata may have. Of the texts that are ASCII and in
one line, the check accepts exactly what a semantic version renders to.
-/
set_option autoImplicit false

namespace Prebuilt

open Version

/-- Digits without leading zeros. -/
def IsNumeric (t : Text) : Prop :=
  t ≠ [] ∧ (∀ c ∈ t, c.isAsciiDigit = true) ∧ (t.head? = some (CodePoint.char '0') → t.length = 1)

/-- Letters, digits and dashes, and not only digits. -/
def IsAlphanumeric (t : Text) : Prop := IsWord t ∧ ∃ c ∈ t, c.isAsciiDigit = false

/-- A version by the grammar of Semantic Versioning 2.0.0. No pre-release part stands for no pre-release, and no build
part for no build. -/
structure SemanticVersion where
  major : Text
  minor : Text
  patch : Text
  preRelease : List Text
  build : List Text
  numeric : IsNumeric major ∧ IsNumeric minor ∧ IsNumeric patch
  preReleaseParts : ∀ part ∈ preRelease, IsNumeric part ∨ IsAlphanumeric part
  buildParts : ∀ part ∈ build, IsWord part

namespace SemanticVersion

def render (v : SemanticVersion) : Text := assembled v.major v.minor v.patch v.preRelease v.build

example : assembled "1" "0" "0" ["rc", "1"] ["7", "x"] = "1.0.0-rc.1+7.x" := by decide

variable {t : Text}

theorem exists_render_iff : (∃ v : SemanticVersion, v.render = t) ↔
    Written IsNumeric (fun x => IsNumeric x ∨ IsAlphanumeric x) IsWord t := by
  constructor
  · rintro ⟨v, rfl⟩
    exact ⟨_, _, _, _, _, rfl, v.numeric.1, v.numeric.2.1, v.numeric.2.2, v.preReleaseParts, v.buildParts⟩
  · rintro ⟨major, minor, patch, preRelease, build, rfl, h1, h2, h3, hpre, hbuild⟩
    exact ⟨⟨major, minor, patch, preRelease, build, ⟨h1, h2, h3⟩, hpre, hbuild⟩, rfl⟩

theorem isNumber_of_isNumeric (h : IsNumeric t) : isNumber t = true := by
  obtain ⟨hne, hdigits, hzero⟩ := h
  cases t with
  | nil => exact absurd rfl hne
  | cons c r =>
    rw [List.forall_mem_cons] at hdigits
    by_cases hc : c = CodePoint.char '0'
    · have hr : r = [] := by simpa [hc] using hzero
      simp [isNumber, hc, hr]
    · have hall : ∀ d ∈ r, d.isDigit = true := fun d hd => isDigit_of_isAsciiDigit (hdigits.2 d hd)
      simpa [isNumber, hc, hdigits.1] using hall

theorem isNumeric_of_isNumber (hascii : ∀ c ∈ t, c.isAscii = true) (h : isNumber t = true) : IsNumeric t := by
  have hdigits : ∀ c ∈ t, c.isAsciiDigit = true := fun c hc =>
    isAsciiDigit_of_isDigit (hascii c hc) (digits_of_isNumber h c hc)
  cases t with
  | nil => cases h
  | cons c r =>
    refine ⟨by simp, hdigits, fun hzero => ?_⟩
    obtain rfl : c = CodePoint.char '0' := by simpa using hzero
    simpa [isNumber] using h

theorem isAlphanumeric_of_isName (hascii : ∀ c ∈ t, c.isAscii = true) (h : isName t = true) : IsAlphanumeric t := by
  obtain ⟨digits, c, r, rfl, hdigits, hc, hr⟩ := isName_iff.1 h
  refine ⟨⟨by simp, fun d hd => ?_⟩, c, by simp, not_isAsciiDigit_of_isLetter hc⟩
  simp only [List.mem_append, List.mem_cons] at hd
  rcases hd with hd | rfl | hd
  · have hdigit := isAsciiDigit_of_isDigit (hascii d (by simp [hd])) (hdigits d hd)
    simp [isIdentifierPart, hdigit]
  · simp [isIdentifierPart, hc]
  · exact hr d hd

theorem isName_of_isAlphanumeric (h : IsAlphanumeric t) : isName t = true := by
  obtain ⟨⟨-, hparts⟩, c, hc, hletter⟩ := h
  induction t with
  | nil => cases hc
  | cons d r ih =>
    rw [List.forall_mem_cons] at hparts
    by_cases hd : d.isAsciiDigit = true
    · have hr : c ∈ r := by
        rcases List.mem_cons.1 hc with rfl | hr
        · rw [hd] at hletter
          cases hletter
        · exact hr
      obtain ⟨digits, e, s, rfl, hdigits, he, hs⟩ := isName_iff.1 (ih hparts.2 hr)
      refine isName_iff.2 ⟨d :: digits, e, s, rfl, ?_, he, hs⟩
      simpa using ⟨isDigit_of_isAsciiDigit hd, hdigits⟩
    · have hfirst : isLetter d = true := by simpa [isIdentifierPart, hd] using hparts.1
      exact isName_iff.2 ⟨[], d, r, rfl, by simp, hfirst, hparts.2⟩

theorem written (v : SemanticVersion) : Written (fun x => isNumber x = true) IsPart IsWord v.render :=
  (exists_render_iff.1 ⟨v, rfl⟩).imp (fun _ _ => isNumber_of_isNumeric)
    (fun _ _ hx => hx.imp isNumber_of_isNumeric isName_of_isAlphanumeric) fun _ _ hx => hx

/-- What the check accepts of a text in ASCII without a line end. -/
theorem isSemantic_iff_render (hascii : ∀ c ∈ t, c.isAscii = true) (hline : CodePoint.char '\n' ∉ t) :
    isSemantic t = true ↔ ∃ v : SemanticVersion, v.render = t := by
  rw [isSemantic_iff]
  constructor
  · rintro ⟨body, rfl | rfl, hbody⟩
    · have hpieces (x : Text) (hx : x ⊆ t) : ∀ c ∈ x, c.isAscii = true := fun c hc => hascii c (hx hc)
      exact exists_render_iff.2 (hbody.imp (fun x hx => isNumeric_of_isNumber (hpieces x hx))
        (fun x hx h => h.imp (isNumeric_of_isNumber (hpieces x hx)) (isAlphanumeric_of_isName (hpieces x hx)))
        fun _ _ hx => hx)
    · simp at hline
  · rintro ⟨v, rfl⟩
    exact ⟨v.render, .inl rfl, v.written⟩

end SemanticVersion

namespace Metadata

variable {fields : Fields} {metadata : Metadata} {version : Text}

/-- Accepted metadata has the version of its table, which passed the check. -/
theorem ofFields_ok (h : ofFields fields = .ok metadata) :
    Table.get? "version" fields = some (.text metadata.version) ∧ isSemantic metadata.version = true := by
  rw [ofFields] at h
  split at h
  swap
  · cases h
  generalize hboth : Checked.both _ _ = both at h
  cases both with
  | error issues => cases h
  | ok x =>
    cases h
    obtain ⟨value, hget, hversion⟩ := Fields.required_ok_iff.1 (Checked.both_ok_iff.1 hboth).2
    cases value with
    | text version =>
      simp only [checkedVersion, Json.asText] at hversion
      split at hversion
      · rename_i hsemantic
        cases hversion
        exact ⟨hget, hsemantic⟩
      · cases hversion
    | _ => cases hversion

theorem ofFields_version (s : Text) : ofFields [("version", .text s)] =
    if isSemantic s then .ok ⟨none, s, []⟩
    else Checked.reject [.key "version"] (.rejected ("not a semantic version: " ++ s.quoted)) := by
  have hversion : ofFields [("version", .text s)] =
      (Checked.both (.ok none) (checkedVersion [.key "version"] (.text s))).map fun both => ⟨both.1, both.2, []⟩ := rfl
  rw [hversion]
  simp only [checkedVersion, Json.asText]
  split <;> rfl

/-- Metadata of a version alone is accepted if and only if the version is a semantic version, and keeps it. -/
theorem ofFields_version_iff (s : Text) (hascii : ∀ c ∈ s, c.isAscii = true) (hline : CodePoint.char '\n' ∉ s) :
    ((∃ metadata, ofFields [("version", .text s)] = .ok metadata) ↔ ∃ v : SemanticVersion, v.render = s) ∧
      ∀ metadata, ofFields [("version", .text s)] = .ok metadata → metadata.version = s := by
  rw [← SemanticVersion.isSemantic_iff_render hascii hline, ofFields_version]
  by_cases h : isSemantic s = true
  · simp [h]
  · simp [h, Checked.reject]

/-- Dashes in names, digits before letters and leading zeros in builds are all taken. -/
theorem ofFields_version_iff_named : ∃ v : SemanticVersion, v.render = "1.0.0-alpha.0a-.1+001.b-" := by
  have hok : ofFields [("version", .text "1.0.0-alpha.0a-.1+001.b-")] = .ok ⟨none, "1.0.0-alpha.0a-.1+001.b-", []⟩ := by
    rw [ofFields_version]
    exact if_pos (by decide)
  exact (ofFields_version_iff _ (by decide) (by decide)).1.1 ⟨_, hok⟩

end Metadata

end Prebuilt
