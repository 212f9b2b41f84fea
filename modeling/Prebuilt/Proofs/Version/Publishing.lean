import Prebuilt.Package
import Prebuilt.Proofs.Install.Outcome
import Prebuilt.Proofs.Version.Accepting
/-!
The version in a metadata file and the addresses that are made of it. The check lets through a line end after the
version and the decimal digits of other scripts, and nothing else that could spoil an address.
-/
set_option autoImplicit false

namespace Prebuilt

open Version Action

/-- One of the characters that semantic versions are written with. -/
def IsVersionCharacter (c : CodePoint) : Prop :=
  c.isAsciiDigit = true ∨ c.isAsciiLetter = true ∨ c = '.' ∨ c = '+' ∨ c = '-'

variable {version : Text} {metadata : Metadata} {m m' : Machine}

theorem isVersionCharacter_of_part {c : CodePoint} (h : isIdentifierPart c = true) : IsVersionCharacter c := by
  simp only [isIdentifierPart, isLetter, Bool.or_eq_true, beq_iff_eq] at h
  rcases h with h | h | h
  · exact .inl h
  · exact .inr (.inl h)
  · exact .inr (.inr (.inr (.inr h)))

theorem IsVersionCharacter.visible {c : CodePoint} (h : IsVersionCharacter c) : 33 ≤ c.value ∧ c.value ≤ 126 := by
  simp only [IsVersionCharacter, CodePoint.isAsciiDigit, CodePoint.isAsciiLetter, Bool.or_eq_true, Bool.and_eq_true,
    decide_eq_true_eq] at h
  rcases h with h | h | rfl | rfl | rfl
  · omega
  · omega
  all_goals decide

/-- The characters of a version that passed the check. -/
theorem characters_of_isSemantic (h : isSemantic version = true) :
    ∃ body, (version = body ∨ version = body ++ [CodePoint.char '\n']) ∧
      ∀ c ∈ body, IsVersionCharacter c ∨ (c.isDigit = true ∧ c.isAscii = false) := by
  obtain ⟨body, hend, hbody⟩ := isSemantic_iff.1 h
  refine ⟨body, hend, fun c hc => ?_⟩
  rcases characters_of_written hbody hc with (hpart | hdigit) | hdot | hplus
  · exact .inl (isVersionCharacter_of_part hpart)
  · by_cases hascii : c.isAscii = true
    · exact .inl (.inl (isAsciiDigit_of_isDigit hascii hdigit))
    · exact .inr ⟨hdigit, by simpa using hascii⟩
  · exact .inl (.inr (.inr (.inl hdot)))
  · exact .inl (.inr (.inr (.inr (.inl hplus))))

theorem isChar_of_isDigit {c : CodePoint} (h : c.isDigit = true) : c.isChar = true := by
  cases c with
  | char c => rfl
  | lone n =>
    have hn := n.isLt
    have hvalue : (CodePoint.lone n).value = 0xD800 + n.val := rfl
    have hascii : (CodePoint.lone n).isAscii = false := decide_eq_false (by omega)
    have hzeros : ∀ z ∈ digitZeros, z + 10 ≤ 0xD800 ∨ 0xE000 ≤ z := by decide
    simp only [CodePoint.isDigit, CodePoint.digit?, hascii, Bool.false_eq_true, if_false, Option.isSome_map, List.find?_isSome,
      Bool.and_eq_true, decide_eq_true_eq] at h
    obtain ⟨z, hz, hlow, hhigh⟩ := h
    have hgap := hzeros z hz
    omega

/-- A version that passed the check can be written down. -/
theorem isString_of_isSemantic (h : isSemantic version = true) : version.isString = true := by
  obtain ⟨body, hend, hbody⟩ := characters_of_isSemantic h
  have hchars : body.isString = true := Text.isString_iff.2 fun c hc => by
    rcases hbody c hc with hvisible | ⟨hdigit, -⟩
    · have hrange := hvisible.visible
      cases c with
      | char c => rfl
      | lone n =>
        have hvalue : (CodePoint.lone n).value = 0xD800 + n.val := rfl
        omega
    · exact isChar_of_isDigit hdigit
  rcases hend with rfl | rfl
  · exact hchars
  · rw [Text.isString_append, hchars]
    rfl

theorem isVersionCharacter_of_isSemantic (h : isSemantic version = true) (hascii : ∀ c ∈ version, c.isAscii = true)
    (hline : CodePoint.char '\n' ∉ version) : ∀ c ∈ version, IsVersionCharacter c := by
  obtain ⟨body, rfl | rfl, hbody⟩ := characters_of_isSemantic h
  · intro c hc
    rcases hbody c hc with h | h
    · exact h
    · rw [hascii c hc] at h
      cases h.2
  · simp at hline

/-- An address is the host and the version, then the file name with the version in it. -/
theorem Release.mem_urls {key url : Text} (h : (key, url) ∈ Release.urls version) : ∃ name, (key, name) ∈ Release.platforms ∧
    url = Release.host ++ version ++ "/run_" ++ version ++ "_" ++ name ++ ".tar.gz" := by
  obtain ⟨⟨k, name⟩, hmem, heq⟩ := List.mem_map.1 h
  obtain ⟨rfl, rfl⟩ := Prod.mk.inj heq
  exact ⟨name, hmem, by simp [Release.url, Text.join]⟩

theorem Release.visible_url {key url : Text} (hversion : ∀ c ∈ version, IsVersionCharacter c)
    (h : (key, url) ∈ Release.urls version) : ∀ c ∈ url, 33 ≤ c.value ∧ c.value ≤ 126 := by
  obtain ⟨name, hname, rfl⟩ := Release.mem_urls h
  have hplatforms : ∀ entry ∈ Release.platforms, ∀ c ∈ entry.2, 33 ≤ c.value ∧ c.value ≤ 126 := by decide
  have hhost : ∀ c ∈ Release.host, 33 ≤ c.value ∧ c.value ≤ 126 := by decide
  have htool : ∀ c ∈ ("/run_" : Text), 33 ≤ c.value ∧ c.value ≤ 126 := by decide
  have hend : ∀ c ∈ (".tar.gz" : Text), 33 ≤ c.value ∧ c.value ≤ 126 := by decide
  have hline : ∀ c ∈ ("_" : Text), 33 ≤ c.value ∧ c.value ≤ 126 := by decide
  have hvisible : ∀ c ∈ version, 33 ≤ c.value ∧ c.value ≤ 126 := fun c hc => (hversion c hc).visible
  simp only [List.forall_mem_append]
  exact ⟨⟨⟨⟨⟨⟨hhost, hvisible⟩, htool⟩, hvisible⟩, hline⟩, hplatforms _ hname⟩, hend⟩

theorem slash_not_mem_of_isSemantic (h : isSemantic version = true) : CodePoint.char '/' ∉ version := by
  obtain ⟨body, hend, hbody⟩ := characters_of_isSemantic h
  have hnot : CodePoint.char '/' ∉ body := by
    intro hmem
    rcases hbody _ hmem with hcharacter | ⟨-, hascii⟩
    · rcases hcharacter with hc | hc | hc | hc | hc <;> revert hc <;> decide
    · revert hascii
      decide
  rcases hend with rfl | rfl
  · exact hnot
  · simp [hnot]

/-- Accepted versions that have an address in common, be it on different platforms, are one version. -/
theorem Release.version_eq_of_mem_urls {version' key key' url : Text} (hversion : isSemantic version = true)
    (hversion' : isSemantic version' = true) (h : (key, url) ∈ Release.urls version) (h' : (key', url) ∈ Release.urls version') :
    version = version' := by
  have hfront (name : Text) {version : Text} (hversion : isSemantic version = true) :
      ((version ++ "/run_" ++ version ++ "_" ++ name ++ ".tar.gz" : Text).takeWhile (· != CodePoint.char '/')) = version := by
    have hslash := slash_not_mem_of_isSemantic hversion
    have hbody : ∀ c ∈ version, (c != CodePoint.char '/') = true := fun c hc => bne_iff_ne.2 fun he => hslash (he ▸ hc)
    simp only [List.append_assoc]
    rw [List.takeWhile_append_of_pos hbody]
    exact List.append_nil _
  obtain ⟨name, -, hurl⟩ := Release.mem_urls h
  obtain ⟨name', -, hurl'⟩ := Release.mem_urls h'
  have hsame := hurl.symm.trans hurl'
  simp only [List.append_assoc, List.append_cancel_left_eq] at hsame
  rw [← hfront name hversion, ← hfront name' hversion']
  simp only [List.append_assoc, hsame]

namespace Metadata

/-- Metadata from the bytes of a file has a version that passed the check. -/
theorem ofBytes_ok {path : Text} {bytes : Bytes} (h : ofBytes path bytes = .ok metadata) :
    isSemantic metadata.version = true := by
  unfold ofBytes at h
  split at h
  · cases h
  · simp only at h
    split at h
    all_goals try cases h
    split at h
    · cases h
    · rename_i hfields
      cases h
      exact (ofFields_ok hfields).2

end Metadata

namespace Package

theorem load_ok {shown file : Text} (h : (load shown file).exec m = (.ok metadata, m')) :
    ∃ bytes, Metadata.ofBytes shown bytes = .ok metadata := by
  obtain ⟨result, m₁, hread, hrest⟩ := bind_ok.1 h
  cases result with
  | ok bytes => exact ⟨bytes, by simpa using congrArg Prod.fst hrest⟩
  | error e => cases e <;> cases hrest

/-- The version of a metadata file that is accepted. Without a line end and digits of other scripts it is a semantic
version, and so are both places of the addresses it stands in. -/
theorem load_version {shown file : Text} (h : (load shown file).exec m = (.ok metadata, m')) :
    (∃ body, (metadata.version = body ∨ metadata.version = body ++ [CodePoint.char '\n']) ∧
      ∀ c ∈ body, IsVersionCharacter c ∨ (c.isDigit = true ∧ c.isAscii = false)) ∧
    ((∀ c ∈ metadata.version, c.isAscii = true) → CodePoint.char '\n' ∉ metadata.version →
      (∀ c ∈ metadata.version, IsVersionCharacter c) ∧
      ∃ v : SemanticVersion, v.render = metadata.version ∧ ∀ key url, (key, url) ∈ Release.urls metadata.version →
        (∀ c ∈ url, 33 ≤ c.value ∧ c.value ≤ 126) ∧ ∃ name, (key, name) ∈ Release.platforms ∧
          url = Release.host ++ v.render ++ "/run_" ++ v.render ++ "_" ++ name ++ ".tar.gz") := by
  obtain ⟨bytes, hbytes⟩ := load_ok h
  have hsemantic := Metadata.ofBytes_ok hbytes
  refine ⟨characters_of_isSemantic hsemantic, fun hascii hline => ?_⟩
  have hcharacters := isVersionCharacter_of_isSemantic hsemantic hascii hline
  obtain ⟨v, hv⟩ := (SemanticVersion.isSemantic_iff_render hascii hline).1 hsemantic
  refine ⟨hcharacters, v, hv, fun key url hmem => ⟨Release.visible_url hcharacters hmem, ?_⟩⟩
  rw [hv]
  exact Release.mem_urls hmem

/-- A machine with a metadata file of nothing but a version, as it is written in the file. -/
def shelf (version : Bytes) : Machine :=
  serving [] ⟨[(["package.json"], .file 0 0o644 ("\x7b\"version\":\"".toUTF8.toList ++ version ++ "\"\x7d".toUTF8.toList))], 1, []⟩

theorem load_plain : (load "/package.json" "/package.json").exec (shelf "1.2.3".toUTF8.toList) =
    (.ok ⟨none, "1.2.3", []⟩, shelf "1.2.3".toUTF8.toList) := by cbv

theorem load_version_plain : ∃ v : SemanticVersion, v.render = "1.2.3" ∧ ∀ key url, (key, url) ∈ Release.urls "1.2.3" →
    (∀ c ∈ url, 33 ≤ c.value ∧ c.value ≤ 126) ∧ ∃ name, (key, name) ∈ Release.platforms ∧
      url = Release.host ++ v.render ++ "/run_" ++ v.render ++ "_" ++ name ++ ".tar.gz" :=
  ((load_version load_plain).2 (by decide) (by decide)).2

theorem load_broken : (load "/package.json" "/package.json").exec (shelf "1.2.3\\n".toUTF8.toList) =
    (.ok ⟨none, "1.2.3\n", []⟩, shelf "1.2.3\\n".toUTF8.toList) := by cbv

/-- A line end after the version is accepted and becomes part of the addresses. -/
theorem load_spoiled : ∃ (m : Machine) (metadata : Metadata), (load "/package.json" "/package.json").exec m = (.ok metadata, m) ∧
    (¬∀ c ∈ metadata.version, IsVersionCharacter c) ∧ (¬∃ v : SemanticVersion, v.render = metadata.version) ∧
      ∃ key url, (key, url) ∈ Release.urls metadata.version ∧ CodePoint.char '\n' ∈ url := by
  refine ⟨_, _, load_broken, fun h => ?_, fun ⟨v, hv⟩ => ?_, "linux-x64",
    Release.url (Release.host ++ "1.2.3\n") "1.2.3\n" "linux_amd64", by decide, by decide⟩
  · exact absurd (h (CodePoint.char '\n') (by decide)).visible (by decide)
  · exact lineEnd_not_mem v.written (hv ▸ by decide)

end Package

end Prebuilt
