import Prebuilt.Install.Installation
import Prebuilt.Proofs.Files.Under
import Prebuilt.Proofs.Text.Digits
/-!
Names that are made up: those of staging directories and of what is moved aside. They consist of the name of the destination,
a dot before it, and digits; so they are names of other entries beside it.
-/
set_option autoImplicit false

namespace Prebuilt

variable {t key : Text}

namespace FileSystem

variable {p : FilePath} {d : Location}

/-- A name that takes no more than other names do, of a known platform say. -/
structure IsPlatformName (name : Text) : Prop where
  component : IsComponent name
  short : byteLength name ≤ nameLimit
  isString : name.isString = true

theorem isPlatformName_of_isKnownKey (h : Platform.isKnownKey key = true) : IsPlatformName key := by
  obtain ⟨platform, hfind⟩ := Option.isSome_iff_exists.1 h
  have hkey : platform.key = key := by simpa using List.find?_some hfind
  rw [← hkey]
  cases platform <;> exact ⟨⟨⟨by decide, by decide⟩, by decide⟩, by decide, by decide⟩

/-- What staging directories of a destination are called. -/
def stagingName (key : Text) (attempt : Nat) : Text := Text.join [".", key, "-"] ++ Action.temporaryEnding attempt

theorem isComponent_of_dot (ht : CodePoint.char '/' ∉ t) (hlen : 2 < t.length) : IsComponent t where
  isName := by
    refine ⟨FilePath.isPart_iff.2 ⟨?_, ?_⟩, ?_⟩ <;> rintro rfl <;> simp at hlen
  noSlash := ht

theorem IsPlatformName.isComponent_stagingName (h : IsPlatformName key) (attempt : Nat) : IsComponent (stagingName key attempt) := by
  refine isComponent_of_dot ?_ ?_
  · simp [stagingName, Text.join, h.component.noSlash, Text.slash_not_mem_temporaryEnding]
  · have hpos := List.length_pos_iff.2 h.component.ne_nil
    simp [stagingName, Text.join]
    omega

theorem IsPlatformName.isComponent_asideName (h : IsPlatformName p.name) (n : Nat) :
    IsComponent (p.asideName (Text.hex 32 n)) := by
  refine isComponent_of_dot ?_ ?_
  · simp [FilePath.asideName, Text.join, h.component.noSlash, Text.slash_not_mem_hex]
  · simp [FilePath.asideName, Text.join]
    omega

theorem canonical_of_isString (h : t.isString = true) : Name.canonical t = t := by rw [Name.canonical, if_pos h]

theorem IsPlatformName.isString_stagingName (h : IsPlatformName key) (attempt : Nat) : (stagingName key attempt).isString = true := by
  simp only [stagingName, Text.isString_append, Text.isString_join, List.all_cons, List.all_nil, h.isString,
    Text.isString_temporaryEnding]
  rfl

theorem IsPlatformName.isString_asideName (h : IsPlatformName p.name) (n : Nat) :
    (p.asideName (Text.hex 32 n)).isString = true := by
  simp only [FilePath.asideName, Text.isString_join, List.all_cons, List.all_nil, h.isString, Text.isString_hex]
  rfl

/-! ## Lengths -/

theorem encodeName_of_isString (h : t.isString = true) : ∃ bytes, Utf8.encodeName t = .ok bytes := by
  have hgeneral (position : Nat) : ∃ bytes, Utf8.encodeFrom position Utf8.strayByte? t = .ok bytes := by
    induction t generalizing position with
    | nil => exact ⟨[], rfl⟩
    | cons c r ih =>
      obtain ⟨hc, hr⟩ : c.isChar = true ∧ Text.isString r = true := by simpa [Text.isString] using h
      obtain ⟨bytes, hbytes⟩ := ih hr (position + 1)
      cases c with
      | char c => exact ⟨_, Utf8.encodeFrom_cons_iff.2 ⟨_, bytes, rfl, hbytes, rfl⟩⟩
      | lone n => cases hc
  exact hgeneral 0

/-- What is put into a text makes it no shorter. -/
theorem byteLength_insert {a b x : Text} (hx : x.isString = true) : byteLength (a ++ b) ≤ byteLength (a ++ x ++ b) := by
  obtain ⟨bytes, hbytes⟩ := encodeName_of_isString hx
  cases hab : Utf8.encodeName (a ++ b) with
  | error e => simp [byteLength, hab]
  | ok whole =>
    obtain ⟨first, last, hfirst, hlast, rfl⟩ := Utf8.encodeFrom_append.1 hab
    have hlonger : Utf8.encodeName (a ++ x ++ b) = .ok (first ++ bytes ++ last) :=
      Utf8.encodeFrom_append.2 ⟨_, last, Utf8.encodeFrom_append.2 ⟨first, bytes, hfirst, hbytes, rfl⟩, hlast, rfl⟩
    rw [byteLength_of_ok hab, byteLength_of_ok hlonger]
    simp

/-- A path at the destination is no longer than the same path in a staging directory. -/
theorem byteLength_staging (front key : Text) (attempt : Nat) (rest : Text) :
    byteLength (front ++ key ++ rest) ≤ byteLength (front ++ stagingName key attempt ++ rest) := by
  have hdot : Text.isString "." = true := rfl
  have hending : Text.isString ("-" ++ Action.temporaryEnding attempt) = true := by
    rw [Text.isString_append, Text.isString_temporaryEnding]
    rfl
  have hfirst := byteLength_insert (a := front) (b := key ++ rest) hdot
  have hlast := byteLength_insert (a := front ++ "." ++ key) (b := rest) hending
  simp only [stagingName, Text.join, List.flatten_cons, List.flatten_nil, List.append_assoc, List.append_nil] at hfirst hlast ⊢
  exact hfirst.trans hlast

theorem ne_nil_of_name (h : IsComponent p.name) : p.parts ≠ [] := by
  intro hnil
  exact h.ne_nil (by rw [FilePath.name, hnil]; rfl)

theorem toText_eq_front (h : IsComponent p.name) : p.toText = p.front ++ p.name := by
  rw [← FilePath.toText_beside p h.ne_nil, FilePath.beside_name (ne_nil_of_name h)]

theorem byteLength_div_staging {name : Text} (hp : p.Tidy) (hkey : IsPlatformName p.name) (attempt : Nat) (hname : IsComponent name) :
    byteLength (p / name).toText ≤ byteLength (p.beside (stagingName p.name attempt) / name).toText := by
  have hstaging := hkey.isComponent_stagingName attempt
  have hsteps : ∀ part ∈ [name], FilePath.IsStep part := by simpa using hname.isStep
  have hnames : Path.names name = [name] := Path.names_of_part hname.isName.1 hname.noSlash
  rw [FilePath.div_eq_under _ hname.noSlash, FilePath.div_eq_under _ hname.noSlash, hnames,
    hp.toText_under (ne_nil_of_name hkey.component) (by simp) hsteps,
    (hp.beside hstaging).toText_under (by simp [FilePath.beside]) (by simp) hsteps, FilePath.toText_beside p hstaging.ne_nil,
    toText_eq_front hkey.component]
  simpa only [List.append_assoc] using byteLength_staging p.front p.name attempt ("/" ++ Text.joinWith "/" [name])

/-- The three names are those of three entries. -/
theorem IsPlatformName.siblings (h : IsPlatformName p.name) (attempt n : Nat) :
    Siblings (child d p.name) (child d (stagingName p.name attempt)) ∧
      Siblings (child d p.name) (child d (p.asideName (Text.hex 32 n))) ∧
        Siblings (child d (p.asideName (Text.hex 32 n))) (child d (stagingName p.name attempt)) := by
  have hstaged := canonical_of_isString (h.isString_stagingName attempt)
  have haside := canonical_of_isString (h.isString_asideName n)
  have hname := canonical_of_isString h.isString
  refine ⟨siblings_child ?_, siblings_child ?_, siblings_child ?_⟩
  · rw [hname, hstaged]
    intro he
    have hlen := congrArg List.length he
    simp [stagingName, Text.join] at hlen
    omega
  · rw [hname, haside]
    intro he
    have hlen := congrArg List.length he
    simp [FilePath.asideName, Text.join] at hlen
    omega
  · rw [haside, hstaged]
    intro he
    have hmem : CodePoint.char 'o' ∈ Action.temporaryEnding attempt := by
      have hrest : ("old-" : Text) ++ Text.hex 32 n = Action.temporaryEnding attempt := by
        simpa [FilePath.asideName, stagingName, Text.join] using he
      rw [← hrest]
      simp
    obtain ⟨d, hd, -, hne⟩ := Text.mem_temporaryEnding hmem
    exact hne (CodePoint.char.inj hd).symm

end FileSystem

end Prebuilt
