import Prebuilt.Package
import Prebuilt.Proofs.Install.Planning
import Prebuilt.Proofs.Platforms
/-!
Configurations and what becomes of them. An object is accepted exactly if it describes binaries and archives that can be handled, and
then every later question about an archive has an answer: the type of an archive is found again from its address, and it is one
that can be unpacked. The configuration of every release of the tool is among those accepted.
-/
set_option autoImplicit false

namespace Prebuilt

variable {key url type suffix t : Text} {suffixes : List (Text × Text)} {fields : Fields} {config : WrapConfig}

/-! ## Endings -/

namespace Text

/-- What stands after a text has no say in how much of it there is once all is in lower case. -/
theorem lowerFrom_append (before a b : Text) : ∃ lowered, lowerFrom before (a ++ b) = lowered ++ lowerFrom (a.reverse ++ before) b := by
  induction a generalizing before with
  | nil => exact ⟨[], rfl⟩
  | cons c r ih =>
    obtain ⟨lowered, hrest⟩ := ih (c :: before)
    rw [List.reverse_cons, List.append_assoc, List.singleton_append, List.cons_append, lowerFrom, hrest]
    split
    · exact ⟨lowerSigma before (r ++ b) :: lowered, rfl⟩
    · exact ⟨c.lower ++ lowered, (List.append_assoc ..).symm⟩

theorem afterLast_append (a : Text) {b : Text} {sep : CodePoint} (hb : sep ∉ b) : afterLast sep (a ++ b) = afterLast sep a ++ b := by
  have hall : ∀ c ∈ b.reverse, (c != sep) = true := fun c hc => bne_iff_ne.2 fun he => hb (he ▸ List.mem_reverse.1 hc)
  rw [afterLast, List.reverse_append, List.takeWhile_append_of_pos hall, List.reverse_append, List.reverse_reverse, afterLast]

end Text

/-- The type that a table of endings has for the archive at an address. -/
def typeAmong? (suffixes : List (Text × Text)) (url : Text) : Option Text :=
  (suffixes.find? fun entry => entry.1.isSuffixOf (Text.lower (Text.afterLast '/' url))).map (·.2)

/-- The file name at the end of an address has an ending of the type, in whatever case. -/
def IsTyped (url type : Text) : Prop := ∃ suffix, (suffix, type) ∈ archiveSuffixes ∧ suffix <:+ Text.lower (Text.afterLast '/' url)

/-- No name has two of the endings. -/
theorem eq_of_suffix {a b : Text × Text} (ha : a ∈ archiveSuffixes) (hb : b ∈ archiveSuffixes) (hat : a.1 <:+ t) (hbt : b.1 <:+ t) :
    a = b := by
  have hnested : ∀ a ∈ archiveSuffixes, ∀ b ∈ archiveSuffixes, a.1 <:+ b.1 → a = b := by decide
  rcases List.suffix_or_suffix_of_suffix hat hbt with h | h
  · exact hnested a ha b hb h
  · exact (hnested b hb a ha h).symm

/-- In whatever order the endings are tried, they find one type. -/
theorem typeAmong?_eq_some_iff (hsuffixes : suffixes.Perm archiveSuffixes) : typeAmong? suffixes url = some type ↔ IsTyped url type := by
  rw [typeAmong?, Option.map_eq_some_iff]
  constructor
  · rintro ⟨⟨suffix, name⟩, hfind, rfl⟩
    exact ⟨suffix, hsuffixes.mem_iff.1 (List.mem_of_find?_eq_some hfind), by simpa using List.find?_some hfind⟩
  · rintro ⟨suffix, hmem, hsuffix⟩
    cases hfind : suffixes.find? fun entry => entry.1.isSuffixOf (Text.lower (Text.afterLast '/' url)) with
    | none => exact absurd (List.isSuffixOf_iff_suffix.2 hsuffix) (List.find?_eq_none.1 hfind _ (hsuffixes.mem_iff.2 hmem))
    | some entry =>
      have hentry := hsuffixes.mem_iff.1 (List.mem_of_find?_eq_some hfind)
      have hends : entry.1 <:+ Text.lower (Text.afterLast '/' url) := by simpa using List.find?_some hfind
      exact ⟨entry, rfl, congrArg Prod.snd (eq_of_suffix hentry hmem hends hsuffix)⟩

theorem archiveType_ok_iff : archiveType url = .ok type ↔ IsTyped url type := by
  rw [← typeAmong?_eq_some_iff (List.Perm.refl _), archiveType, typeAmong?]
  cases archiveSuffixes.find? fun entry => entry.1.isSuffixOf (Text.lower (Text.afterLast '/' url)) <;> simp

/-- Every type is unpacked in one of three ways. -/
theorem unpackArchive_of_isTyped (h : IsTyped url type) (archive target : Text) :
    Action.unpackArchive archive target type = Tar.extract true archive target ∨
      Action.unpackArchive archive target type = Tar.extract false archive target ∨
        Action.unpackArchive archive target type = Zip.extract archive target := by
  obtain ⟨suffix, hmem, -⟩ := h
  simp only [archiveSuffixes, List.mem_cons, Prod.mk.injEq, List.not_mem_nil, or_false] at hmem
  rcases hmem with ⟨-, rfl⟩ | ⟨-, rfl⟩ | ⟨-, rfl⟩ | ⟨-, rfl⟩
  · exact .inl rfl
  · exact .inl rfl
  · exact .inr (.inl rfl)
  · exact .inr (.inr rfl)

/-- The ending survives whatever stands before it, letters that change with their surroundings included. -/
theorem isTyped_append (a : Text) : IsTyped (a ++ ".tar.gz") "tar.gz" := by
  have hslash : CodePoint.char '/' ∉ (".tar.gz" : Text) := by decide
  obtain ⟨lowered, hlower⟩ := Text.lowerFrom_append [] (Text.afterLast '/' a) ".tar.gz"
  refine ⟨".tar.gz", by decide, ?_⟩
  rw [Text.afterLast_append a hslash, Text.lower, hlower]
  exact List.suffix_append lowered _

/-! ## Acceptance -/

namespace WrapConfig

/-- The fields hold what the configuration says. -/
structure IsReadFrom (config : WrapConfig) (fields : Fields) : Prop where
  directory : Table.get? "dirname" fields = some (.text config.directory)
  binaries : Table.get? "binaries" fields = some (.array (config.binaries.map .text))
  urls : Table.get? "urls" fields = some (.object (config.urls.map fun entry => (entry.1, .text entry.2)))

/-- There are binaries, whose names are no paths, and archives, each for a platform and of a type. -/
structure IsAcceptable (config : WrapConfig) : Prop where
  someBinary : config.binaries ≠ []
  binaries : ∀ binary ∈ config.binaries, binary ≠ [] ∧ CodePoint.char '/' ∉ binary ∧ CodePoint.char '\\' ∉ binary
  someUrl : config.urls ≠ []
  urls : ∀ entry ∈ config.urls, (∃ platform : Platform, platform.key = entry.1) ∧ ∃ type, IsTyped entry.2 type

theorem urlsFault?_eq_none_iff {urls : List (Text × Text)} : urlsFault? urls = none ↔ urls ≠ [] ∧
    ∀ entry ∈ urls, (∃ platform : Platform, platform.key = entry.1) ∧ ∃ type, IsTyped entry.2 type := by
  have hunknown : (urls.map (·.1)).filter (!Platform.isKnownKey ·) = [] ↔
      ∀ entry ∈ urls, ∃ platform : Platform, platform.key = entry.1 := by
    simp [List.filter_eq_nil_iff, Platform.isKnownKey_iff]
  rw [urlsFault?]
  dsimp only
  by_cases hempty : urls = []
  · simp [hempty]
  rw [if_neg (by simpa using hempty)]
  by_cases hknown : (urls.map (·.1)).filter (!Platform.isKnownKey ·) = []
  · rw [if_neg (by simp [hknown]), List.findSome?_eq_none_iff]
    refine ⟨fun h => ⟨hempty, fun entry hentry => ⟨hunknown.1 hknown entry hentry, ?_⟩⟩, fun h entry hentry => ?_⟩
    · have hfine := h entry hentry
      cases htype : archiveType entry.2 with
      | ok type => exact ⟨type, archiveType_ok_iff.1 htype⟩
      | error e =>
        rw [htype] at hfine
        cases hfine
    · obtain ⟨type, htyped⟩ := (h.2 entry hentry).2
      rw [archiveType_ok_iff.2 htyped]
  · rw [if_pos (by simpa using hknown)]
    exact iff_of_false (by simp) fun h => hknown (hunknown.2 fun entry hentry => (h.2 entry hentry).1)

/-- An object is accepted if and only if it describes an acceptable configuration, and that is what is made of it. -/
theorem ofFields_ok_iff_isAcceptable : ofFields fields = .ok config ↔ config.IsReadFrom fields ∧ config.IsAcceptable := by
  simp only [ofFields_ok_iff, Fields.required_ok_iff, Json.asText_ok_iff, checkedBinaries_ok_iff, Json.asTexts_ok_iff,
    isBinaryName_iff, checkedUrls_ok_iff, Json.asTable_ok_iff, urlsFault?_eq_none_iff]
  constructor
  · rintro ⟨⟨_, hdirectory, rfl⟩, ⟨_, hbinaries, ⟨hsome, rfl⟩, hnames⟩, _, hurls, rfl, hany, htyped⟩
    exact ⟨⟨hdirectory, hbinaries, hurls⟩, ⟨hsome, hnames, hany, htyped⟩⟩
  · rintro ⟨hread, hfine⟩
    exact ⟨⟨_, hread.directory, rfl⟩, ⟨_, hread.binaries, ⟨hfine.someBinary, rfl⟩, hfine.binaries⟩, _, hread.urls, rfl,
      hfine.someUrl, hfine.urls⟩

/-- The fields that a configuration is read from. -/
def toFields (config : WrapConfig) : Fields :=
  [("dirname", .text config.directory), ("binaries", .array (config.binaries.map .text)),
    ("urls", .object (config.urls.map fun entry => (entry.1, .text entry.2)))]

theorem isReadFrom_toFields (config : WrapConfig) : config.IsReadFrom config.toFields := ⟨rfl, rfl, rfl⟩

/-! ## Looking up -/

/-- The archives of a table whose addresses all have a type, one for one. -/
theorem mapM_ofUrl {urls : List (Text × Text)} (h : ∀ entry ∈ urls, ∃ type, IsTyped entry.2 type) :
    ∃ all, (urls.mapM fun entry => (Dependency.ofUrl entry.1 entry.2).map fun d => (entry.1, d)) = .ok all ∧
      ∀ key url, Table.get? key urls = some url → ∃ dependency, Dependency.ofUrl key url = .ok dependency ∧
        Table.get? key all = some dependency := by
  induction urls with
  | nil => exact ⟨[], rfl, fun key url hget => by cases hget⟩
  | cons entry rest ih =>
    obtain ⟨first, address⟩ := entry
    obtain ⟨type, htype⟩ := h (first, address) List.mem_cons_self
    obtain ⟨all, hall, hget⟩ := ih fun entry hentry => h entry (List.mem_cons_of_mem _ hentry)
    have hfirst : Dependency.ofUrl first address = .ok ⟨first, address, type⟩ := by
      rw [Dependency.ofUrl, archiveType_ok_iff.2 htype]
      rfl
    refine ⟨(first, ⟨first, address, type⟩) :: all, ?_, fun key url hkey => ?_⟩
    · rw [List.mapM_cons, hfirst, hall]
      rfl
    · rw [Table.get?] at hkey ⊢
      by_cases hsame : first = key
      · rw [if_pos hsame, Option.some.injEq] at hkey
        rw [if_pos hsame, ← hsame, ← hkey]
        exact ⟨_, hfirst, rfl⟩
      · rw [if_neg hsame] at hkey ⊢
        exact hget key url hkey

/-- What a configuration has for a key: the archive at the address, which the list of all archives has too. Its type is that of the
address, in whatever order the endings are tried, and it can be unpacked. -/
structure Offers (config : WrapConfig) (key url : Text) (dependency : Dependency) : Prop where
  found : config.dependency? key = .ok (some dependency)
  listed : ∃ all, config.dependencies = .ok all ∧ Table.get? key all = some dependency
  platformKey : dependency.platformKey = key
  address : dependency.url = url
  typed : ∀ suffixes, suffixes.Perm archiveSuffixes → typeAmong? suffixes url = some dependency.archiveType
  unpacked : ∀ archive target, Action.unpackArchive archive target dependency.archiveType = Tar.extract true archive target ∨
    Action.unpackArchive archive target dependency.archiveType = Tar.extract false archive target ∨
      Action.unpackArchive archive target dependency.archiveType = Zip.extract archive target

theorem IsAcceptable.offers (h : config.IsAcceptable) (hget : Table.get? key config.urls = some url) :
    ∃ dependency, config.Offers key url dependency := by
  obtain ⟨all, hall, hlisted⟩ := mapM_ofUrl fun entry hentry => (h.urls entry hentry).2
  obtain ⟨dependency, hdependency, hfound⟩ := hlisted key url hget
  have hmade : (archiveType url).map (fun type => (⟨key, url, type⟩ : Dependency)) = .ok dependency := hdependency
  obtain ⟨type, htype, rfl⟩ := map_ok_iff.1 hmade
  refine ⟨⟨key, url, type⟩, ?_, ⟨all, hall, hfound⟩, rfl, rfl,
    fun suffixes hperm => (typeAmong?_eq_some_iff hperm).2 (archiveType_ok_iff.1 htype),
    unpackArchive_of_isTyped (archiveType_ok_iff.1 htype)⟩
  rw [dependency?, hget]
  exact congrArg (Except.map some) hdependency

theorem dependency?_of_none (h : Table.get? key config.urls = none) : config.dependency? key = .ok none := by rw [dependency?, h]

/-! ## Releases -/

theorem mem_urls_ofVersion {version directory : Text} {entry : Text × Text} (h : entry ∈ (ofVersion version directory).urls) :
    (∃ platform : Platform, platform.key = entry.1) ∧ IsTyped entry.2 "tar.gz" := by
  obtain ⟨⟨key, name⟩, hmem, hentry⟩ := List.mem_map.1 h
  obtain rfl : (key, Release.url (Release.host ++ version) version name) = entry := hentry
  have hkeys : ∀ entry ∈ Release.platforms, Platform.isKnownKey entry.1 = true := by decide
  refine ⟨Platform.isKnownKey_iff.1 (hkeys (key, name) hmem), ?_⟩
  have hend : Release.url (Release.host ++ version) version name =
      (Release.host ++ version ++ "/run_" ++ version ++ "_" ++ name) ++ ".tar.gz" := by simp [Release.url, Text.join]
  show IsTyped (Release.url (Release.host ++ version) version name) "tar.gz"
  rw [hend]
  exact isTyped_append _

theorem isAcceptable_ofVersion (version directory : Text) : (ofVersion version directory).IsAcceptable where
  someBinary := List.cons_ne_nil _ _
  binaries binary hbinary := by
    obtain rfl : binary = Release.binary := List.mem_singleton.1 hbinary
    decide
  someUrl := by simp [ofVersion, Release.urls, Release.platforms]
  urls entry hentry := ⟨(mem_urls_ofVersion hentry).1, _, (mem_urls_ofVersion hentry).2⟩

theorem archiveType_ofVersion {version directory : Text} {dependency : Dependency}
    (h : (ofVersion version directory).dependency? key = .ok (some dependency)) : dependency.archiveType = "tar.gz" := by
  cases hget : Table.get? key (ofVersion version directory).urls with
  | none => cases (dependency?_of_none hget).symm.trans h
  | some url =>
    obtain ⟨dependency', hoffers⟩ := (isAcceptable_ofVersion version directory).offers hget
    cases hoffers.found.symm.trans h
    have htyped := (typeAmong?_eq_some_iff (List.Perm.refl _)).2 (mem_urls_ofVersion (Table.mem_of_get? hget)).2
    exact Option.some.inj ((hoffers.typed _ (List.Perm.refl _)).symm.trans htyped)

/-- What is accepted, and what can be relied on from then on; a wrapper for a release always gets a configuration that is accepted. -/
theorem ofFields_decides (fields : Fields) :
    (∀ config, ofFields fields = .ok config ↔ config.IsReadFrom fields ∧ config.IsAcceptable) ∧
    (∀ config, ofFields fields = .ok config → ∀ key,
      (Table.get? key config.urls = none → config.dependency? key = .ok none) ∧
        ∀ url, Table.get? key config.urls = some url → ∃ dependency, config.Offers key url dependency) ∧
    ∀ name version directory m, ∃ w, (Package.wrapper name version directory).exec m = (.ok w, m) ∧
      w.config = ofVersion version (if (directory.getD []).isEmpty then m.package else directory.getD []) ∧
      ofFields w.config.toFields = .ok w.config ∧
      ∀ key dependency, w.config.dependency? key = .ok (some dependency) → dependency.archiveType = "tar.gz" := by
  refine ⟨fun config => ofFields_ok_iff_isAcceptable, fun config hconfig key => ⟨dependency?_of_none, fun url => ?_⟩,
    fun name version directory m => ⟨_, rfl, rfl, ?_, fun key dependency => archiveType_ofVersion⟩⟩
  · exact (ofFields_ok_iff_isAcceptable.1 hconfig).2.offers
  · exact ofFields_ok_iff_isAcceptable.2 ⟨isReadFrom_toFields _, isAcceptable_ofVersion ..⟩

end WrapConfig

end Prebuilt
