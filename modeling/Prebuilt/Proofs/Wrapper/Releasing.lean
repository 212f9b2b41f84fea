import Prebuilt.Proofs.Version.Publishing
import Prebuilt.Proofs.Wrapper.Finding
/-!
Wrappers of releases: where they install to, what they download, and which settings are in force for them in the course of other calls.
-/
set_option autoImplicit false

namespace Prebuilt

open FileSystem Action FilePath

variable {m m' m₁ : Machine} {w : Wrapper} {i : Installation} {plan : Plan} {force : Json} {version root key : Text} {dependency : Dependency}

/-! ## Wrappers of releases -/

/-- A version that metadata may name. -/
def Metadata.Accepts (version : Text) : Prop := ∃ fields metadata, ofFields fields = .ok metadata ∧ metadata.version = version

theorem Metadata.accepts_iff : Accepts version ↔ Version.isSemantic version = true := by
  constructor
  · rintro ⟨fields, metadata, hfields, rfl⟩
    exact (ofFields_ok hfields).2
  · intro h
    exact ⟨_, _, (ofFields_version version).trans (if_pos h), rfl⟩

namespace Release

/-- The directory that releases are installed in. -/
def directoryIn (root : Text) : FilePath := ofText root / Installation.unpackedName

/-- Where they are installed to. -/
def destinationIn (root key : Text) : FilePath := directoryIn root / key

theorem isPlatformName (hkey : key ∈ Table.keys platforms) : IsPlatformName key := by
  have hkeys : ∀ key ∈ Table.keys platforms, Platform.isKnownKey key = true := by decide
  exact isPlatformName_of_isKnownKey (hkeys key hkey)

theorem tidy_directoryIn (root : Text) : (directoryIn root).Tidy := (tidy_ofText root).div _

theorem tidy_destinationIn (root key : Text) : (destinationIn root key).Tidy := (tidy_directoryIn root).div _

theorem destinationIn_eq (hname : IsComponent key) : destinationIn root key = (directoryIn root).under [key] :=
  div_eq_under_one _ hname

theorem directoryIn_eq (root : Text) : directoryIn root = (ofText root).under [Installation.unpackedName] :=
  div_eq_under_one _ ⟨⟨by decide, by decide⟩, by decide⟩

theorem name_destinationIn (hname : IsComponent key) : (destinationIn root key).name = key := by
  rw [destinationIn_eq hname, FilePath.name, under, List.getLast?_concat, Option.getD_some]

theorem downward_under {p : FilePath} (hp : p.Tidy) {name : Text} (hname : IsComponent name) (hdown : ∀ part ∈ p.parts, part ≠ "..") :
    Path.Downward (p.under [name]).toText := by
  rw [Path.Downward, (hp.under (by simpa using hname.isStep)).names_toText, under]
  intro part hpart
  rcases List.mem_append.1 hpart with hpart | hpart
  · exact hdown part hpart
  · exact List.mem_singleton.1 hpart ▸ hname.isName.2

theorem downward_directoryIn (hdown : Path.Downward root) : Path.Downward (directoryIn root).toText := by
  rw [directoryIn_eq]
  exact downward_under (tidy_ofText root) ⟨⟨by decide, by decide⟩, by decide⟩ hdown

theorem downward_destinationIn (hname : IsComponent key) (hdown : Path.Downward root) : Path.Downward (destinationIn root key).toText := by
  have hdown := downward_directoryIn hdown
  rw [Path.Downward, (tidy_directoryIn root).names_toText] at hdown
  rw [destinationIn_eq hname]
  exact downward_under (tidy_directoryIn root) hname hdown

end Release

/-- The installation of a release. -/
structure Installation.IsRelease (i : Installation) (version root key : Text) : Prop where
  config : i.config = WrapConfig.ofVersion version root
  key : i.key = key
  directory : i.directory = .ok (Release.directoryIn root)

namespace Installation.IsRelease

variable (h : i.IsRelease version root key)

include h

theorem destination : i.destination = .ok (Release.destinationIn root key) := by
  rw [Installation.destination, h.directory, h.key]
  rfl

theorem fields : WrapConfig.ofFields i.config.toFields = .ok i.config :=
  WrapConfig.ofFields_ok_iff_isAcceptable.2 ⟨WrapConfig.isReadFrom_toFields _, h.config ▸ WrapConfig.isAcceptable_ofVersion ..⟩

theorem isValid : i.config.IsValid := WrapConfig.isValid_of_fields h.fields

theorem supported (hkey : key ∈ Table.keys Release.platforms) : ∃ dependency, i.hostDependency = .ok dependency := by
  have hkeys : ∀ key ∈ Table.keys Release.platforms, ∃ url, Table.get? key (Release.urls version) = some url := by
    simp only [Table.keys, Release.platforms, List.map_cons, List.map_nil, List.forall_mem_cons, List.not_mem_nil, false_implies,
      implies_true, and_true]
    exact ⟨⟨_, rfl⟩, ⟨_, rfl⟩, ⟨_, rfl⟩⟩
  obtain ⟨url, hurl⟩ := hkeys key hkey
  rw [← h.key] at hurl
  obtain ⟨dependency, hdependency, -⟩ := Installation.hostDependency_of_get? h.fields (by rw [h.config]; exact hurl)
  exact ⟨dependency, hdependency⟩

theorem of_hostDependency (hdependency : i.hostDependency = .ok dependency) :
    (key, dependency.url) ∈ Release.urls version ∧ archiveType dependency.url = .ok dependency.archiveType ∧
      dependency.archiveType = "tar.gz" := by
  obtain ⟨plan, hplans⟩ := i.exists_plans (.bool true) hdependency h.destination
  have hfound := hplans.dependency?
  rw [Except.ok.inj (hplans.dependency.symm.trans hdependency)] at hfound
  have htype := (h.isValid.of_dependency hfound).2
  rw [h.config, h.key] at hfound
  refine ⟨?_, htype, WrapConfig.archiveType_ofVersion hfound⟩
  rw [WrapConfig.dependency?] at hfound
  split at hfound
  · cases hfound
  · rename_i url hget
    obtain ⟨type, htype⟩ := ((h.config ▸ h.isValid).entry (Table.mem_of_get? hget)).2
    rw [Dependency.ofUrl, htype] at hfound
    cases hfound
    exact Table.mem_of_get? hget

theorem hasPlainBinaries (hkey : key ∈ Table.keys Release.platforms) : i.HasPlainBinaries := by
  have hprefix : ∀ key ∈ Table.keys Release.platforms, ("win32" : Text).isPrefixOf key = false := by decide
  have hname : i.binaryName Release.binary = Release.binary := by
    rw [Installation.binaryName, h.key, hprefix key hkey]
    rfl
  have hbinaries : i.config.binaries = [Release.binary] := by rw [h.config]; rfl
  constructor <;> rw [hbinaries]
  · intro binary hbinary
    rw [List.mem_singleton.1 hbinary, hname]
    exact ⟨⟨by decide, by decide⟩, by decide⟩
  · decide
  · decide

variable (hplans : i.Plans force plan)

include hplans

theorem plan_path : plan.path = Release.destinationIn root key :=
  Except.ok.inj ((hplans.destination_eq h.isValid).symm.trans h.destination)

theorem plan_sane (hdown : Path.Downward root) : plan.Sane := by
  refine hplans.sane h.isValid fun dir hdir => ?_
  cases h.directory.symm.trans hdir
  exact Release.downward_directoryIn hdown

end Installation.IsRelease

/-- A wrapper for a release of a version that is accepted, in the directory and for the platform; no other directory is set. -/
structure Wrapper.Releases (w : Wrapper) (version root key : Text) (m : Machine) : Prop where
  accepted : Metadata.Accepts version
  config : w.config = WrapConfig.ofVersion version root
  settled : ∀ i m₁, exec w.installation m = (.ok i, m₁) → i.key = key ∧ i.settings.installDirectory.isFalsy = true

theorem Wrapper.Releases.isRelease (h : w.Releases version root key m) (hinstallation : exec w.installation m = (.ok i, m₁)) :
    i.IsRelease version root key := by
  obtain ⟨hkey, hsettings⟩ := h.settled i m₁ hinstallation
  obtain ⟨settings, -, rfl⟩ := Wrapper.installation_ok hinstallation
  refine ⟨h.config, hkey, ?_⟩
  rw [Installation.directory, if_pos hsettings, h.config]
  rfl

/-! ## Settings along the way -/

/-- No wrapper gets an installation that it would not have got before. -/
def Machine.Admits (m m' : Machine) : Prop :=
  ∀ (w : Wrapper) i m₁, exec w.installation m' = (.ok i, m₁) → ∃ m₂, exec w.installation m = (.ok i, m₂)

namespace Machine

theorem admits_refl (m : Machine) : m.Admits m := fun _ _ m₁ h => ⟨m₁, h⟩

theorem Admits.trans (h : m.Admits m₁) (h' : m₁.Admits m') : m.Admits m' := by
  intro w i m₂ hrun
  obtain ⟨m₃, hrun⟩ := h' w i m₂ hrun
  exact h w i m₃ hrun

theorem admits_of_settings (hhost : m'.host = m.host) (h : ∀ (w : Wrapper) settings m₁,
    exec w.currentSettings m' = (.ok settings, m₁) → ∃ m₂, exec w.currentSettings m = (.ok settings, m₂)) : m.Admits m' := by
  intro w i m₁ hrun
  obtain ⟨settings, hsettings, rfl⟩ := Wrapper.installation_ok hrun
  obtain ⟨m₂, hbefore⟩ := h w settings m₁ hsettings
  exact ⟨m₂, hhost ▸ Wrapper.exec_installation hbefore⟩

theorem admits_of_same (hhost : m'.host = m.host) (hsettings : m'.settings = m.settings) (henvironment : m'.environment = m.environment) :
    m.Admits m' := by
  refine admits_of_settings hhost fun w settings m₁ hrun => ?_
  rw [Wrapper.exec_currentSettings_eq, hsettings, henvironment] at hrun
  rw [Wrapper.exec_currentSettings_eq]
  split at hrun
  · cases hrun
    exact ⟨_, rfl⟩
  · split at hrun
    · cases hrun
    · cases hrun
      exact ⟨_, rfl⟩

end Machine

/-- What a wrapper reads for good is what any wrapper would have read. -/
theorem Wrapper.admits_currentSettings (w : Wrapper) (m : Machine) : m.Admits (exec w.currentSettings m).2 := by
  rw [exec_currentSettings_eq]
  split
  · exact m.admits_refl
  rename_i hnone
  split
  · exact m.admits_refl
  rename_i read hread
  refine Machine.admits_of_settings rfl fun w' settings m₁ hrun => ?_
  rw [exec_currentSettings_eq] at hrun ⊢
  by_cases hname : w.name = w'.name
  · have hfree : Table.get? w'.name m.settings = none := hname ▸ (Option.or_eq_none_iff.1 hnone).2
    have hput : Table.get? w'.name (Table.put w.name read m.settings) = some read := hname ▸ Table.get?_put ..
    simp only [hput] at hrun
    cases hgiven : w'.settings with
    | some given =>
      simp only [hgiven, Option.some_or] at hrun ⊢
      cases hrun
      exact ⟨_, rfl⟩
    | none =>
      simp only [hgiven, Option.none_or] at hrun
      cases hrun
      simp only [hfree, Option.or_none, hread]
      exact ⟨_, rfl⟩
  · have hput : Table.get? w'.name (Table.put w.name read m.settings) = Table.get? w'.name m.settings := Table.get?_put_of_ne hname ..
    simp only [hput] at hrun
    split at hrun
    · cases hrun
      exact ⟨_, rfl⟩
    · split at hrun
      · cases hrun
      · cases hrun
        exact ⟨_, rfl⟩

theorem Wrapper.admits_installation {r : Except Error Installation} (h : exec w.installation m = (r, m₁)) :
    m.Admits m₁ ∧ m₁ = { m with settings := m₁.settings } := by
  obtain rfl : (exec w.currentSettings m).2 = m₁ := by
    rcases hrun : exec w.currentSettings m with ⟨r', m₂⟩
    cases r' with
    | error e =>
      rw [installation, exec_bind_of_error hrun] at h
      exact congrArg Prod.snd h
    | ok settings =>
      rw [exec_installation hrun] at h
      exact congrArg Prod.snd h
  refine ⟨w.admits_currentSettings m, ?_⟩
  rw [exec_currentSettings_eq]
  split
  · rfl
  · split <;> rfl

end Prebuilt
