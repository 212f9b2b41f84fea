import Prebuilt.Proofs.Install.Recognising
import Prebuilt.Proofs.Wrapper.Running
/-!
Where the binaries of a wrapper lie. A configuration that was accepted names no binary with a separator in it, so all of them are
looked for in the destination itself. The check of the names lets the two dots pass: of these one leads to the destination and two
lead out of it, except on platforms where a suffix is put after them.
-/
set_option autoImplicit false

namespace Prebuilt

open FileSystem

variable {name binary : Text} {fields : Fields}

namespace FilePath

/-- The path of an entry of a directory: the directory is its parent, and its last component is a name of its own. -/
structure IsEntryOf (path directory : FilePath) : Prop where
  parent : path.parent = directory
  component : IsComponent path.name

/-- Nothing but a name of its own leads to an entry. -/
theorem isEntryOf_div_iff (d : FilePath) (hslash : CodePoint.char '/' ∉ name) : (d / name).IsEntryOf d ↔ IsComponent name := by
  rw [d.div_eq_under hslash, Path.names_of_no_slash hslash]
  by_cases hpart : isPart name = true
  · have hname : (d.under [name]).name = name := by simp [FilePath.name, under]
    have hparent : (d.under [name]).parent = d := by simp [FilePath.parent, under]
    rw [if_pos hpart]
    exact ⟨fun h => hname ▸ h.component, fun h => ⟨hparent, hname.symm ▸ h⟩⟩
  · rw [if_neg hpart, under_nil]
    refine ⟨fun h => ?_, fun h => absurd h.isName.1 hpart⟩
    -- A path is its own parent if it has no components; then it has no last one either.
    have hnone : d.parts = [] := by
      have hlen := congrArg (fun p : FilePath => p.parts.length) h.parent
      simp only [FilePath.parent, List.length_dropLast] at hlen
      exact List.length_eq_zero_iff.1 (by omega)
    exact absurd (by rw [FilePath.name, hnone]; rfl) h.component.ne_nil

end FilePath

namespace Installation

variable {i : Installation} {destination : FilePath}

/-- The destination has a path if the directory that is set is given as text, or not at all. -/
theorem destination_ok_iff : (∃ destination, i.destination = .ok destination) ↔
    i.settings.installDirectory.isFalsy = true ∨ ∃ t, i.settings.installDirectory = .text t := by
  have hmap : (∃ destination, i.destination = .ok destination) ↔ ∃ dir, i.directory = .ok dir := by
    rw [Installation.destination]
    cases i.directory with
    | ok dir => exact ⟨fun _ => ⟨dir, rfl⟩, fun _ => ⟨_, rfl⟩⟩
    | error e =>
      refine iff_of_false ?_ ?_ <;> rintro ⟨_, h⟩ <;> cases h
  rw [hmap, directory]
  cases i.settings.installDirectory.isFalsy with
  | true => simp
  | false => cases i.settings.installDirectory <;> simp

/-- The suffix of executables makes a name of whatever it is put after. -/
theorem isComponent_of_suffix (hslash : CodePoint.char '/' ∉ name) (hsuffix : executableSuffix <:+ name) : IsComponent name :=
  isComponent_of_dot hslash (Nat.lt_of_lt_of_le (by decide) hsuffix.length_le)

/-- The file of a binary has a name of its own, if the platform has a suffix for executables or the binary is not called dots. -/
theorem isComponent_binaryName_iff (i : Installation) (hbinary : WrapConfig.isBinaryName binary = true) :
    IsComponent (i.binaryName binary) ↔ ("win32" : Text).isPrefixOf i.key = true ∨ (binary ≠ "." ∧ binary ≠ "..") := by
  obtain ⟨hne, hslash, -⟩ := WrapConfig.isBinaryName_iff.1 hbinary
  rw [binaryName]
  cases hwindows : ("win32" : Text).isPrefixOf i.key with
  | true =>
    refine iff_of_true ?_ (.inl rfl)
    cases hsuffix : executableSuffix.isSuffixOf binary with
    | true => exact isComponent_of_suffix hslash (List.isSuffixOf_iff_suffix.1 hsuffix)
    | false =>
      refine isComponent_of_suffix ?_ (List.suffix_append binary executableSuffix)
      exact fun h => (List.mem_append.1 h).elim hslash (by decide)
  | false =>
    simp only [Bool.false_and, Bool.false_eq_true, if_false, false_or]
    exact ⟨fun h => ⟨(FilePath.isPart_iff.1 h.isName.1).2, h.isName.2⟩, fun h => ⟨⟨FilePath.isPart_iff.2 ⟨hne, h.1⟩, h.2⟩, hslash⟩⟩

theorem slash_not_mem_binaryName (i : Installation) (hslash : CodePoint.char '/' ∉ binary) :
    CodePoint.char '/' ∉ i.binaryName binary := by
  rw [binaryName]
  split
  · exact fun h => (List.mem_append.1 h).elim hslash (by decide)
  · exact hslash

/-- A binary lies in the destination under a name of its own, unless it is called dots. -/
theorem binaryPath_isEntryOf (hdestination : i.destination = .ok destination) (hbinary : WrapConfig.isBinaryName binary = true) :
    i.binaryPath binary = .ok (destination / i.binaryName binary) ∧
      ((destination / i.binaryName binary).IsEntryOf destination ↔
        ("win32" : Text).isPrefixOf i.key = true ∨ (binary ≠ "." ∧ binary ≠ "..")) := by
  have hslash := i.slash_not_mem_binaryName (WrapConfig.isBinaryName_iff.1 hbinary).2.1
  refine ⟨by rw [binaryPath, hdestination]; rfl, ?_⟩
  rw [FilePath.isEntryOf_div_iff _ hslash, i.isComponent_binaryName_iff hbinary]

end Installation

namespace Wrapper

open Action

variable {w : Wrapper} {i : Installation} {m m' m₁ : Machine} {path destination : FilePath}

/-- What an installation gives, if it returns, is the path of the destination. -/
theorem install_ok {force : Json} (hinstallation : exec w.installation m = (.ok i, m₁))
    (h : exec (w.install force) m = (.ok path, m')) : i.destination = .ok path := by
  obtain ⟨settings, -, hi⟩ := installation_ok hinstallation
  obtain ⟨r, j, m₂, hwork, -, hending⟩ := work_ending w force (i := i) (by rw [hi]) (by rw [hi]) m₁
  rw [exec_install hinstallation, hwork] at h
  cases h
  exact hending.of_ok.2

/-- A run starts the binary under the path that it has, or starts nothing. -/
theorem run_starts (hinstallation : exec w.installation m = (.ok i, m₁)) (hdestination : i.destination = .ok destination)
    (binary : Text) (arguments : List Text) :
    (exec (w.run binary arguments) m).2.journal.started = m.journal.started ∨
      (exec (w.run binary arguments) m).2.journal.started =
        m.journal.started ++ [(destination / i.binaryName binary).toText :: arguments] := by
  obtain ⟨r, m', hrun, hending⟩ := run_ending hinstallation binary arguments
  rw [hrun]
  cases hending with
  | notWrapped => exact .inl rfl
  | unsupported _ _ hstill => exact .inl (by rw [hstill])
  | notInstalled _ _ _ hstarted => exact .inl hstarted
  | started _ _ hinstall hstarted =>
    cases (install_ok hinstallation hinstall).symm.trans hdestination
    exact .inr (by rw [← hstarted]; rfl)

/-- What an accepted configuration and the settings make of a binary: its path is that of an entry of the destination, unless it is
called dots and the platform puts no suffix after it. That is the path a wrapper gives, and the one it starts. -/
theorem binaries_in_destination (hconfig : WrapConfig.ofFields fields = .ok w.config)
    (hinstallation : exec w.installation m = (.ok i, m₁)) (hkey : Table.get? i.key w.config.urls ≠ none) :
    ((∃ destination, i.destination = .ok destination) ↔
        i.settings.installDirectory.isFalsy = true ∨ ∃ t, i.settings.installDirectory = .text t) ∧
      ∀ destination, i.destination = .ok destination → ∀ binary ∈ w.config.binaries, ∃ path, i.binaryPath binary = .ok path ∧
        (path.IsEntryOf destination ↔ ("win32" : Text).isPrefixOf i.key = true ∨ (binary ≠ "." ∧ binary ≠ "..")) ∧
        exec (w.path binary) m = (.ok path, m₁) ∧
        ∀ arguments, (exec (w.run binary arguments) m).2.journal.started = m.journal.started ∨
          (exec (w.run binary arguments) m).2.journal.started = m.journal.started ++ [path.toText :: arguments] := by
  refine ⟨Installation.destination_ok_iff, fun destination hdestination binary hbinary => ?_⟩
  obtain ⟨settings, -, hi⟩ := installation_ok hinstallation
  have hsame : i.config = w.config := by rw [hi]
  obtain ⟨url, hurl⟩ := Option.ne_none_iff_exists'.1 hkey
  obtain ⟨dependency, hdependency, -⟩ := Installation.hostDependency_of_get? (hsame ▸ hconfig) (hsame ▸ hurl)
  obtain ⟨hpath, hentry⟩ := Installation.binaryPath_isEntryOf hdestination
    ((WrapConfig.isValid_of_fields hconfig).binaries binary hbinary)
  have hcheck : w.checkBinary binary = .ok () := if_pos hbinary
  refine ⟨_, hpath, hentry, ?_, run_starts hinstallation hdestination binary⟩
  rw [Wrapper.path, hcheck, exec_bind_of_ok (exec_ofExcept _), exec_bind_of_ok hinstallation, hdependency, hpath,
    exec_bind_of_ok (exec_ofExcept _), exec_ofExcept]

/-- The fields of a configuration in the machine's root. -/
def plainFields (binary : Text) : Fields :=
  [("dirname", .text "/"), ("binaries", .array [.text binary]), ("urls", .object [("linux-x64", .text "https://h/run.tar")])]

theorem binaries_in_destination_run : ∃ path, (hosted ["run"] "https://h/run.tar").binaryPath "run" = .ok path ∧
    path.IsEntryOf ⟨"/", ["unpacked_bin", "linux-x64"]⟩ := by
  have hconfig : WrapConfig.ofFields (plainFields "run") = .ok (wrapping ["run"] "https://h/run.tar").config := rfl
  obtain ⟨path, hpath, hentry, -⟩ := (binaries_in_destination (w := wrapping ["run"] "https://h/run.tar")
    hconfig (exec_installation_wrapping ["run"] "https://h/run.tar" (serving [] emptyFiles)) (by decide)).2
    ⟨"/", ["unpacked_bin", "linux-x64"]⟩ (destination_hosted _ _) "run" (by decide)
  exact ⟨path, hpath, hentry.2 (.inr ⟨by decide, by decide⟩)⟩

/-- One dot is the destination itself, and two lead to the directory above it. -/
theorem binaries_outside : WrapConfig.ofFields (plainFields ".") = .ok (hosted ["."] "https://h/run.tar").config ∧
    (hosted ["."] "https://h/run.tar").binaryPath "." = (hosted ["."] "https://h/run.tar").destination ∧
    WrapConfig.ofFields (plainFields "..") = .ok (hosted [".."] "https://h/run.tar").config ∧
    (hosted [".."] "https://h/run.tar").destination = .ok ⟨"/", ["unpacked_bin", "linux-x64"]⟩ ∧
    (hosted [".."] "https://h/run.tar").binaryPath ".." = .ok ⟨"/", ["unpacked_bin", "linux-x64", ".."]⟩ ∧
    ¬FilePath.IsEntryOf ⟨"/", ["unpacked_bin", "linux-x64", ".."]⟩ ⟨"/", ["unpacked_bin", "linux-x64"]⟩ :=
  ⟨rfl, by cbv, rfl, destination_hosted _ _, by cbv, fun h => h.component.isName.2 rfl⟩

end Wrapper

end Prebuilt
