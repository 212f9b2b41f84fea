import Prebuilt.Proofs.Wrapper.Installing
/-!
Installing what is installed. A current installation is found again any number of times, and finding it leaves nothing but log
lines: no request, no client, no directory for temporary files and no change to any file.
-/
set_option autoImplicit false

namespace Prebuilt

open Action

variable {w : Wrapper} {i : Installation} {m m' m₁ : Machine} {force : Json} {dependency : Dependency} {destination : FilePath}

namespace Wrapper

/-- So many installations, one after the other, each with the books it is left with. -/
def installs (w : Wrapper) (force : Json) : Nat → Action (List (FilePath × Installation))
  | 0 => return []
  | n + 1 => do
    let first ← w.installKeeping force
    return first :: (← w.installs force n)

/-- The work on a current installation. -/
theorem exec_work_current (hplans : i.plans = []) (hstates : i.states = []) (hdependency : i.hostDependency = .ok dependency)
    (hdestination : i.destination = .ok destination) (hforce : force.isFalsy = true) (hsettings : i.settings.forceDownload.isFalsy = true)
    (hinstalled : (exec (i.isInstalled dependency) m).1 = .ok true) :
    ∃ m', Installing.exec (w.work force) i m = ((.ok destination, i.settled destination.toText), m') ∧ m.Noted m' := by
  have hplan := Installing.exec_plan (m := m) hdependency hdestination (if_pos hforce) (by rwa [if_pos hsettings])
  obtain ⟨m₁, hdownload, hm₁⟩ := Installing.downloadAll_noted (i := i.settled destination.toText) (m := m) w.client rfl
  have hbooks : (i.settled destination.toText).states = [(i.key, ⟨i.key, .completed, some destination.toText, none⟩)] := by
    rw [Installation.settled_eq hplans hstates]
  obtain ⟨m₂, hwork, hm₂⟩ := exec_work_done hplan hdownload (Installation.summary_completed rfl hbooks rfl) hdestination
  exact ⟨m₂, hwork, hm₁.trans hm₂⟩

/-- One installation of what is installed. -/
theorem exec_installKeeping_current (hinstallation : exec w.installation m = (.ok i, m₁)) (hdependency : i.hostDependency = .ok dependency)
    (hdestination : i.destination = .ok destination) (hforce : force.isFalsy = true) (hsettings : i.settings.forceDownload.isFalsy = true)
    (hinstalled : (exec (i.isInstalled dependency) m).1 = .ok true) :
    ∃ m', exec (w.installKeeping force) m =
        (.ok (destination, { i with states := [(i.key, ⟨i.key, .completed, some destination.toText, none⟩)] }), m') ∧
      m.Idle m' ∧ exec w.installation m' = (.ok i, m') := by
  obtain ⟨settings, hread, rfl⟩ := installation_ok hinstallation
  obtain ⟨hstill, hagain⟩ := currentSettings_ok hread
  have hfiles : m₁.files = m.files := by rw [hstill]
  obtain ⟨m', hwork, hm'⟩ := exec_work_current (w := w) (m := m₁) rfl rfl hdependency hdestination hforce hsettings
    (((Installation.looks_isInstalled _ dependency).same hfiles).trans hinstalled)
  have hidle : m.Idle m₁ := by rw [hstill, Machine.Idle, Machine.Noted]
  have hsame : m'.settings = m₁.settings ∧ m'.host = m₁.host := by rw [hm']; exact ⟨rfl, rfl⟩
  have hhost : m'.host = m.host := by rw [hsame.2, hstill]
  refine ⟨m', ?_, hidle.trans hm'.idle, ?_⟩
  · have hbooks := Installation.settled_eq (i := ⟨w.config, settings, w.keyOn m.host, [], []⟩) rfl rfl destination.toText
    rw [exec_installKeeping hinstallation, hwork, hbooks]
    rfl
  · rw [← hhost]
    exact exec_installation (hagain m' hsame.1)

/-- What is installed is found again any number of times. Nothing is requested and no file changes. -/
theorem installs_current (hinstallation : exec w.installation m = (.ok i, m₁)) (hdependency : i.hostDependency = .ok dependency)
    (hdestination : i.destination = .ok destination) (hforce : force.isFalsy = true) (hsettings : i.settings.forceDownload.isFalsy = true)
    (hinstalled : (exec (i.isInstalled dependency) m).1 = .ok true) (n : Nat) :
    ∃ m', exec (w.installs force n) m = (.ok (List.replicate n
        (destination, { i with states := [(i.key, ⟨i.key, .completed, some destination.toText, none⟩)] })), m') ∧ m.Idle m' := by
  induction n generalizing m m₁ with
  | zero => exact ⟨m, rfl, m.idle_refl⟩
  | succ n ih =>
    obtain ⟨m₂, hfirst, hm₂, hagain⟩ := exec_installKeeping_current hinstallation hdependency hdestination hforce hsettings hinstalled
    obtain ⟨m₃, hrest, hm₃⟩ := ih hagain (((i.looks_isInstalled dependency).same hm₂.files).trans hinstalled)
    refine ⟨m₃, ?_, hm₂.trans hm₃⟩
    rw [installs, exec_bind_of_ok hfirst, exec_bind_of_ok hrest]
    rfl

/-- An installation with one binary. -/
def installedFiles : FileSystem :=
  ⟨[(["unpacked_bin"], .directory 0o755), (["unpacked_bin", "linux-x64"], .directory 0o755),
    (["unpacked_bin", "linux-x64", ".source-url"], .file 0 0o644 ("https://h/run.tar\n".toUTF8.toList)),
    (["unpacked_bin", "linux-x64", "run"], .file 1 0o755 [35, 33])], 2, []⟩

/-- Three times in a row, with a server that does not know the archive any more. -/
theorem installs_current_thrice : ∃ m', exec ((wrapping ["run"] "https://h/run.tar").installs (.bool false) 3)
      { serving [] installedFiles with server := [] } =
    (.ok (List.replicate 3 (⟨"/", ["unpacked_bin", "linux-x64"]⟩, { hosted ["run"] "https://h/run.tar" with
      states := [("linux-x64", ⟨"linux-x64", .completed, some "/unpacked_bin/linux-x64", none⟩)] })), m') ∧
      Machine.Idle { serving [] installedFiles with server := [] } m' := by
  have htext : FilePath.toText ⟨"/", ["unpacked_bin", "linux-x64"]⟩ = "/unpacked_bin/linux-x64" := by decide
  have hinstalled : (exec ((hosted ["run"] "https://h/run.tar").isInstalled ⟨"linux-x64", "https://h/run.tar", "tar"⟩)
      { serving [] installedFiles with server := [] }).1 = .ok true := by cbv
  have hforce : (Json.bool false).isFalsy = true := rfl
  have h := installs_current (exec_installation_wrapping ["run"] "https://h/run.tar" _) (hostDependency_hosted rfl)
    (destination_hosted _ _) hforce rfl hinstalled 3
  rwa [htext] at h

end Wrapper

end Prebuilt
