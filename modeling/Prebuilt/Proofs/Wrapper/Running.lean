import Prebuilt.Proofs.Wrapper.Installing
/-!
Running a wrapped binary. A run that fails before it gets to the binary starts nothing; any other starts exactly one child
process, on what was installed, and the end of that is the end of the run.
-/
set_option autoImplicit false

namespace Prebuilt

open Action

variable {w : Wrapper} {i : Installation} {m m' m₁ : Machine} {path : FilePath} {binary : Text} {arguments : List Text}

/-- The machine once a child process has come to its end. -/
def Machine.afterChild (m : Machine) (arguments : List Text) : Machine :=
  { m with children := m.children.tail, journal := { m.journal with started := m.journal.started ++ [arguments] } }

theorem Action.exec_start (arguments : List Text) (m : Machine) :
    exec (start arguments) m = (.ok (m.children.head?.getD (.exit 0)), m.afterChild arguments) := by
  rw [start, exec_bind_of_ok (exec_record _), exec_bind_of_ok exec_get]
  cases h : m.children with
  | nil => simp [Machine.afterChild, h]
  | cons outcome more =>
    rw [exec_bind_of_ok (exec_modify _)]
    simp [Machine.afterChild, h]

namespace Installation

theorem hostDependency_of_none (h : Table.get? i.key i.config.urls = none) : i.hostDependency = .error (.unsupportedPlatform i.key) := by
  rw [hostDependency, WrapConfig.dependency?, h]
  rfl

end Installation

namespace Wrapper

/-! ## What a run can come to -/

/-- What the end of a child process makes of a run. -/
def ended (executable : Text) : ChildOutcome → Except Error Int
  | .exit code => .ok (if code < 0 then 128 - code else code)
  | .interrupted => .ok 130
  | .refused errno => .error (.download (.notExecuted executable ⟨errno, some executable, none⟩))

/-- How a run ends on the platform of an installation, and on which machine. -/
inductive RunEnding (w : Wrapper) (i : Installation) (binary : Text) (arguments : List Text) (m : Machine) :
    Except Error Int → Machine → Prop
  | notWrapped : binary ∉ w.config.binaries → RunEnding w i binary arguments m (.error (.configuration (.notWrapped binary))) m
  | unsupported {m' : Machine} : binary ∈ w.config.binaries → Table.get? i.key w.config.urls = none →
      m' = { m with settings := m'.settings } → RunEnding w i binary arguments m (.error (.unsupportedPlatform i.key)) m'
  | notInstalled {e : Error} {m' : Machine} : binary ∈ w.config.binaries → Table.get? i.key w.config.urls ≠ none →
      exec (w.install (.bool false)) m = (.error e, m') → m'.journal.started = m.journal.started →
        RunEnding w i binary arguments m (.error e) m'
  | started {path : FilePath} {m' : Machine} : binary ∈ w.config.binaries → Table.get? i.key w.config.urls ≠ none →
      exec (w.install (.bool false)) m = (.ok path, m') → m'.journal.started = m.journal.started →
        RunEnding w i binary arguments m (ended (path / i.binaryName binary).toText (m'.children.head?.getD (.exit 0)))
          (m'.afterChild ((path / i.binaryName binary).toText :: arguments))

/-- What a program makes of a run: it shows the library's own errors, and these alone. -/
def shown (name : Text) : Except Error Int × Machine → Except Error Int × Machine
  | (.ok status, m) => (.ok status, m)
  | (.error e, m) =>
    if e.isReported then
      (.ok 1, { m with journal := { m.journal with notices := m.journal.notices ++ [.text (Text.join [name, ": ", e.message, "\n"])] } })
    else (.error e, m)

/-- The binary that a program runs: the first one unless one is named. -/
def programName (w : Wrapper) (binary : Option Text) : Text :=
  if (binary.getD []).isEmpty then w.config.binaries.head?.getD [] else binary.getD []

/-! ## Installing before the run -/

/-- The path of a binary that was installed, on a machine that the installation has left. -/
theorem exec_path (hinstallation : exec w.installation m = (.ok i, m₁)) (honward : m₁.Onward m') {dependency : Dependency}
    (hdependency : i.hostDependency = .ok dependency) (hdestination : i.destination = .ok path) (hbinary : binary ∈ w.config.binaries) :
    exec (w.path binary) m' = (.ok (path / i.binaryName binary), m') := by
  obtain ⟨settings, hread, hi⟩ := installation_ok hinstallation
  obtain ⟨hstill, hagain⟩ := currentSettings_ok hread
  have hsame : m'.settings = m₁.settings ∧ m'.host = m₁.host := by rw [honward.world]; exact ⟨rfl, rfl⟩
  have hhost : m'.host = m.host := by rw [hsame.2, hstill]
  have hagain := exec_installation (hagain m' hsame.1)
  rw [hhost, ← hi] at hagain
  have hcheck : w.checkBinary binary = .ok () := if_pos hbinary
  have hpath : i.binaryPath binary = .ok (path / i.binaryName binary) := by rw [Installation.binaryPath, hdestination]; rfl
  rw [Wrapper.path, hcheck, exec_bind_of_ok (exec_ofExcept _), exec_bind_of_ok hagain, hdependency, hpath,
    exec_bind_of_ok (exec_ofExcept _), exec_ofExcept]

/-- Where there is nothing for the platform, an installation ends before it has begun. -/
theorem exec_install_unsupported (hinstallation : exec w.installation m = (.ok i, m₁)) (hnone : Table.get? i.key w.config.urls = none)
    (force : Json) : exec (w.install force) m = (.error (.unsupportedPlatform i.key), m₁) ∧ m₁ = { m with settings := m₁.settings } := by
  obtain ⟨settings, hread, hi⟩ := installation_ok hinstallation
  have hconfig : i.config = w.config := by rw [hi]
  have hdependency : i.hostDependency = .error (.unsupportedPlatform i.key) := i.hostDependency_of_none (hconfig ▸ hnone)
  refine ⟨?_, (currentSettings_ok hread).1⟩
  obtain ⟨r, j, hplan, hending⟩ := Installing.plan_ending force i m₁
  rw [exec_install hinstallation]
  cases hending with
  | unsupported he =>
    cases hdependency.symm.trans he
    rw [work, Installing.exec_bind_of_error hplan]
  | homeless he | unseen he | settled he | planned he => cases hdependency.symm.trans he

/-- An installation that returns has found its platform, and gives the path of the destination. -/
theorem WorkEnding.of_ok {force : Json} {j : Installation} (h : WorkEnding force i m (.ok path) j) :
    (∃ dependency, i.hostDependency = .ok dependency) ∧ i.destination = .ok path := by
  cases h with
  | settled hdependency hdestination => exact ⟨⟨_, hdependency⟩, hdestination⟩
  | done hdependency hdestination => exact ⟨⟨_, hdependency⟩, hdestination⟩

theorem run_ending (hinstallation : exec w.installation m = (.ok i, m₁)) (binary : Text) (arguments : List Text) :
    ∃ r m', exec (w.run binary arguments) m = (r, m') ∧ RunEnding w i binary arguments m r m' := by
  by_cases hbinary : binary ∈ w.config.binaries
  · have hcheck : w.checkBinary binary = .ok () := if_pos hbinary
    obtain ⟨settings, hread, hi⟩ := installation_ok hinstallation
    by_cases hnone : Table.get? i.key w.config.urls = none
    · obtain ⟨hinstall, hstill⟩ := exec_install_unsupported hinstallation hnone (.bool false)
      refine ⟨_, _, ?_, .unsupported hbinary hnone hstill⟩
      rw [run, hcheck, exec_bind_of_ok (exec_ofExcept _), exec_bind_of_error hinstall]
    · obtain ⟨r, j, m', hwork, honward, hending⟩ := work_ending w (.bool false) (i := i) (by rw [hi]) (by rw [hi]) m₁
      have hinstall := exec_install hinstallation (.bool false)
      rw [hwork] at hinstall
      have hstarted : m'.journal.started = m.journal.started := by rw [honward.started, (currentSettings_ok hread).1]
      cases r with
      | error e =>
        refine ⟨_, _, ?_, .notInstalled hbinary hnone hinstall hstarted⟩
        rw [run, hcheck, exec_bind_of_ok (exec_ofExcept _), exec_bind_of_error hinstall]
      | ok path =>
        obtain ⟨⟨dependency, hdependency⟩, hdestination⟩ := hending.of_ok
        refine ⟨_, _, ?_, .started hbinary hnone hinstall hstarted⟩
        rw [run, hcheck, exec_bind_of_ok (exec_ofExcept _), exec_bind_of_ok hinstall,
          exec_bind_of_ok (exec_path hinstallation honward hdependency hdestination hbinary), exec_bind_of_ok (exec_start _ m')]
        cases m'.children.head?.getD (.exit 0) with
        | exit code => by_cases hcode : code < 0 <;> simp [ended, hcode]
        | interrupted => rfl
        | refused errno => rfl
  · have hcheck : w.checkBinary binary = .error (.configuration (.notWrapped binary)) := if_neg hbinary
    refine ⟨_, _, ?_, .notWrapped hbinary⟩
    rw [run, hcheck]
    exact exec_bind_of_error (exec_ofExcept _)

/-- A program ends as its work does, and shows the library's own errors. -/
theorem exec_reporting (name : Text) (work : Action Int) (m : Machine) : exec (reporting name work) m = shown name (exec work m) := by
  rw [reporting, exec_catching]
  rcases exec work m with ⟨r, m'⟩
  cases r with
  | ok status => rfl
  | error e =>
    cases hreported : e.isReported with
    | true =>
      simp only [shown, hreported, if_true]
      rfl
    | false => simp only [shown, hreported, Bool.false_eq_true, if_false]

theorem exec_main (w : Wrapper) (binary : Option Text) (arguments : List Text) (m : Machine) :
    exec (w.main binary arguments) m = shown (w.programName binary) (exec (w.run (w.programName binary) arguments) m) :=
  exec_reporting _ _ m

end Wrapper

end Prebuilt
