import Prebuilt.Wrapper
import Prebuilt.Proofs.Actions.Discreet
import Prebuilt.Proofs.Install.Endings
/-!
One installation of a wrapper: the settings are read, the books of a new installation are opened, and the work is done on them.
-/
set_option autoImplicit false

namespace Prebuilt

open Action

variable {w : Wrapper} {i j : Installation} {m m' m₁ : Machine} {force : Json} {e : Error}

/-- Nothing is different but what was logged and which settings were read. -/
def Machine.Idle (m m' : Machine) : Prop := Noted { m with settings := m'.settings } m'

namespace Machine

theorem Noted.onward (h : m.Noted m') : m.Onward m' := by
  rw [h]
  exact ⟨rfl, rfl, rfl⟩

theorem idle_refl (m : Machine) : m.Idle m := rfl

theorem Idle.trans (h : m.Idle m₁) (h' : m₁.Idle m') : m.Idle m' := by
  unfold Idle Noted at h h' ⊢
  rw [h', h]

theorem Noted.idle (h : m.Noted m') : m.Idle m' := by
  unfold Idle Noted at *
  rw [h]

theorem Idle.files (h : m.Idle m') : m'.files = m.files := by rw [h]

end Machine

namespace Installing

theorem exec_log_noted (origin : Log.Origin) {message : Text} (h : message.isString = true) (i : Installation) (m : Machine) :
    ∃ m', exec (act (log Log.info origin message)) i m = ((.ok (), i), m') ∧ m.Noted m' := by
  obtain ⟨m', hlog⟩ : ∃ m', Action.exec (log Log.info origin message) m = (.ok (), m') := log_ok.2 fun _ => h
  exact ⟨m', by rw [exec_act, hlog], (noted_log Log.info origin message).after m.noted_refl hlog⟩

/-- Where nothing is to be done, this is said and nothing else happens. -/
theorem downloadAll_noted (client : Option Client) (h : i.pending = []) :
    ∃ m', exec (Installing.downloadAll client) i m = ((.ok true, i), m') ∧ m.Noted m' := by
  have hline : Text.isString "No pending downloads" = true := rfl
  obtain ⟨m', hlog, hnoted⟩ := exec_log_noted Installing.downloadingAll hline i m
  refine ⟨m', ?_, hnoted⟩
  rw [Installing.downloadAll, exec_bind_of_ok exec_get, h]
  exact exec_bind_of_ok hlog

end Installing

/-- The books of an installation that was found to be there. -/
theorem Installation.settled_eq (hplans : i.plans = []) (hstates : i.states = []) (destination : Text) :
    i.settled destination = { i with states := [(i.key, ⟨i.key, .completed, some destination, none⟩)] } := by
  simp [settled, putState, hplans, hstates, Table.put]

/-- What is summed up where the one plan there is, if any, is closed and one state stands in the books. -/
theorem Installation.summary_completed {state : DependencyState} (hpending : i.pending = []) (hstates : i.states = [(i.key, state)])
    (hstatus : state.status = .completed) : i.summary = ⟨1, 0, 0⟩ := by
  simp [summary, failed, hpending, hstates, DependencyState.isDownloaded, hstatus]

theorem Installation.exec_within {α : Type} (i : Installation) (work : Installing α) (m : Machine) :
    exec (i.within work) m = ((Installing.exec work i m).1.1, (Installing.exec work i m).2) := by
  show exec (Action.ofExcept _) _ = _
  rw [exec_ofExcept]
  rfl

namespace Wrapper

/-! ## Settings -/

/-- Settings that were given or read before are in force; others are read now. -/
theorem exec_currentSettings_eq (w : Wrapper) (m : Machine) : exec w.currentSettings m =
    match w.settings.or (Table.get? w.name m.settings) with
    | some settings => (.ok settings, m)
    | none => match Settings.ofEnvironment m.environment with
      | .error e => (.error e, m)
      | .ok settings => (.ok settings, { m with settings := Table.put w.name settings m.settings }) := by
  rw [currentSettings, exec_bind_of_ok exec_get]
  cases w.settings.or (Table.get? w.name m.settings) with
  | some settings => rfl
  | none =>
    dsimp only
    rw [exec_bind_of_ok exec_get]
    cases hread : Settings.ofEnvironment m.environment with
    | error e => exact exec_bind_of_error (exec_ofExcept _)
    | ok settings => exact exec_bind_of_ok (exec_ofExcept _)

/-- Settings that were read stay in force. -/
theorem currentSettings_ok {settings : Settings} (h : exec w.currentSettings m = (.ok settings, m₁)) :
    m₁ = { m with settings := m₁.settings } ∧ ∀ m', m'.settings = m₁.settings → exec w.currentSettings m' = (.ok settings, m') := by
  have hagain {m' : Machine} (hhave : w.settings.or (Table.get? w.name m'.settings) = some settings) :
      exec w.currentSettings m' = (.ok settings, m') := by rw [exec_currentSettings_eq, hhave]
  rw [exec_currentSettings_eq] at h
  split at h
  · rename_i given hhave
    cases h
    exact ⟨rfl, fun m' hsame => hagain (hsame ▸ hhave)⟩
  · rename_i hhave
    split at h
    · cases h
    · cases h
      refine ⟨rfl, fun m' hsame => hagain ?_⟩
      cases hgiven : w.settings with
      | some given => simp [hgiven] at hhave
      | none => simp [hsame, Table.get?_put]

/-- The platform that is installed for. -/
def keyOn (w : Wrapper) (host : Host) : Text := if (w.platformKey.getD []).isEmpty then host.key else w.platformKey.getD []

theorem installation_ok (h : exec w.installation m = (.ok i, m₁)) : ∃ settings, exec w.currentSettings m = (.ok settings, m₁) ∧
    i = ⟨w.config, settings, w.keyOn m.host, [], []⟩ := by
  obtain ⟨settings, m₂, hsettings, h⟩ := bind_ok.1 h
  rw [exec_bind_of_ok exec_get] at h
  cases h
  refine ⟨settings, hsettings, ?_⟩
  rw [(currentSettings_ok hsettings).1]
  rfl

theorem exec_installation {settings : Settings} (h : exec w.currentSettings m = (.ok settings, m₁)) :
    exec w.installation m = (.ok ⟨w.config, settings, w.keyOn m.host, [], []⟩, m₁) := by
  rw [installation, exec_bind_of_ok h, exec_bind_of_ok exec_get, (currentSettings_ok h).1]
  rfl

/-! ## Work on new books -/

/-- What is done for an installation, on books of its own. -/
def work (w : Wrapper) (force : Json) : Installing FilePath := do
  Installing.plan force
  if !(← Installing.downloadAll w.client) then throw (.download (.failed (failureMessages (← get))))
  let summary := (← get).summary
  Installing.act (Action.log Log.info installing
    (Text.join ["Download summary: ", Text.ofNat summary.completed, " completed, ", Text.ofNat summary.failed,
      " failed, ", Text.ofNat summary.pending, " pending"]))
  Installing.ofExcept (← get).destination

/-- An installation, with the books it is left with. -/
def installKeeping (w : Wrapper) (force : Json) : Action (FilePath × Installation) := do
  let (result, books) ← (w.work force).run (← w.installation)
  return (← Action.ofExcept result, books)

theorem exec_install (h : exec w.installation m = (.ok i, m₁)) (force : Json) :
    exec (w.install force) m = ((Installing.exec (w.work force) i m₁).1.1, (Installing.exec (w.work force) i m₁).2) :=
  (exec_bind_of_ok h).trans (i.exec_within _ m₁)

theorem exec_installKeeping (h : exec w.installation m = (.ok i, m₁)) (force : Json) : exec (w.installKeeping force) m =
    ((Installing.exec (w.work force) i m₁).1.1.map fun path => (path, (Installing.exec (w.work force) i m₁).1.2),
      (Installing.exec (w.work force) i m₁).2) := by
  have hrun : exec (w.installKeeping force) m = exec (do
      let path ← Action.ofExcept (Installing.exec (w.work force) i m₁).1.1
      return (path, (Installing.exec (w.work force) i m₁).1.2)) (Installing.exec (w.work force) i m₁).2 := by
    rw [installKeeping, exec_bind_of_ok h]
    rfl
  rw [hrun, exec_bind, exec_ofExcept]
  cases (Installing.exec (w.work force) i m₁).1.1 <;> rfl

/-- The books make no difference to what is installed. -/
theorem exec_install_eq (w : Wrapper) (force : Json) (m : Machine) :
    exec (w.install force) m = exec (Prod.fst <$> w.installKeeping force) m := by
  rcases hrun : exec w.installation m with ⟨r, m₁⟩
  cases r with
  | error e =>
    have hkeeping : exec (w.installKeeping force) m = (.error e, m₁) := exec_bind_of_error hrun
    rw [exec_map, hkeeping]
    exact exec_bind_of_error hrun
  | ok i =>
    rw [exec_map, exec_installKeeping hrun, exec_install hrun]
    cases (Installing.exec (w.work force) i m₁).1.1 <;> rfl

theorem exec_install_error (h : exec w.installation m = (.error e, m₁)) (force : Json) :
    exec (w.install force) m = (.error e, m₁) := exec_bind_of_error h

/-! ## How the work ends -/

/-- How the work for an installation ends, on books that were blank. -/
inductive WorkEnding (force : Json) (i : Installation) (m : Machine) : Except Error FilePath → Installation → Prop
  | unplanned {e : Error} {j : Installation} : Installing.PlanEnding force i m (.error e) j → WorkEnding force i m (.error e) j
  | settled {dependency : Dependency} {destination : FilePath} : i.hostDependency = .ok dependency →
      i.destination = .ok destination → (exec (i.isInstalled dependency) m).1 = .ok true →
        WorkEnding force i m (.ok destination) (i.settled destination.toText)
  | done {dependency : Dependency} {destination : FilePath} {plan : Plan} : i.hostDependency = .ok dependency →
      i.destination = .ok destination → plan.key = i.key →
        WorkEnding force i m (.ok destination) ((i.planned plan).mark plan.begun true)
  | failed {dependency : Dependency} {plan : Plan} {message : Text} : i.hostDependency = .ok dependency → plan.key = i.key →
      message ≠ [] → WorkEnding force i m (.error (.download (.failed message))) ((i.planned plan).mark (plan.begun.blamed message) false)
  | left {dependency : Dependency} {e : Error} {j : Installation} : i.hostDependency = .ok dependency → e.isUnforeseen = true →
      WorkEnding force i m (.error e) j

/-- Once all was downloaded, the work ends with the path of the destination. -/
theorem exec_work_done {destination : FilePath} {i₁ i₂ : Installation} {m₂ : Machine}
    (hplan : Installing.exec (Installing.plan force) i m = ((.ok (), i₁), m₁))
    (hdownload : Installing.exec (Installing.downloadAll w.client) i₁ m₁ = ((.ok true, i₂), m₂)) (hsummary : i₂.summary = ⟨1, 0, 0⟩)
    (hdestination : i₂.destination = .ok destination) :
    ∃ m', Installing.exec (w.work force) i m = ((.ok destination, i₂), m') ∧ m₂.Noted m' := by
  have hline : (Text.join ["Download summary: ", Text.ofNat 1, " completed, ", Text.ofNat 0, " failed, ", Text.ofNat 0,
    " pending"]).isString = true := by decide
  obtain ⟨m₃, hlog, hm₃⟩ := Installing.exec_log_noted installing hline i₂ m₂
  refine ⟨m₃, ?_, hm₃⟩
  rw [work, Installing.exec_bind_of_ok hplan, Installing.exec_bind_of_ok hdownload]
  simp only [Bool.not_true, Bool.false_eq_true, if_false]
  rw [Installing.exec_bind_of_ok Installing.exec_get]
  simp only [hsummary]
  rw [Installing.exec_bind_of_ok hlog, Installing.exec_bind_of_ok Installing.exec_get, Installing.exec_ofExcept, hdestination]

theorem work_ending (w : Wrapper) (force : Json) (hplans : i.plans = []) (hstates : i.states = []) (m : Machine) :
    ∃ r j m', Installing.exec (w.work force) i m = ((r, j), m') ∧ m.Onward m' ∧ WorkEnding force i m r j := by
  obtain ⟨r, j, hplan, hending⟩ := Installing.plan_ending force i m
  cases r with
  | error e => exact ⟨_, _, _, Installing.exec_bind_of_error hplan, m.onward_refl, .unplanned hending⟩
  | ok _ =>
  cases hending with
  | @settled dependency destination hdependency hdestination hinstalled =>
    obtain ⟨m₁, hdownload, hm₁⟩ := Installing.downloadAll_noted (i := i.settled destination.toText) (m := m) w.client rfl
    have hbooks : (i.settled destination.toText).states = [(i.key, ⟨i.key, .completed, some destination.toText, none⟩)] := by
      rw [Installation.settled_eq hplans hstates]
    obtain ⟨m₂, hwork, hm₂⟩ := exec_work_done hplan hdownload (Installation.summary_completed rfl hbooks rfl) hdestination
    exact ⟨_, _, m₂, hwork, (hm₁.trans hm₂).onward, .settled hdependency hdestination hinstalled⟩
  | @planned dependency destination given hdependency hdestination =>
    generalize hmade : Plan.mk i.key dependency destination.toText i.config.binaries given .pending none = plan at hplan
    have hkey : plan.key = i.key := by rw [← hmade]
    have hpending : (i.planned plan).pending = [plan] := by
      rw [← hmade]
      rfl
    obtain ⟨r, j, m₁, hdownload, hm₁, hending⟩ := Installing.download_ending w.client plan (i.planned plan) m hdestination
    rw [← Installing.exec_downloadAll_one hpending] at hdownload
    cases hending with
    | unstarted fault =>
      exact ⟨_, _, m₁, (Installing.exec_bind_of_ok hplan).trans (Installing.exec_bind_of_error hdownload), hm₁, .left hdependency rfl⟩
    | unannounced fault =>
      exact ⟨_, _, m₁, (Installing.exec_bind_of_ok hplan).trans (Installing.exec_bind_of_error hdownload), hm₁, .left hdependency rfl⟩
    | left hunforeseen =>
      exact ⟨_, _, m₁, (Installing.exec_bind_of_ok hplan).trans (Installing.exec_bind_of_error hdownload), hm₁,
        .left hdependency hunforeseen⟩
    | done =>
      rw [Installation.mark_keep rfl] at hdownload
      have hbooks : ((i.planned plan).mark plan.begun true).states =
          [(i.key, ⟨plan.key, .completed, some plan.destination, none⟩)] := by
        simp [Installation.mark, Installation.planned, Installation.keep, Installation.putState, Table.put, hstates, hkey]
      have hnone : ((i.planned plan).mark plan.begun true).pending = [] := by
        simp [Installation.mark, Installation.planned, Installation.keep, Installation.putState, Installation.pending]
      obtain ⟨m₂, hwork, hm₂⟩ := exec_work_done hplan hdownload (Installation.summary_completed hnone hbooks rfl) hdestination
      exact ⟨_, _, m₂, hwork, hm₁.trans hm₂.onward, .done hdependency hdestination hkey⟩
    | @failed message hmessage =>
      have hsame : plan.begun.key = (plan.begun.blamed message).key := rfl
      rw [Installation.mark_keep hsame] at hdownload
      have hbooks : ((i.planned plan).mark (plan.begun.blamed message) false).states =
          [(i.key, ⟨plan.key, .failed, none, some message⟩)] := by
        simp [Installation.mark, Installation.planned, Installation.keep, Installation.putState, Table.put, hstates, hkey,
          Installation.failureText, hmessage]
      have hfailed : failureMessages ((i.planned plan).mark (plan.begun.blamed message) false) = message := by
        simp [failureMessages, Installation.failed, hbooks, hmessage, Text.joinWith]
      refine ⟨_, _, m₁, ?_, hm₁, .failed hdependency hkey hmessage⟩
      rw [work, Installing.exec_bind_of_ok hplan, Installing.exec_bind_of_ok hdownload]
      simp only [Bool.not_false, if_true]
      rw [Installing.exec_bind_of_ok Installing.exec_get, hfailed]
      rfl

/-! ## An empty machine -/

/-- A wrapper that installs in the machine's root. -/
def wrapping (binaries : List Text) (url : Text) : Wrapper :=
  ⟨"wrapping", (hosted binaries url).config, some (hosted binaries url).settings, none, some "linux-x64"⟩

theorem exec_installation_wrapping (binaries : List Text) (url : Text) (m : Machine) :
    exec (wrapping binaries url).installation m = (.ok (hosted binaries url), m) := rfl

end Wrapper

end Prebuilt
