import Prebuilt.Proofs.Install.Faults
import Prebuilt.Proofs.Install.Outcome
/-!
How planning and downloading can end, whatever the machine they run on: what they return or fail with, what becomes of the
installation's plans and states, and what of the machine.
-/
set_option autoImplicit false

namespace Prebuilt

open Action

variable {i j : Installation} {m m' : Machine} {plan : Plan} {force : Json} {e : Error} {E : Error → Prop}

namespace Installation

theorem yields_destination (i : Installation) : Yields (fun e => ∃ fault, e = .kind fault) i.destination := by
  refine Yields.map _ ?_
  unfold directory
  refine Yields.ite (fun _ => yields_ok _) fun _ => ?_
  split
  · exact yields_ok _
  · exact yields_error ⟨_, rfl⟩

theorem keep_keep {p q : Plan} (h : p.key = q.key) (i : Installation) : (i.keep p).keep q = i.keep q := by
  simp only [Installation.keep, List.map_map, Installation.mk.injEq, true_and, and_true]
  refine List.map_congr_left fun (key, plan) _ => ?_
  by_cases hkey : key = q.key <;> simp [h, hkey]

theorem mark_keep {p q : Plan} (h : p.key = q.key) (i : Installation) (success : Bool) : (i.keep p).mark q success = i.mark q success := by
  have hkept := keep_keep (q := { q with status := if success then .completed else .failed }) h i
  simp only [Installation.mark, hkept]

/-- Only the platform is found unsupported, and only where it is looked up. -/
abbrev IsElse (e : Error) : Prop := ∀ key, e ≠ .unsupportedPlatform key

theorem isElse_of_isOfWork {e : Error} (h : e.IsOfWork) : IsElse e := by
  rintro key rfl
  rcases h with h | h <;> cases h

theorem yields_destination_else (i : Installation) : Yields IsElse i.destination := fun e he => by
  obtain ⟨fault, rfl⟩ := i.yields_destination e he
  nofun

theorem bounded_isInstalled_else (i : Installation) (dependency : Dependency) : Bounded IsElse (i.isInstalled dependency) :=
  i.bounded_isInstalled (fun _ => isElse_of_isOfWork) i.yields_destination_else dependency

end Installation

/-- A plan with what has gone wrong. -/
abbrev Plan.blamed (plan : Plan) (message : Text) : Plan := { plan with errorMessage := some message }

namespace Installing

/-! ## Planning -/

/-- How planning ends. -/
inductive PlanEnding (force : Json) (i : Installation) (m : Machine) : Except Error Unit → Installation → Prop
  | unsupported {e : Error} : i.hostDependency = .error e → PlanEnding force i m (.error e) { i with plans := [] }
  | homeless {e : Error} {dependency : Dependency} : i.hostDependency = .ok dependency → i.destination = .error e → PlanEnding force i m (.error e) { i with plans := [] }
  | unseen {e : Error} {dependency : Dependency} : i.hostDependency = .ok dependency →
      (Action.exec (i.isInstalled dependency) m).1 = .error e → PlanEnding force i m (.error e) { i with plans := [] }
  | settled {dependency : Dependency} {destination : FilePath} : i.hostDependency = .ok dependency →
      i.destination = .ok destination → (Action.exec (i.isInstalled dependency) m).1 = .ok true →
        PlanEnding force i m (.ok ()) (i.settled destination.toText)
  | planned {dependency : Dependency} {destination : FilePath} {given : Json} : i.hostDependency = .ok dependency →
      i.destination = .ok destination →
        PlanEnding force i m (.ok ()) (i.planned ⟨i.key, dependency, destination.toText, i.config.binaries, given, .pending, none⟩)

theorem plan_ending (force : Json) (i : Installation) (m : Machine) :
    ∃ r j, exec (Installing.plan force) i m = ((r, j), m) ∧ PlanEnding force i m r j := by
  cases hdependency : i.hostDependency with
  | error e =>
    have hsame : ({ i with plans := [] } : Installation).hostDependency = .error e := hdependency
    refine ⟨.error e, _, ?_, .unsupported hdependency⟩
    rw [Installing.plan, exec_bind_of_ok (exec_modify _), exec_bind_of_ok exec_get]
    exact exec_bind_of_error (by rw [exec_ofExcept, hsame])
  | ok dependency =>
  cases hdestination : i.destination with
  | error e =>
    have hsame : ({ i with plans := [] } : Installation).hostDependency = .ok dependency := hdependency
    have hsame' : ({ i with plans := [] } : Installation).destination = .error e := hdestination
    refine ⟨.error e, _, ?_, .homeless hdependency hdestination⟩
    rw [Installing.plan, exec_bind_of_ok (exec_modify _), exec_bind_of_ok exec_get]
    simp only [hsame]
    rw [exec_bind_of_ok (exec_ofExcept _)]
    exact exec_bind_of_error (by rw [exec_ofExcept, hsame'])
  | ok destination =>
  generalize hgiven : (if force.isFalsy then i.settings.forceDownload else force) = given
  cases hfalsy : given.isFalsy with
  | false =>
    have hfree : if given.isFalsy then (Action.exec (i.isInstalled dependency) m).1 = .ok false else false = false := by simp [hfalsy]
    exact ⟨_, _, exec_plan hdependency hdestination hgiven hfree, .planned hdependency hdestination⟩
  | true =>
    cases hlook : (Action.exec (i.isInstalled dependency) m).1 with
    | ok current =>
      have hplan := exec_plan (m := m) hdependency hdestination hgiven (by rwa [if_pos hfalsy])
      cases current with
      | true => exact ⟨_, _, hplan, .settled hdependency hdestination hlook⟩
      | false => exact ⟨_, _, hplan, .planned hdependency hdestination⟩
    | error e =>
      have hsame : ({ i with plans := [] } : Installation).hostDependency = .ok dependency := hdependency
      have hsame' : ({ i with plans := [] } : Installation).destination = .ok destination := hdestination
      refine ⟨.error e, _, ?_, .unseen hdependency hlook⟩
      rw [Installing.plan, exec_bind_of_ok (exec_modify _), exec_bind_of_ok exec_get]
      simp only [hsame, hsame', hgiven]
      rw [exec_bind_of_ok (exec_ofExcept _), exec_bind_of_ok (exec_ofExcept _)]
      have hact : exec (act (({ i with plans := [] } : Installation).isInstalled dependency)) { i with plans := [] } m =
          ((.error e, { i with plans := [] }), m) := by
        rw [exec_act, Installation.exec_isInstalled]
        exact congrArg (fun r => ((r, _), m)) hlook
      rw [if_pos hfalsy]
      exact exec_bind_of_error hact

/-- The platform is found unsupported only where its dependency is looked up. -/
theorem PlanEnding.of_unsupported {key : Text} (h : PlanEnding force i m (.error (.unsupportedPlatform key)) j) :
    i.hostDependency = .error (.unsupportedPlatform key) ∧ j = { i with plans := [] } := by
  cases h with
  | unsupported hdependency => exact ⟨hdependency, rfl⟩
  | homeless _ hdestination => exact absurd rfl (i.yields_destination_else _ hdestination key)
  | unseen _ hlook => exact absurd rfl ((i.bounded_isInstalled_else _ m).2 _ hlook key)

/-! ## Downloading -/

/-- How the download of a plan ends. Only what nobody is prepared for leaves the plan open. -/
inductive DownloadEnding (i : Installation) (plan : Plan) : Except Error Bool → Installation → Prop
  | unstarted (fault : Utf8.EncodeError) : DownloadEnding i plan (.error (.unloggable fault)) i
  | left {e : Error} : e.isUnforeseen = true → DownloadEnding i plan (.error e) (i.keep plan.begun)
  | done : DownloadEnding i plan (.ok true) ((i.keep plan.begun).mark plan.begun true)
  | unannounced (fault : Utf8.EncodeError) :
      DownloadEnding i plan (.error (.unloggable fault)) ((i.keep plan.begun).mark plan.begun true)
  | failed {message : Text} : message ≠ [] →
      DownloadEnding i plan (.ok false) ((i.keep plan.begun).mark (plan.begun.blamed message) false)

theorem log_ending (level : Log.Level) (origin : Log.Origin) (message : Text) (i : Installation) (m : Machine) :
    ∃ r m', exec (act (log level origin message)) i m = ((r, i), m') ∧ m.Onward m' ∧
      ∀ e, r = .error e → ∃ fault, e = .unloggable fault := by
  have hlog := bounded_log_unloggable level origin message m
  exact ⟨_, _, exec_act _, hlog⟩

theorem download_ending (client : Option Client) (plan : Plan) (i : Installation) (m : Machine) {destination : FilePath}
    (hdestination : i.destination = .ok destination) :
    ∃ r j m', exec (Installing.download client plan) i m = ((r, j), m') ∧ m.Onward m' ∧ DownloadEnding i plan r j := by
  rw [Installing.download]
  obtain ⟨r, m₁, hlog, hm₁, hfault⟩ := log_ending Log.info Installing.downloading
    (Text.join ["Downloading ", plan.key, " from ", plan.dependency.url]) i m
  cases r with
  | error e =>
    obtain ⟨fault, rfl⟩ := hfault e rfl
    exact ⟨_, _, _, exec_bind_of_error hlog, hm₁, .unstarted fault⟩
  | ok _ =>
  rw [exec_bind_of_ok hlog, exec_bind_of_ok (exec_modify _), exec_bind_of_ok exec_get]
  have hperform := (i.keep plan.begun).bounded_perform (fun _ he => he)
    (fun e he => by cases he.symm.trans hdestination) client plan.begun m₁
  rcases hrun : Action.exec ((i.keep plan.begun).perform client plan.begun) m₁ with ⟨r, m₂⟩
  rw [hrun] at hperform
  have hm₂ := hm₁.trans hperform.1
  have hact : exec (act (attempt ((i.keep plan.begun).perform client plan.begun))) (i.keep plan.begun) m₁ =
      ((.ok r, i.keep plan.begun), m₂) := by rw [exec_act, exec_attempt, hrun]
  rw [exec_bind_of_ok hact]
  cases r with
  | ok _ =>
    dsimp only
    obtain ⟨r, m₃, hlog, hm₃, hfault⟩ := log_ending Log.info Installing.downloading
      (Text.join ["Successfully downloaded ", plan.key, " to ", plan.destination]) ((i.keep plan.begun).mark plan.begun true) m₂
    rw [exec_bind_of_ok (exec_modify _)]
    cases r with
    | error e =>
      obtain ⟨fault, rfl⟩ := hfault e rfl
      exact ⟨_, _, _, exec_bind_of_error hlog, hm₂.trans hm₃, .unannounced fault⟩
    | ok _ => exact ⟨_, _, _, exec_bind_of_ok hlog, hm₂.trans hm₃, .done⟩
  | error e =>
    dsimp only
    cases hfailure : e.isDownloadFailure with
    | false => exact ⟨.error e, _, m₂, rfl, hm₂, .left ((hperform.2 e rfl).resolve_left (by simp [hfailure]))⟩
    | true =>
      obtain ⟨r, m₃, hlog, hm₃, hfault⟩ := log_ending Log.error Installing.downloading
        (Text.join ["Failed to download ", plan.key, ": ", e.message]) (i.keep plan.begun) m₂
      cases r with
      | error e =>
        obtain ⟨fault, rfl⟩ := hfault e rfl
        exact ⟨_, _, _, exec_bind_of_error hlog, hm₂.trans hm₃, .left rfl⟩
      | ok _ => exact ⟨.ok false, _, m₃, exec_bind_of_ok hlog, hm₂.trans hm₃, .failed (by simp [Text.join])⟩

/-- Downloading all is downloading the one that is to be done. -/
theorem exec_downloadAll_one {client : Option Client} (h : i.pending = [plan]) :
    exec (Installing.downloadAll client) i m = exec (Installing.download client plan) i m := by
  rw [Installing.downloadAll, exec_bind_of_ok exec_get, h]
  simp

theorem downloadAll_none {client : Option Client} (h : i.pending = []) :
    ∃ m', exec (Installing.downloadAll client) i m = ((.ok true, i), m') ∧ Quiet m m' := by
  obtain ⟨m', hlog, hquiet⟩ := exec_log_ok (m := m) Installing.downloadingAll i (fun _ => rfl : IsLoggable _ "No pending downloads")
  refine ⟨m', ?_, hquiet⟩
  rw [Installing.downloadAll, exec_bind_of_ok exec_get, h]
  exact exec_bind_of_ok hlog

end Installing

end Prebuilt
