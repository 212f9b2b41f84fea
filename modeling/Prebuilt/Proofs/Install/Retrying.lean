import Prebuilt.Proofs.Install.Bookkeeping
/-!
What a caller learns from downloading everything. The result is about the plans that were still to be done. A plan that has failed is
not to be done any more, so only a new plan makes it worth while to try again.
-/
set_option autoImplicit false

namespace Prebuilt

open Installing

variable {i₀ i j : Installation} {m m' : Machine} {plan : Plan} {state : DependencyState} {client : Option Client} {b : Bool}

namespace Installation

theorem failed_single (h : i.states = [(i.key, state)]) : i.failed = [] ↔ state.status ≠ .failed := by
  simp [failed, h]

theorem Books.mark_failed (h : i.Books) (plan : Plan) (hkey : plan.key = i.key) (success : Bool) :
    (i.mark plan success).failed = [] ↔ success = true := by
  have hstates : (i.mark plan success).states = [(i.key, ⟨plan.key, if success then .completed else .failed,
      if success then some plan.destination else none, if success then none else some (failureText plan)⟩)] := h.putState hkey
  refine (failed_single (i := i.mark plan success) hstates).trans ?_
  cases success <;> simp

/-- The record of a plan that was carried out says how that went. -/
theorem Books.download_told (h : i.Books) (hplan : (plan.key, plan) ∈ i.plans)
    (hrun : exec (Installing.download client plan) i m = ((.ok b, j), m')) : b = true ↔ j.failed = [] := by
  obtain ⟨_, destination, -, hdestination, -, hkey, -⟩ := h.of_mem hplan
  obtain ⟨r, j', m₁, hrun', -, hending⟩ := download_ending client plan i m hdestination
  cases hrun.symm.trans hrun'
  cases hending with
  | done =>
    have hmarked := h.mark_failed plan.begun hkey true
    rw [mark_keep rfl, hmarked]
  | @failed message _ =>
    have hbegun : plan.begun.key = (plan.begun.blamed message).key := rfl
    have hmarked := h.mark_failed (plan.begun.blamed message) hkey false
    rw [mark_keep hbegun, hmarked]

/-- Downloading everything tells how the plan that was to be done went; without one it does nothing. -/
theorem Books.downloadAll_told (h : i.Books) (hrun : exec (Installing.downloadAll client) i m = ((.ok b, j), m')) :
    (b = true ↔ j.failed = []) ∨ i.pending = [] ∧ b = true ∧ j = i := by
  rcases h.pending with hpending | ⟨plan, hplan, hpending⟩
  · obtain ⟨m₁, hrun', -⟩ := downloadAll_none (m := m) hpending
    cases hrun.symm.trans hrun'
    exact .inr ⟨hpending, rfl, rfl⟩
  · rw [exec_downloadAll_one hpending] at hrun
    exact .inl (h.download_told hplan hrun)

/-- Planning leaves a plan that is to be done, or a current installation. -/
theorem Books.plan_ready (h : i.Books) {force : Json} (hrun : exec (Installing.plan force) i m = ((.ok (), j), m')) :
    j.pending ≠ [] ∨ j.failed = [] := by
  obtain ⟨r, j', hrun', hending⟩ := plan_ending force i m
  cases hrun.symm.trans hrun'
  cases hending with
  | settled => exact .inr ((failed_single (h.putState rfl)).2 nofun)
  | planned => exact .inl (by simp [Installation.planned, Installation.putState, Installation.pending])

/-- Planning was the last call. -/
def JustPlanned (i₀ i : Installation) : Prop := ∃ i₁ force m m', Relation.ReflTransGen Calls i₀ i₁ ∧
  exec (Installing.plan force) i₁ m = ((.ok (), i), m')

theorem JustPlanned.calls (h : JustPlanned i₀ i) : Relation.ReflTransGen Calls i₀ i := by
  obtain ⟨i₁, force, m, m', hcalls, hrun⟩ := h
  exact hcalls.tail (@Calls.mk _ _ (.plan force) m m' _ trivial hrun (.inl rfl))

theorem JustPlanned.ready (h : JustPlanned i₀ i) (hbooks : i₀.Books) : i.pending ≠ [] ∨ i.failed = [] := by
  obtain ⟨i₁, force, m, m', hcalls, hrun⟩ := h
  exact (hbooks.calls hcalls).1.plan_ready hrun

/-! ## A download that nobody repeats -/

/-- A file stands where the directory of the installation would be. -/
def blockedFiles : FileSystem := ⟨[(["unpacked_bin"], .file 0 0o644 [])], 1, []⟩

/-- The installation with its plan, and a machine that it cannot be carried out on. -/
abbrev blocked : Installation := (hosted ["run"] "https://h/run.tar").planned (hostedPlan ["run"] "https://h/run.tar")

theorem plan_blocked : exec (Installing.plan (.bool true)) (hosted ["run"] "https://h/run.tar") (serving [] blockedFiles) =
    ((.ok (), blocked), serving [] blockedFiles) := exec_plan_hosted rfl _

theorem downloadAll_blocked : ∃ j m', exec (Installing.downloadAll none) blocked (serving [] blockedFiles) = ((.ok false, j), m') := by
  have hancestry : Action.exec (Action.makeAncestry (FilePath.ofText "/unpacked_bin/linux-x64").parent) (serving [] blockedFiles) =
      (.error (.system ⟨.entryExists, some "/unpacked_bin", none⟩), serving [] blockedFiles) := by cbv
  have hperform : Action.exec ((blocked.keep (hostedPlan ["run"] "https://h/run.tar").begun).perform none
      (hostedPlan ["run"] "https://h/run.tar").begun) (serving [] blockedFiles) =
        (.error (.system ⟨.entryExists, some "/unpacked_bin", none⟩), serving [] blockedFiles) := by
    rw [Installation.perform]
    exact Action.exec_bind_of_error hancestry
  obtain ⟨j, m', hrun, -⟩ := Installing.download_error blocked (Action.exec_log_disabled rfl ..) hperform rfl (by decide)
  have hpending : blocked.pending = [hostedPlan ["run"] "https://h/run.tar"] := rfl
  exact ⟨j, m', (exec_downloadAll_one hpending).trans hrun⟩

/-- The second time nothing is left to be done, which counts as success, though the plan has failed. -/
theorem downloadAll_overlooks : ∃ j m₁ m₂, exec (Installing.plan (.bool true)) (hosted ["run"] "https://h/run.tar")
      (serving [] blockedFiles) = ((.ok (), blocked), serving [] blockedFiles) ∧
    exec (Installing.downloadAll none) blocked (serving [] blockedFiles) = ((.ok false, j), m₁) ∧
      exec (Installing.downloadAll none) j m₁ = ((.ok true, j), m₂) ∧ j.failed ≠ [] := by
  obtain ⟨j, m₁, hfirst⟩ := downloadAll_blocked
  have hpending : blocked.pending = [hostedPlan ["run"] "https://h/run.tar"] := rfl
  have hone := (exec_downloadAll_one hpending).symm.trans hfirst
  obtain ⟨r, j', m', hrun, -, hending⟩ := download_ending none (hostedPlan ["run"] "https://h/run.tar") blocked
    (serving [] blockedFiles) (destination_hosted ["run"] "https://h/run.tar")
  cases hone.symm.trans hrun
  cases hending with
  | @failed message _ =>
    have hbegun : (hostedPlan ["run"] "https://h/run.tar").begun.key =
      ((hostedPlan ["run"] "https://h/run.tar").begun.blamed message).key := rfl
    rw [mark_keep hbegun] at hfirst
    have hclosed : (blocked.mark ((hostedPlan ["run"] "https://h/run.tar").begun.blamed message) false).pending = [] := rfl
    obtain ⟨m₂, hsecond, -⟩ := downloadAll_none hclosed
    exact ⟨_, m₁, m₂, plan_blocked, hfirst, hsecond, List.cons_ne_nil _ _⟩

/-- After any calls, on whatever machines they were made: a failure that is reported stands in the books, and a success means that
none does unless there was nothing to be done. After a new plan, success means that nothing has failed. -/
theorem downloadAll_honest (hplans : i₀.plans = []) (hstates : i₀.states = []) (hcalls : Relation.ReflTransGen Calls i₀ i)
    (hrun : exec (Installing.downloadAll client) i m = ((.ok b, j), m')) :
    (b = false → j.failed ≠ []) ∧ (b = true → j.failed = [] ∨ i.pending = [] ∧ j = i) ∧
      (JustPlanned i₀ i → (b = true ↔ j.failed = [])) := by
  have hblank : i₀.Books := .blank hplans hstates
  rcases (hblank.calls hcalls).1.downloadAll_told hrun with htold | ⟨hpending, rfl, rfl⟩
  · refine ⟨fun hb hfailed => ?_, fun hb => .inl (htold.1 hb), fun _ => htold⟩
    cases hb.symm.trans (htold.2 hfailed)
  · refine ⟨nofun, fun _ => .inr ⟨hpending, rfl⟩, fun hjust => ?_⟩
    have hnone : j.failed = [] := (hjust.ready hblank).resolve_left fun hne => hne hpending
    exact ⟨fun _ => hnone, fun _ => rfl⟩

/-- A plan is made, and its download fails. -/
theorem downloadAll_honest_blocked : ∃ j m', exec (Installing.downloadAll none) blocked (serving [] blockedFiles) =
    ((.ok false, j), m') ∧ j.failed ≠ [] := by
  obtain ⟨j, m', hrun⟩ := downloadAll_blocked
  have hjust : JustPlanned (hosted ["run"] "https://h/run.tar") blocked := ⟨_, _, _, _, .refl, plan_blocked⟩
  exact ⟨j, m', hrun, (downloadAll_honest rfl rfl hjust.calls hrun).1 rfl⟩

end Installation

end Prebuilt
