import Mathlib.Logic.Relation
import Prebuilt.Proofs.Install.Endings
/-!
The books of an installation. What has become of a plan stands twice, as the status of the plan and as a state of its own, and
the two are written at different moments. Between calls they agree, whatever was called before and whatever happened to the
machine in between.
-/
set_option autoImplicit false

namespace Prebuilt

open Installing

variable {i j : Installation} {m m' : Machine} {plan : Plan} {state : DependencyState} {destination : FilePath}
  {dependency : Dependency}

namespace Installation

/-! ## Calls -/

/-- What a caller can ask of an installation. -/
inductive Call where
  | plan (force : Json)
  | downloadAll (client : Option Client)
  | download (client : Option Client) (plan : Plan)
  | mark (plan : Plan) (success : Bool)

namespace Call

def work : Call → Installing Unit
  | .plan force => Installing.plan force
  | .downloadAll client => do let _ ← Installing.downloadAll client
  | .download client plan => do let _ ← Installing.download client plan
  | .mark plan success => modify (·.mark plan success)

/-- A plan that is named is one of those that there are. -/
def IsFor (i : Installation) : Call → Prop
  | .plan _ => True
  | .downloadAll _ => True
  | .download _ plan => (plan.key, plan) ∈ i.plans
  | .mark plan _ => (plan.key, plan) ∈ i.plans

end Call

/-- A call, on whatever machine, that returns or finds the platform unsupported. -/
inductive Calls (i j : Installation) : Prop
  | mk {call : Call} {m m' : Machine} {r : Except Error Unit} : call.IsFor i → exec call.work i m = ((r, j), m') →
      (r = .ok () ∨ ∃ key, r = .error (.unsupportedPlatform key)) → Calls i j

/-! ## What stands in the books -/

/-- The books agree: each plan is recorded, nothing but a current installation is recorded without one, and every record holds
what goes with its status. -/
structure Balanced (i : Installation) : Prop where
  planKeys : ∀ key plan, (key, plan) ∈ i.plans → key = i.key ∧ plan.key = i.key
  stateKeys : ∀ key state, (key, state) ∈ i.states → key = i.key ∧ state.key = i.key
  recorded : ∀ key plan, (key, plan) ∈ i.plans → (∃ state, (key, state) ∈ i.states ∧ state.status = plan.status) ∧
    (plan.status = .pending ∨ plan.status = .completed ∨ plan.status = .failed)
  unplanned : ∀ key state, (key, state) ∈ i.states → key ∉ Table.keys i.plans → state.status = .completed
  completed : ∀ key state, (key, state) ∈ i.states → state.status = .completed →
    (∃ destination, i.destination = .ok destination ∧ state.path = some destination.toText) ∧ state.errorMessage = none
  failed : ∀ key state, (key, state) ∈ i.states → state.status = .failed →
    state.path = none ∧ ∃ message, state.errorMessage = some message ∧ message ≠ []
  pending : ∀ key state, (key, state) ∈ i.states → state.status = .pending → state.path = none ∧ state.errorMessage = none
  counted : i.summary.total = i.states.length
  single : i.plans.length ≤ 1 ∧ i.states.length ≤ 1

end Installation

/-- The state that records a plan. -/
inductive Plan.RecordedAs (plan : Plan) : DependencyState → Prop
  | pending : plan.status = .pending → RecordedAs plan ⟨plan.key, .pending, none, none⟩
  | completed : plan.status = .completed → RecordedAs plan ⟨plan.key, .completed, some plan.destination, none⟩
  | failed {message : Text} : plan.status = .failed → message ≠ [] → RecordedAs plan ⟨plan.key, .failed, none, some message⟩

namespace Installation

/-- Both are for the same binaries, settings and platform. -/
def IsLike (i j : Installation) : Prop := j.config = i.config ∧ j.settings = i.settings ∧ j.key = i.key

theorem IsLike.trans {k : Installation} (h : i.IsLike j) (h' : j.IsLike k) : i.IsLike k :=
  ⟨h'.1.trans h.1, h'.2.1.trans h.2.1, h'.2.2.trans h.2.2⟩

/-- The books there can be: blank ones, a current installation, and one plan with its record. -/
inductive Books (i : Installation) : Prop
  | blank : i.plans = [] → i.states = [] → Books i
  | settled {dependency : Dependency} {destination : FilePath} : i.hostDependency = .ok dependency →
      i.destination = .ok destination → i.plans = [] →
        i.states = [(i.key, ⟨i.key, .completed, some destination.toText, none⟩)] → Books i
  | planned {dependency : Dependency} {destination : FilePath} {plan : Plan} {state : DependencyState} :
      i.hostDependency = .ok dependency → i.destination = .ok destination → i.plans = [(i.key, plan)] → plan.key = i.key →
        plan.destination = destination.toText → i.states = [(i.key, state)] → plan.RecordedAs state → Books i

theorem Books.states (h : i.Books) : i.states = [] ∨ ∃ state, i.states = [(i.key, state)] := by
  cases h with
  | blank _ hstates => exact .inl hstates
  | settled _ _ _ hstates => exact .inr ⟨_, hstates⟩
  | planned _ _ _ _ _ hstates => exact .inr ⟨_, hstates⟩

theorem Books.putState (h : i.Books) (hkey : state.key = i.key) : (i.putState state).states = [(i.key, state)] := by
  rw [Installation.putState, hkey]
  rcases h.states with hstates | ⟨state', hstates⟩ <;> rw [hstates] <;> simp [Table.put]

theorem Books.balanced (h : i.Books) : i.Balanced := by
  cases h with
  | blank hplans hstates => constructor <;> simp [hplans, hstates, summary, failed, Installation.pending, DownloadSummary.total]
  | settled _ hdestination hplans hstates =>
    constructor <;> simp [hplans, hstates, hdestination, summary, failed, Installation.pending, DownloadSummary.total,
      DependencyState.isDownloaded]
  | planned _ hdestination hplans hkey hplanned hstates hrecorded =>
    cases hrecorded with
    | pending hstatus | completed hstatus | failed hstatus hmessage =>
      constructor <;> simp [*, Table.keys, summary, failed, Installation.pending, DownloadSummary.total, DependencyState.isDownloaded]

/-! ## What a call leaves -/

theorem failureText_ne_nil (plan : Plan) : failureText plan ≠ [] := by
  unfold failureText
  split
  · split
    · exact nofun
    · rename_i hempty
      simpa using hempty
  · exact nofun

/-- Where there is a plan, it is the only one. -/
theorem Books.of_mem (h : i.Books) (hplan : (plan.key, plan) ∈ i.plans) : ∃ dependency destination,
    i.hostDependency = .ok dependency ∧ i.destination = .ok destination ∧ i.plans = [(i.key, plan)] ∧ plan.key = i.key ∧
      plan.destination = destination.toText := by
  cases h with
  | blank hplans => simp [hplans] at hplan
  | settled _ _ hplans => simp [hplans] at hplan
  | planned hdependency hdestination hplans hkey hplanned =>
    simp only [hplans, List.mem_singleton, Prod.mk.injEq] at hplan
    obtain ⟨-, rfl⟩ := hplan
    exact ⟨_, _, hdependency, hdestination, hplans, hkey, hplanned⟩

/-- Closing a plan records it, whatever it has got as a message. -/
theorem Books.mark (h : i.Books) (hplan : (plan.key, plan) ∈ i.plans) (closed : Plan) (hsame : closed.key = plan.key)
    (hsame' : closed.destination = plan.destination) (success : Bool) : (i.mark closed success).Books := by
  obtain ⟨dependency, destination, hdependency, hdestination, hplans, hkey, hplanned⟩ := h.of_mem hplan
  have hkept : (i.mark closed success).plans = [(i.key, { closed with status := if success then .completed else .failed })] := by
    simp [Installation.mark, Installation.keep, Installation.putState, hplans, hsame, hkey]
  have hstates : (i.mark closed success).states = [(i.key, ⟨closed.key, if success then .completed else .failed,
      if success then some closed.destination else none, if success then none else some (failureText closed)⟩)] :=
    h.putState (hsame.trans hkey)
  refine .planned hdependency hdestination hkept (hsame.trans hkey) (hsame'.trans hplanned) hstates ?_
  cases success with
  | true => exact .completed rfl
  | false => exact .failed rfl (failureText_ne_nil closed)

theorem Books.planning (h : i.Books) {force : Json} {r : Except Error Unit} (hrun : exec (Installing.plan force) i m = ((r, j), m'))
    (hend : r = .ok () ∨ ∃ key, r = .error (.unsupportedPlatform key)) : j.Books ∧ i.IsLike j := by
  obtain ⟨r', j', hrun', hending⟩ := plan_ending force i m
  cases hrun.symm.trans hrun'
  rcases hend with rfl | ⟨key, rfl⟩
  · cases hending with
    | settled hdependency hdestination => exact ⟨.settled hdependency hdestination rfl (h.putState rfl), rfl, rfl, rfl⟩
    | planned hdependency hdestination =>
      exact ⟨.planned hdependency hdestination rfl rfl rfl (h.putState rfl) (.pending rfl), rfl, rfl, rfl⟩
  · obtain ⟨hnone, rfl⟩ := hending.of_unsupported
    cases h with
    | blank _ hstates => exact ⟨.blank rfl hstates, rfl, rfl, rfl⟩
    | settled hdependency | planned hdependency => cases hnone.symm.trans hdependency

/-- A plan is recorded once its download has ended, unless it was left open. -/
theorem Books.downloading (h : i.Books) (hplan : (plan.key, plan) ∈ i.plans) {client : Option Client} {r : Except Error Bool}
    (hrun : exec (Installing.download client plan) i m = ((r, j), m'))
    (hend : (∃ b, r = .ok b) ∨ ∃ key, r = .error (.unsupportedPlatform key)) : j.Books ∧ i.IsLike j := by
  obtain ⟨_, destination, -, hdestination, -⟩ := h.of_mem hplan
  obtain ⟨r', j', m₁, hrun', -, hending⟩ := download_ending client plan i m hdestination
  cases hrun.symm.trans hrun'
  cases hending with
  | unstarted fault => simp at hend
  | unannounced fault => simp at hend
  | left hunforeseen =>
    obtain ⟨key, he⟩ := hend.resolve_left nofun
    cases he
    cases hunforeseen
  | done =>
    rw [mark_keep rfl]
    exact ⟨h.mark hplan plan.begun rfl rfl true, rfl, rfl, rfl⟩
  | @failed message _ =>
    have hkey : plan.begun.key = (plan.begun.blamed message).key := rfl
    rw [mark_keep hkey]
    exact ⟨h.mark hplan (plan.begun.blamed message) rfl rfl false, rfl, rfl, rfl⟩

/-- There is at most one plan to be carried out. -/
theorem Books.pending (h : i.Books) : i.pending = [] ∨ ∃ plan, (plan.key, plan) ∈ i.plans ∧ i.pending = [plan] := by
  cases h with
  | blank hplans => exact .inl (by simp [Installation.pending, hplans])
  | settled _ _ hplans => exact .inl (by simp [Installation.pending, hplans])
  | @planned _ _ plan _ _ _ hplans hkey =>
    by_cases hstatus : plan.status = .pending
    · exact .inr ⟨plan, by simp [hplans, hkey], by simp [Installation.pending, hplans, hstatus]⟩
    · exact .inl (by simp [Installation.pending, hplans, hstatus])

theorem Books.downloadingAll (h : i.Books) {client : Option Client} {r : Except Error Bool}
    (hrun : exec (Installing.downloadAll client) i m = ((r, j), m'))
    (hend : (∃ b, r = .ok b) ∨ ∃ key, r = .error (.unsupportedPlatform key)) : j.Books ∧ i.IsLike j := by
  rcases h.pending with hpending | ⟨plan, hplan, hpending⟩
  · obtain ⟨m₁, hrun', -⟩ := downloadAll_none (m := m) hpending
    cases hrun.symm.trans hrun'
    exact ⟨h, rfl, rfl, rfl⟩
  · rw [exec_downloadAll_one hpending] at hrun
    exact h.downloading hplan hrun hend

/-- A call keeps the books in order. -/
theorem Books.call (h : i.Books) (hcall : Calls i j) : j.Books ∧ i.IsLike j := by
  obtain @⟨call, m, m', r, hfor, hrun, hend⟩ := hcall
  have hpart {work : Installing Bool} (hrun : exec (do let _ ← work) i m = ((r, j), m')) :
      ∃ r', exec work i m = ((r', j), m') ∧ ((∃ b, r' = .ok b) ∨ ∃ key, r' = .error (.unsupportedPlatform key)) := by
    rw [exec_bind] at hrun
    rcases hwork : exec work i m with ⟨⟨r', i'⟩, m₁⟩
    rw [hwork] at hrun
    cases r' with
    | ok b =>
      cases hrun
      exact ⟨_, rfl, .inl ⟨b, rfl⟩⟩
    | error e =>
      cases hrun
      obtain ⟨key, he⟩ := hend.resolve_left nofun
      exact ⟨_, rfl, .inr ⟨key, by cases he; rfl⟩⟩
  cases call with
  | plan force => exact h.planning hrun hend
  | downloadAll client =>
    obtain ⟨r', hrun', hend'⟩ := hpart hrun
    exact h.downloadingAll hrun' hend'
  | download client plan =>
    obtain ⟨r', hrun', hend'⟩ := hpart hrun
    exact h.downloading hfor hrun' hend'
  | mark plan success =>
    cases hrun
    exact ⟨h.mark hfor plan rfl rfl success, rfl, rfl, rfl⟩

theorem Books.calls (h : i.Books) (hcalls : Relation.ReflTransGen Calls i j) : j.Books ∧ i.IsLike j := by
  induction hcalls with
  | refl => exact ⟨h, rfl, rfl, rfl⟩
  | tail _ hcall ih =>
    obtain ⟨hbooks, hlike⟩ := ih.1.call hcall
    exact ⟨hbooks, ih.2.trans hlike⟩

/-- The books of an installation agree after any calls, on whatever machines they are made one after the other. -/
theorem balanced_of_calls (hplans : i.plans = []) (hstates : i.states = []) (hcalls : Relation.ReflTransGen Calls i j) :
    j.Balanced ∧ i.IsLike j :=
  (Books.calls (.blank hplans hstates) hcalls).imp_left Books.balanced

/-- A plan is made, and then its download is reported to have failed. -/
theorem balanced_of_calls_hosted :
    (((hosted ["run"] "https://h/run.tar").planned (hostedPlan ["run"] "https://h/run.tar")).mark
      (hostedPlan ["run"] "https://h/run.tar") false).Balanced := by
  have hplan : Calls (hosted ["run"] "https://h/run.tar")
      ((hosted ["run"] "https://h/run.tar").planned (hostedPlan ["run"] "https://h/run.tar")) := @Calls.mk _ _ (.plan (.bool true)) _ _ _ trivial
    (exec_plan_hosted rfl (serving [] emptyFiles)) (.inl rfl)
  have hmark : Calls ((hosted ["run"] "https://h/run.tar").planned (hostedPlan ["run"] "https://h/run.tar"))
      (((hosted ["run"] "https://h/run.tar").planned (hostedPlan ["run"] "https://h/run.tar")).mark
        (hostedPlan ["run"] "https://h/run.tar") false) :=
    @Calls.mk _ _ (.mark (hostedPlan ["run"] "https://h/run.tar") false) (serving [] emptyFiles) _ _ (List.mem_singleton.2 rfl) rfl
      (.inl rfl)
  exact (balanced_of_calls rfl rfl (.tail (.single hplan) hmark)).1

end Installation

end Prebuilt
