import Prebuilt.Proofs.Install.Meanwhile
/-!
Putting a staging directory in place step by step, with room for others between any two steps. Each step is one request to the file
system or one look at it; taken one right after the other, the steps are what an installer does once its staging directory is ready.
-/
set_option autoImplicit false

namespace Prebuilt

open Action

variable {i : Installation} {plan : Plan} {staging : FilePath} {m m' : Machine}

/-- How far an installer has come with a staging directory that is ready, and how many attempts are left after the one it is at. -/
inductive Stage where
  /-- About to see whether the destination may stay; this attempt counts as one that is left. -/
  | checking (left : Nat)
  /-- About to move aside what stands at the destination. -/
  | moving (left : Nat)
  /-- About to rename the staging directory to the destination. -/
  | placing (left : Nat) (aside : Option Text)
  /-- That was refused; about to see whether somebody else has installed the same. -/
  | rechecking (left : Nat) (aside : Option Text)
  /-- About to remove what was moved aside; what came of the attempt is known. -/
  | clearing (left : Nat) (aside : Option Text) (placed : Except Error (Option Bool))
  /-- About to remove a staging directory that was not used. -/
  | leaving (result : Except Error Bool)
  /-- At the end; tells whether the staging directory was used. -/
  | ended (result : Except Error Bool)

namespace Stage

/-- What comes after putting things in place. -/
def concluding : Except Error Bool → Stage
  | .ok true => .ended (.ok true)
  | result => .leaving result

/-- What comes after an attempt. -/
def following (left : Nat) : Except Error (Option Bool) → Stage
  | .ok none => .checking left
  | .ok (some used) => concluding (.ok used)
  | .error e => concluding (.error e)

/-- One step. -/
def next (i : Installation) (plan : Plan) (staging : FilePath) : Stage → Machine → Stage × Machine
  | .checking 0, m => (.leaving (.error (.download (.notPlaced plan.key plan.path.toText))), m)
  | .checking (left + 1), m =>
    match exec (i.isSettled plan) m with
    | (.ok true, m) => (.leaving (.ok false), m)
    | (.ok false, m) => (.moving left, m)
    | (.error e, m) => (.leaving (.error e), m)
  | .moving left, m =>
    match exec (moveAside plan.path.toText) m with
    | (.ok aside, m) => (.placing left aside, m)
    | (.error e, m) => (.leaving (.error e), m)
  | .placing left aside, m =>
    match exec (do race; attempt (rename staging.toText plan.path.toText)) m with
    | (.ok (.ok _), m) => (.clearing left aside (.ok (some true)), m)
    | (.ok (.error e), m) => (if e.isSystem then .rechecking left aside else .clearing left aside (.error e), m)
    | (.error e, m) => (.clearing left aside (.error e), m)
  | .rechecking left aside, m =>
    match exec (i.isInstalled plan.dependency) m with
    | (.ok current, m) => (.clearing left aside (.ok (if current then some false else none)), m)
    | (.error e, m) => (.clearing left aside (.error e), m)
  | .clearing left aside placed, m =>
    match exec (removeAside aside) m with
    | (.ok _, m) => (following left placed, m)
    | (.error e, m) => (.leaving (.error e), m)
  | .leaving result, m =>
    match exec (removeTree staging.toText) m with
    | (.ok _, m) => (.ended result, m)
    | (.error e, m) => (.ended (.error e), m)
  | .ended result, m => (.ended result, m)

/-! ## What is left to be done -/

/-- How an installer ends once it is known whether its staging directory was used. -/
def ending (staging : FilePath) (work : Action Bool) : Action Unit := do
  match ← attempt work with
  | .ok true => return ()
  | result =>
    removeTree staging.toText
    let _ ← Action.ofExcept result

/-- Removing what was moved aside, and further attempts if it takes any. -/
def onward (i : Installation) (plan : Plan) (staging : FilePath) (left : Nat) (aside : Option Text)
    (placing : Action (Option Bool)) : Action Unit :=
  ending staging do
    match ← ensure placing (removeAside aside) with
    | some used => return used
    | none => i.settle plan staging plan.path left

/-- What an installer has still to do. -/
def rest (i : Installation) (plan : Plan) (staging : FilePath) : Stage → Action Unit
  | .checking left => ending staging (i.settle plan staging plan.path left)
  | .moving left => ending staging do
      let aside ← moveAside plan.path.toText
      match ← ensure (i.place plan staging plan.path) (removeAside aside) with
      | some used => return used
      | none => i.settle plan staging plan.path left
  | .placing left aside => onward i plan staging left aside (i.place plan staging plan.path)
  | .rechecking left aside => onward i plan staging left aside do return if ← i.isInstalled plan.dependency then some false else none
  | .clearing left aside placed => onward i plan staging left aside (Action.ofExcept placed)
  | .leaving result => do
    removeTree staging.toText
    let _ ← Action.ofExcept result
  | .ended result => do let _ ← Action.ofExcept result

theorem rest_checking_attempts : rest i plan staging (.checking Installation.attempts) = i.conclude plan staging := rfl

theorem exec_ending (i : Installation) (plan : Plan) (work : Action Bool) (m : Machine) :
    exec (ending staging work) m = exec ((concluding (exec work m).1).rest i plan staging) (exec work m).2 := by
  rw [ending, exec_bind_of_ok (exec_attempt work)]
  rcases exec work m with ⟨r, m'⟩
  cases r with
  | error e => rfl
  | ok used => cases used <;> rfl

theorem exec_ending_bind {α : Type} (i : Installation) (plan : Plan) (first : Action α) (f : α → Action Bool) (m : Machine) :
    exec (ending staging (first >>= f)) m = match exec first m with
      | (.ok a, m') => exec (ending staging (f a)) m'
      | (.error e, m') => exec ((leaving (.error e)).rest i plan staging) m' := by
  rw [exec_ending i plan, exec_bind]
  rcases exec first m with ⟨r, m'⟩
  cases r with
  | error e => rfl
  | ok a => exact (exec_ending i plan (f a) m').symm

theorem exec_onward {left : Nat} {aside : Option Text} (placing : Action (Option Bool)) (m : Machine) :
    exec (onward i plan staging left aside placing) m = match exec (removeAside aside) (exec placing m).2 with
      | (.ok _, m') => exec ((following left (exec placing m).1).rest i plan staging) m'
      | (.error e, m') => exec ((leaving (.error e)).rest i plan staging) m' := by
  rw [onward, exec_ending_bind i plan, exec_ensure]
  rcases exec (removeAside aside) (exec placing m).2 with ⟨r, m'⟩
  cases r with
  | error e => rfl
  | ok _ =>
    rcases (exec placing m).1 with e | _ | used
    · rfl
    · rfl
    · exact exec_ending i plan (Pure.pure used) m'

theorem exec_rest_clearing (left : Nat) (aside : Option Text) (placing : Action (Option Bool)) (m : Machine) :
    exec (onward i plan staging left aside placing) m =
      exec ((clearing left aside (exec placing m).1).rest i plan staging) (exec placing m).2 := by
  rw [rest, exec_onward, exec_onward, exec_ofExcept]

/-- After each step the rest is left to be done. -/
theorem exec_rest (stage : Stage) (m : Machine) : exec (stage.rest i plan staging) m =
    exec ((stage.next i plan staging m).1.rest i plan staging) (stage.next i plan staging m).2 := by
  cases stage with
  | checking left =>
    cases left with
    | zero => rfl
    | succ left =>
      rw [rest, Installation.settle, exec_ending_bind i plan, next]
      rcases exec (i.isSettled plan) m with ⟨r, m'⟩
      rcases r with e | _ | _ <;> rfl
  | moving left =>
    rw [rest, exec_ending_bind i plan, next]
    rcases exec (moveAside plan.path.toText) m with ⟨r, m'⟩
    cases r <;> rfl
  | placing left aside =>
    rw [rest, next]
    rcases hrace : exec race m with ⟨r, m'⟩
    cases r with
    | error e =>
      rw [exec_bind_of_error hrace, exec_rest_clearing, Installation.place, exec_bind_of_error hrace]
    | ok _ =>
      rw [exec_bind_of_ok hrace, exec_attempt, exec_rest_clearing, Installation.place, exec_bind_of_ok hrace,
        exec_bind_of_ok (exec_attempt _)]
      rcases exec (rename staging.toText plan.path.toText) m' with ⟨r', m₁⟩
      cases r' with
      | ok _ => rfl
      | error e =>
        cases hsystem : e.isSystem with
        | false => simp [hsystem]
        | true =>
          simp only [hsystem, Bool.not_true, Bool.false_eq_true, if_false, if_true]
          exact (exec_rest_clearing _ _ _ _).symm
  | rechecking left aside =>
    rw [rest, exec_rest_clearing, next, exec_bind]
    rcases exec (i.isInstalled plan.dependency) m with ⟨r, m'⟩
    cases r <;> rfl
  | clearing left aside placed =>
    rw [rest, exec_onward, exec_ofExcept, next]
    rcases exec (removeAside aside) m with ⟨r, m'⟩
    cases r <;> rfl
  | leaving result =>
    rw [rest, exec_bind, next]
    rcases exec (removeTree staging.toText) m with ⟨r, m'⟩
    cases r <;> rfl
  | ended result => rfl

/-! ## Ending -/

/-- No more steps than these are left. -/
def steps : Stage → Nat
  | .checking left => 5 * left + 2
  | .moving left => 5 * left + 6
  | .placing left _ => 5 * left + 5
  | .rechecking left _ => 5 * left + 4
  | .clearing left _ _ => 5 * left + 3
  | .leaving _ => 1
  | .ended _ => 0

theorem steps_eq_zero {stage : Stage} (h : stage.steps = 0) : ∃ result, stage = .ended result := by
  cases stage with
  | ended result => exact ⟨result, rfl⟩
  | _ => simp [steps] at h

theorem steps_concluding (result : Except Error Bool) : (concluding result).steps ≤ 1 := by
  rcases result with e | _ | _ <;> simp [concluding, steps]

theorem steps_following (left : Nat) (placed : Except Error (Option Bool)) : (following left placed).steps ≤ 5 * left + 2 := by
  rcases placed with e | _ | used
  · have hend : (following left (.error e)).steps ≤ 1 := steps_concluding (.error e)
    omega
  · exact Nat.le_refl _
  · have hend : (following left (.ok (some used))).steps ≤ 1 := steps_concluding (.ok used)
    omega

theorem steps_next (i : Installation) (plan : Plan) (staging : FilePath) (stage : Stage) (m : Machine) :
    (stage.next i plan staging m).1.steps ≤ stage.steps - 1 := by
  cases stage with
  | checking left =>
    cases left with
    | zero => exact Nat.le_refl _
    | succ left =>
      rw [next]
      split
      · simp only [steps]
        omega
      · exact Nat.le_refl _
      · simp only [steps]
        omega
  | moving left =>
    rw [next]
    split <;> simp only [steps] <;> omega
  | placing left aside =>
    rw [next]
    split
    · simp only [steps]
      omega
    · split <;> simp only [steps] <;> omega
    · simp only [steps]
      omega
  | rechecking left aside =>
    rw [next]
    split <;> simp only [steps] <;> omega
  | clearing left aside placed =>
    rw [next]
    split
    · exact steps_following left placed
    · simp only [steps]
      omega
  | leaving result =>
    rw [next]
    split <;> exact Nat.le_refl _
  | ended result => exact Nat.le_refl _

/-- With nobody else at work, the steps one after the other do what was left to be done. -/
theorem exec_rest_iterate (i : Installation) (plan : Plan) (staging : FilePath) (stage : Stage) (m : Machine) : ∃ result m',
    (fun x : Stage × Machine => x.1.next i plan staging x.2)^[stage.steps] (stage, m) = (.ended result, m') ∧
      exec (stage.rest i plan staging) m = (result.map fun _ => (), m') := by
  have hall : ∀ count (stage : Stage) m, stage.steps ≤ count → ∃ result m',
      (fun x : Stage × Machine => x.1.next i plan staging x.2)^[count] (stage, m) = (.ended result, m') ∧
        exec (stage.rest i plan staging) m = (result.map fun _ => (), m') := by
    intro count
    induction count with
    | zero =>
      intro stage m hsteps
      obtain ⟨result, rfl⟩ := steps_eq_zero (Nat.le_zero.1 hsteps)
      exact ⟨result, m, rfl, by cases result <;> rfl⟩
    | succ count ih =>
      intro stage m hsteps
      have hnext := steps_next i plan staging stage m
      obtain ⟨result, m', hrun, hrest⟩ := ih (stage.next i plan staging m).1 (stage.next i plan staging m).2 (by omega)
      exact ⟨result, m', hrun, by rw [exec_rest, hrest]⟩
  exact hall _ stage m (Nat.le_refl _)

end Stage

end Prebuilt
