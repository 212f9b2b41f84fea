import Prebuilt.Proofs.Actions.Composing
/-!
Actions that ask no server anything. Whichever servers there are and whatever was requested before, such an action does the same
and leaves both as they are: its two runs are one.
-/
set_option autoImplicit false

namespace Prebuilt

namespace Machine

/-- The machine with other servers, and with these requests behind it. -/
def online (m : Machine) (server : Server) (requests : List Request) : Machine :=
  { m with server, journal := { m.journal with requests } }

theorem online_self (m : Machine) : m.online m.server m.journal.requests = m := rfl

end Machine

namespace Action

variable {α β : Type} {m m' : Machine}

/-- The action does the same with any servers and after any requests, and leaves them alone. -/
def Offline (x : Action α) : Prop := ∀ m server requests,
  exec x (m.online server requests) = ((exec x m).1, (exec x m).2.online server requests)

theorem Offline.server {x : Action α} (hx : Offline x) (m : Machine) : (exec x m).2.server = m.server := by
  have h := hx m m.server m.journal.requests
  rw [m.online_self] at h
  rw [h]
  rfl

theorem Offline.requests {x : Action α} (hx : Offline x) (m : Machine) :
    (exec x m).2.journal.requests = m.journal.requests := by
  have h := hx m m.server m.journal.requests
  rw [m.online_self] at h
  rw [h]
  rfl

/-! ## How such actions are put together -/

theorem offline_pure (a : α) : Offline (pure a : Action α) := fun _ _ _ => rfl

theorem offline_throw (e : Error) : Offline (throw e : Action α) := fun _ _ _ => rfl

theorem offline_files : Offline files := fun _ _ _ => rfl

theorem offline_setFiles (fs : FileSystem) : Offline (setFiles fs) := fun _ _ _ => rfl

/-- What is noted down is neither a request nor does it depend on one. -/
theorem offline_record {change : Journal → Journal}
    (h : ∀ j requests, change { j with requests } = { change j with requests }) : Offline (record change) := fun m _ requests => by
  simp only [exec_record, Machine.online, h m.journal requests]

theorem Offline.bind {x : Action α} {f : α → Action β} (hx : Offline x) (hf : ∀ a, Offline (f a)) : Offline (x >>= f) := by
  intro m server requests
  rw [exec_bind, exec_bind, hx m server requests]
  rcases exec x m with ⟨r, m₁⟩
  cases r with
  | ok a => exact hf a m₁ server requests
  | error e => rfl

/-- What looks at the machine may look at anything but the servers and the requests. -/
theorem offline_get_bind {f : Machine → Action β} (hf : ∀ m, Offline (f m))
    (hsame : ∀ m server requests, f (m.online server requests) = f m) : Offline (get >>= f) := by
  intro m server requests
  rw [exec_bind_of_ok exec_get, exec_bind_of_ok exec_get, hsame m server requests]
  exact hf m m server requests

theorem Offline.attempt {x : Action α} (hx : Offline x) : Offline (attempt x) := fun m server requests => by
  rw [exec_attempt, exec_attempt, hx m server requests]

/-- Whatever becomes of the files, no server is asked. -/
theorem composes_offline : Composes (fun _ _ => True) fun _ => Offline where
  pure := offline_pure
  throw := offline_throw
  files := offline_files
  alter {change} fault _ := by
    refine offline_files.bind fun fs => ?_
    cases change fs with
    | ok fs' => exact offline_setFiles fs'
    | error e => exact offline_throw (fault e)
  bind := Offline.bind
  attempt := Offline.attempt

theorem offline_ofExcept (r : Except Error α) : Offline (ofExcept r) := composes_offline.ofExcept r

theorem Offline.ite {c : Prop} [Decidable c] {x y : Action α} (hx : Offline x) (hy : Offline y) : Offline (if c then x else y) :=
  Composes.branch (Q := fun _ => Offline) hx hy

/-! ## What others do, and what is said -/

theorem offline_log (level : Log.Level) (origin : Log.Origin) (message : Text) : Offline (log level origin message) := by
  refine offline_get_bind (fun m => (offline_ofExcept _).bind fun line => ?_) fun _ _ _ => rfl
  cases line with
  | none => exact offline_pure ()
  | some line =>
    refine Offline.bind (offline_record fun _ _ => rfl) fun _ => offline_get_bind (fun m => ?_) fun _ _ _ => rfl
    exact Offline.ite (offline_record fun _ _ => rfl) (offline_pure ())

theorem offline_race : Offline race := by
  have hnext (more : List Intrusions) : Offline (modify fun m => { m with races := more }) := fun _ _ _ => rfl
  refine offline_get_bind (fun m => ?_) fun _ _ _ => rfl
  split
  · exact offline_pure ()
  · exact (hnext _).bind fun _ => composes_offline.intrudeAll _

/-- Nothing in the course of an installation but a request asks a server anything. -/
theorem conducts_offline : Conducts fun _ => Offline where
  toComposes := composes_offline
  freshIdentifier := fun _ _ _ => rfl
  race := offline_race
  warn := offline_log _

end Action

end Prebuilt
