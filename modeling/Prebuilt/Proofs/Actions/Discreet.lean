import Prebuilt.Proofs.Actions.Composing
import Prebuilt.Proofs.Text.Encodable
import Prebuilt.Proofs.Text.Digits
/-!
Actions whose course does not depend on what is shown of it. On two machines that differ only in which messages are shown and in
what was said before, such an action ends alike and leaves machines that differ in no more than that. Showing a message is an
action of this kind if the message can be written down, or if it is shown on both machines.
-/
set_option autoImplicit false

namespace Prebuilt

/-- The directory to install in can be written down, if it is given as text. -/
def Settings.IsWritable (s : Settings) : Prop := ∀ t, s.installDirectory = .text t → t.isString = true

namespace Machine

/-- The directories that an installation may name can be written down. -/
structure IsWritable (m : Machine) : Prop where
  temporary : m.temporary.isString = true
  package : m.package.isString = true
  environment : ∀ t, Table.get? Settings.directoryVariable m.environment = some t → t.isString = true
  settings : ∀ entry ∈ m.settings, entry.2.IsWritable

/-- Nothing is different but what was logged. -/
def Noted (m m' : Machine) : Prop :=
  m' = { m with journal := { m.journal with log := m'.journal.log, notices := m'.journal.notices } }

/-- The machine without what was said, and without a choice of what is shown. -/
def hushed (m : Machine) : Machine :=
  { m with threshold := 0, verbose := false, journal := { m.journal with log := [], notices := [] } }

/-- The machines differ in nothing but what was said and which messages are shown. Warnings are shown on both. -/
structure Alike (m m' : Machine) : Prop where
  hushed : m.hushed = m'.hushed
  warns : Log.isEnabled m.threshold Log.warning = true
  warnsToo : Log.isEnabled m'.threshold Log.warning = true
  writable : m.IsWritable

variable {m m' m₁ : Machine}

theorem noted_refl (m : Machine) : m.Noted m := rfl

theorem Noted.trans (h : m.Noted m₁) (h' : m₁.Noted m') : m.Noted m' := by
  unfold Noted at h h' ⊢
  rw [h', h]

theorem Noted.server (h : m.Noted m') : m'.server = m.server := by rw [h]

theorem Noted.files (h : m.Noted m') : m'.files = m.files := by rw [h]

theorem Noted.threshold (h : m.Noted m') : m'.threshold = m.threshold := by rw [h]

theorem Noted.requests (h : m.Noted m') : m'.journal.requests = m.journal.requests := by rw [h]

namespace Alike

variable (h : m.Alike m')

include h

theorem same {β : Type} (look : Machine → β) (hlook : ∀ k, look k.hushed = look k) : look m = look m' := by
  rw [← hlook m, ← hlook m', h.hushed]

theorem files : m.files = m'.files := h.same (·.files) fun _ => rfl

/-- What was said since makes no difference. -/
theorem of_noted {k k' : Machine} (hk : m.Noted k) (hk' : m'.Noted k') : k.Alike k' := by
  rw [hk, hk']
  exact ⟨h.hushed, h.warns, h.warnsToo, h.writable.1, h.writable.2, h.writable.3, h.writable.4⟩

end Alike

end Machine

namespace Action

open Machine

variable {α β : Type} {m m' : Machine} {level : Log.Level} {message : Text}

/-- The action does the same whatever is shown of it. -/
def Discreet (x : Action α) : Prop :=
  ∀ m m', m.Alike m' → (exec x m).1 = (exec x m').1 ∧ (exec x m).2.Alike (exec x m').2

/-! ## How such actions are put together -/

theorem discreet_of_exec {x : Action α} {r : Except Error α} (h : ∀ m, exec x m = (r, m)) : Discreet x := fun m m' hm => by
  rw [h, h]
  exact ⟨rfl, hm⟩

theorem discreet_files : Discreet files := fun _ _ h => ⟨congrArg Except.ok h.files, h⟩

/-- A change that neither depends on what was said nor has a say in it. -/
theorem discreet_modify {change : Machine → Machine} (hhushed : ∀ m, (change m).hushed = change m.hushed)
    (hthreshold : ∀ m, (change m).threshold = m.threshold) (hwritable : ∀ m, m.IsWritable → (change m).IsWritable) :
    Discreet (modify change) := by
  intro m m' h
  refine ⟨rfl, ?_, ?_, ?_, hwritable m h.writable⟩ <;> simp only [exec_modify]
  · rw [hhushed, hhushed, h.hushed]
  · rw [hthreshold]
    exact h.warns
  · rw [hthreshold]
    exact h.warnsToo

theorem discreet_record {change : Journal → Journal}
    (h : ∀ j, { change j with log := [], notices := [] } = change { j with log := [], notices := [] }) : Discreet (record change) :=
  discreet_modify (fun m => congrArg (fun journal => { m.hushed with journal }) (h m.journal)) (fun _ => rfl)
    fun _ hm => ⟨hm.1, hm.2, hm.3, hm.4⟩

/-- What the second action may assume of the value of the first. -/
theorem Discreet.bind_of {x : Action α} {f : α → Action β} (hx : Discreet x)
    (hf : ∀ a m m₁, m.IsWritable → exec x m = (.ok a, m₁) → Discreet (f a)) : Discreet (x >>= f) := by
  intro m m' h
  obtain ⟨hr, hm⟩ := hx m m' h
  rw [exec_bind, exec_bind]
  rcases hrun : exec x m with ⟨r, m₁⟩
  rcases hrun' : exec x m' with ⟨r', m₁'⟩
  rw [hrun, hrun'] at hr hm
  dsimp only at hr hm
  subst hr
  cases r with
  | ok a => exact hf a m m₁ h.writable hrun m₁ m₁' hm
  | error e => exact ⟨rfl, hm⟩

theorem Discreet.bind {x : Action α} {f : α → Action β} (hx : Discreet x) (hf : ∀ a, Discreet (f a)) : Discreet (x >>= f) :=
  hx.bind_of fun a _ _ _ _ => hf a

/-- What looks at the machine may look at all that the two have in common. -/
theorem discreet_get_bind {f : Machine → Action β} (hf : ∀ m m', m.Alike m' → Discreet (f m))
    (hsame : ∀ m m', m.Alike m' → f m = f m') : Discreet (get >>= f) := by
  intro m m' h
  rw [exec_bind_of_ok exec_get, exec_bind_of_ok exec_get, ← hsame m m' h]
  exact hf m m' h m m' h

theorem Discreet.attempt {x : Action α} (hx : Discreet x) : Discreet (attempt x) := fun m m' h => by
  rw [exec_attempt, exec_attempt]
  exact ⟨congrArg Except.ok (hx m m' h).1, (hx m m' h).2⟩

/-- Whatever becomes of the files, what is shown is of no consequence. -/
theorem composes_discreet : Composes (fun _ _ => True) fun _ => Discreet where
  pure a := discreet_of_exec fun _ => exec_pure a
  throw e := discreet_of_exec fun _ => exec_throw e
  files := discreet_files
  alter {change} fault _ := by
    refine discreet_files.bind fun fs => ?_
    cases change fs with
    | ok fs' => exact discreet_modify (fun _ => rfl) (fun _ => rfl) fun _ hm => ⟨hm.1, hm.2, hm.3, hm.4⟩
    | error e => exact discreet_of_exec fun _ => exec_throw _
  bind := Discreet.bind
  attempt := Discreet.attempt

theorem Discreet.ite {c : Prop} [Decidable c] {x y : Action α} (hx : Discreet x) (hy : Discreet y) : Discreet (if c then x else y) :=
  Composes.branch (Q := fun _ => Discreet) hx hy

/-! ## Messages -/

theorem noted_log (level : Log.Level) (origin : Log.Origin) (message : Text) :
    Keeps m.Noted (log level origin message) := by
  have hrecord (lines : List Log.Line) (notices : List Notice) : Keeps m.Noted (record fun j =>
      { j with log := j.log ++ lines, notices := j.notices ++ notices }) := fun m' h => h.trans rfl
  refine keeps_get.bind fun _ => (keeps_ofExcept _).bind fun line => ?_
  cases line with
  | none => exact keeps_pure ()
  | some line =>
    refine Keeps.bind (fun m' h => h.trans rfl) fun _ => keeps_get.bind fun _ => Keeps.ite (fun _ => ?_) fun _ => keeps_pure ()
    exact fun m' h => h.trans rfl

/-- Whether a message is accepted does not depend on where it goes. -/
theorem exec_log_fst (level : Log.Level) (origin : Log.Origin) (message : Text) (m : Machine) :
    (exec (log level origin message) m).1 = (Log.line? m.threshold level origin message).map fun _ => () := by
  rw [log, exec_bind_of_ok exec_get]
  cases Log.line? m.threshold level origin message with
  | error e => rw [exec_bind_of_error (exec_ofExcept _)]; rfl
  | ok line =>
    rw [exec_bind_of_ok (exec_ofExcept _)]
    cases line with
    | none => rfl
    | some line =>
      simp only [exec_bind_of_ok (exec_record _), exec_bind_of_ok exec_get]
      split <;> rfl

/-- What can be written down is accepted, whatever is shown. -/
theorem line?_of_isString (h : message.isString = true) (threshold : Log.Level) (level : Log.Level) (origin : Log.Origin) :
    (Log.line? threshold level origin message).map (fun _ => ()) = .ok () := by
  rw [Log.line?]
  split
  · rfl
  · obtain ⟨bytes, hbytes⟩ := Utf8.encode_ok_iff.2 ((Text.isString_replaceChar (c := '\n') (d := ' ') rfl rfl message).trans h)
    simp only [hbytes]
    rfl

theorem isEnabled_of_warning {threshold : Log.Level} (h : Log.isEnabled threshold Log.warning = true) (hlevel : Log.warning ≤ level) :
    Log.isEnabled threshold level = true := by
  simp only [Log.isEnabled, Bool.and_eq_true, decide_eq_true_eq] at h ⊢
  exact ⟨Int.lt_of_lt_of_le h.1 hlevel, Int.le_trans h.2 hlevel⟩

theorem discreet_log (origin : Log.Origin) (h : Log.warning ≤ level ∨ message.isString = true) : Discreet (log level origin message) := by
  intro m m' hm
  refine ⟨?_, hm.of_noted (noted_log level origin message m m.noted_refl) (noted_log level origin message m' m'.noted_refl)⟩
  rw [exec_log_fst, exec_log_fst]
  rcases h with hlevel | hmessage
  · simp only [Log.line?, isEnabled_of_warning hm.warns hlevel, isEnabled_of_warning hm.warnsToo hlevel]
  · rw [line?_of_isString hmessage, line?_of_isString hmessage]

/-! ## What an installation is put together from -/

theorem discreet_race : Discreet race := by
  refine discreet_get_bind (fun m _ _ => ?_) fun m m' h => by rw [h.same (·.races) fun _ => rfl]
  split
  · exact composes_discreet.pure ()
  · have hnext (more : List Intrusions) : Discreet (modify fun m => { m with races := more }) :=
      discreet_modify (fun _ => rfl) (fun _ => rfl) fun _ hm => ⟨hm.1, hm.2, hm.3, hm.4⟩
    exact (hnext _).bind fun _ => composes_discreet.intrudeAll _

theorem conducts_discreet : Conducts fun _ => Discreet where
  toComposes := composes_discreet
  freshIdentifier m m' h := by
    have hcount (m : Machine) : exec freshIdentifier m = (.ok (Text.hex 32 (m.identifiers + 1)), { m with identifiers := m.identifiers + 1 }) :=
      rfl
    rw [hcount, hcount, h.same (·.identifiers) fun _ => rfl]
    refine ⟨rfl, ?_, h.warns, h.warnsToo, h.writable.1, h.writable.2, h.writable.3, h.writable.4⟩
    exact congrArg (fun k : Machine => { k with identifiers := m'.identifiers + 1 }) h.hushed
  race := discreet_race
  warn origin message := discreet_log origin (.inl (Int.le_refl _))

end Action

end Prebuilt
