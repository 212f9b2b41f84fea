import Prebuilt.Machine
/-!
Running actions. `exec` gives what an action returns and the machine it leaves behind; `Keeps` says that it maintains a
property of the machine whether it returns or fails.
-/
set_option autoImplicit false

namespace Prebuilt.Action

variable {α β : Type} {m m' : Machine} {P Q : Machine → Prop}

def exec (action : Action α) (m : Machine) : Except Error α × Machine := action.run.run m

/-! ## Results of actions -/

@[simp] theorem exec_pure (a : α) : exec (pure a) m = (.ok a, m) := rfl

@[simp] theorem exec_throw (e : Error) : exec (throw e : Action α) m = (.error e, m) := rfl

theorem exec_bind (x : Action α) (f : α → Action β) : exec (x >>= f) m =
    match exec x m with
    | (.ok a, m') => exec (f a) m'
    | (.error e, m') => (.error e, m') := by
  rcases hx : exec x m with ⟨r, m₁⟩
  rw [exec] at hx
  simp only [exec, ExceptT.run_bind, StateT.run_bind, hx]
  cases r <;> rfl

theorem exec_bind_of_ok {x : Action α} {f : α → Action β} {a : α} (h : exec x m = (.ok a, m')) :
    exec (x >>= f) m = exec (f a) m' := by
  rw [exec_bind, h]

theorem exec_bind_of_error {x : Action α} {f : α → Action β} {e : Error} (h : exec x m = (.error e, m')) :
    exec (x >>= f) m = (.error e, m') := by
  rw [exec_bind, h]

/-- An action made of two returns if and only if both do. -/
theorem bind_ok {x : Action α} {f : α → Action β} {b : β} :
    exec (x >>= f) m = (.ok b, m') ↔ ∃ a m₁, exec x m = (.ok a, m₁) ∧ exec (f a) m₁ = (.ok b, m') := by
  rw [exec_bind]
  rcases exec x m with ⟨r, m₁⟩
  cases r with
  | error e => simp
  | ok a =>
    constructor
    · exact fun h => ⟨a, m₁, rfl, h⟩
    · rintro ⟨a', m₂, hx, h⟩
      cases hx
      exact h

/-- What holds after two actions, however the first ends. -/
theorem after_bind {x : Action α} {f : α → Action β} (herror : ∀ e m', exec x m = (.error e, m') → P m')
    (hok : ∀ a m', exec x m = (.ok a, m') → P (exec (f a) m').2) : P (exec (x >>= f) m).2 := by
  rw [exec_bind]
  rcases hx : exec x m with ⟨r, m'⟩
  cases r with
  | ok a => exact hok a m' hx
  | error e => exact herror e m' hx

/-- The same where the first action leaves the machine as it is. -/
theorem after_look {x : Action α} {f : α → Action β} (hx : (exec x m).2 = m) (hm : P m)
    (hok : ∀ a, exec x m = (.ok a, m) → P (exec (f a) m).2) : P (exec (x >>= f) m).2 := by
  refine after_bind (fun e m' h => ?_) fun a m' h => ?_
  · rw [h] at hx
    obtain rfl : m' = m := hx
    exact hm
  · rw [h] at hx
    obtain rfl : m' = m := hx
    exact hok a h

@[simp] theorem exec_map (f : α → β) (x : Action α) :
    exec (f <$> x) m = ((exec x m).1.map f, (exec x m).2) := by
  rw [map_eq_pure_bind, exec_bind]
  rcases exec x m with ⟨r, m₁⟩
  cases r <;> rfl

@[simp] theorem exec_get : exec (get : Action Machine) m = (.ok m, m) := rfl

@[simp] theorem exec_set (m' : Machine) : exec (set m' : Action Unit) m = (.ok (), m') := rfl

@[simp] theorem exec_modify (f : Machine → Machine) : exec (modify f : Action Unit) m = (.ok (), f m) := rfl

@[simp] theorem exec_files : exec files m = (.ok m.files, m) := rfl

@[simp] theorem exec_setFiles (fs : FileSystem) : exec (setFiles fs) m = (.ok (), { m with files := fs }) := rfl

@[simp] theorem exec_ofExcept (r : Except Error α) : exec (ofExcept r) m = (r, m) := by cases r <;> rfl

@[simp] theorem exec_attempt (x : Action α) : exec (attempt x) m = (.ok (exec x m).1, (exec x m).2) := rfl

@[simp] theorem exec_record (change : Journal → Journal) :
    exec (record change) m = (.ok (), { m with journal := change m.journal }) := rfl

theorem exec_ensure (x : Action α) (after : Action Unit) : exec (ensure x after) m =
    match exec after (exec x m).2 with
    | (.ok _, m') => ((exec x m).1, m')
    | (.error e, m') => (.error e, m') := by
  rw [ensure, exec_bind_of_ok (exec_attempt x), exec_bind]
  rcases exec after (exec x m).2 with ⟨r, m₁⟩
  cases r <;> simp

theorem exec_catching (x : Action α) (handle : Error → Option (Action α)) : exec (catching x handle) m =
    match exec x m with
    | (.ok a, m') => (.ok a, m')
    | (.error e, m') => match handle e with
      | some action => exec action m'
      | none => (.error e, m') := by
  rw [catching, exec_bind_of_ok (exec_attempt x)]
  rcases exec x m with ⟨r, m₁⟩
  cases r with
  | ok a => rfl
  | error e => cases h : handle e <;> simp [h]

/-- A handler that only looks and fails changes nothing more. -/
theorem catching_state {x : Action α} {handle : Error → Option (Action α)}
    (h : ∀ e action, handle e = some action → ∀ m, (exec action m).2 = m) :
    (exec (catching x handle) m).2 = (exec x m).2 := by
  rw [exec_catching]
  rcases exec x m with ⟨r, m₁⟩
  cases r with
  | ok a => rfl
  | error e =>
    cases he : handle e with
    | none => simp [he]
    | some action => simpa [he] using h e action he m₁

/-! ## Requests -/

@[simp] theorem exec_isDirectory (path : Text) : exec (isDirectory path) m = (.ok (m.files.isDirectory path), m) := rfl

@[simp] theorem exec_isLink (path : Text) : exec (isLink path) m = (.ok (m.files.isLink path), m) := rfl

@[simp] theorem exec_hasTarget (path : Text) : exec (hasTarget path) m = (.ok (m.files.hasTarget path), m) := rfl

@[simp] theorem exec_hasEntry (path : Text) : exec (hasEntry path) m = (.ok (m.files.hasEntry path), m) := rfl

theorem exec_checkPath (path : Text) : ∃ r : Except Error Unit, ∀ m, exec (checkPath path) m = (r, m) := by
  unfold checkPath
  split
  · exact ⟨_, fun _ => rfl⟩
  · split <;> exact ⟨_, fun _ => rfl⟩

variable {path source target : Text}

/-- A path that can be handed to the system. -/
def IsSendable (path : Text) : Prop := ∃ bytes, Utf8.encodeName path = .ok bytes ∧ bytes.contains 0 = false

theorem IsSendable.exec (h : IsSendable path) (m : Machine) : exec (checkPath path) m = (.ok (), m) := by
  obtain ⟨bytes, hbytes, hzero⟩ := h
  simp only [checkPath, hbytes, hzero, Bool.false_eq_true, if_false]
  rfl

/-- A path that cannot is no file name, or holds a null character. -/
theorem checkPath_of_not_isSendable (h : ¬IsSendable path) : ∃ e, ((∃ fault, e = .unencodable fault) ∨ e = .value .embeddedNull) ∧
    ∀ m, exec (checkPath path) m = (.error e, m) := by
  unfold checkPath
  cases hbytes : Utf8.encodeName path with
  | error fault => exact ⟨_, .inl ⟨fault, rfl⟩, fun _ => rfl⟩
  | ok bytes =>
    cases hzero : bytes.contains 0 with
    | true => exact ⟨_, .inr rfl, fun _ => by simp only [hzero, if_true, exec_throw]⟩
    | false => exact absurd ⟨bytes, hbytes, hzero⟩ h

/-- That fault is not the system's. -/
theorem isSendable_or (path : Text) :
    IsSendable path ∨ ∃ e, e.isSystem = false ∧ ∀ m, exec (checkPath path) m = (.error e, m) := by
  by_cases h : IsSendable path
  · exact .inl h
  · obtain ⟨e, he, hcheck⟩ := checkPath_of_not_isSendable h
    refine .inr ⟨e, ?_, hcheck⟩
    rcases he with ⟨fault, rfl⟩ | rfl <;> rfl

theorem exec_request {change : FileSystem → Except Errno FileSystem} (hpath : IsSendable path) (m : Machine) :
    exec (request path change) m = match change m.files with
      | .ok fs => (.ok (), { m with files := fs })
      | .error e => (.error (.system ⟨e, some path, none⟩), m) := by
  rw [request, exec_bind_of_ok (hpath.exec m), exec_bind_of_ok exec_files]
  cases change m.files <;> rfl

theorem exec_requestTwo {change : FileSystem → Except Errno FileSystem} (hsource : IsSendable source)
    (htarget : IsSendable target) (m : Machine) : exec (requestTwo source target change) m = match change m.files with
      | .ok fs => (.ok (), { m with files := fs })
      | .error e => (.error (.system ⟨e, some source, some target⟩), m) := by
  rw [requestTwo, exec_bind_of_ok (hsource.exec m), exec_bind_of_ok (htarget.exec m), exec_bind_of_ok exec_files]
  cases change m.files <;> rfl

/-- A request about a path that cannot be sent fails, and the fault is not the system's. -/
theorem exec_requestTwo_unsendable {change : FileSystem → Except Errno FileSystem}
    (h : ¬ (IsSendable source ∧ IsSendable target)) (m : Machine) :
    ∃ e, e.isSystem = false ∧ exec (requestTwo source target change) m = (.error e, m) := by
  rcases isSendable_or source with hs | ⟨e, hsystem, he⟩
  · rcases isSendable_or target with ht | ⟨e, hsystem, he⟩
    · exact absurd ⟨hs, ht⟩ h
    · exact ⟨e, hsystem, by rw [requestTwo, exec_bind_of_ok (hs.exec m), exec_bind_of_error (he m)]⟩
  · exact ⟨e, hsystem, by rw [requestTwo, exec_bind_of_error (he m)]⟩

theorem isSendable_of_request {change : FileSystem → Except Errno FileSystem}
    (h : exec (request path change) m = (.ok (), m')) : IsSendable path := by
  rcases isSendable_or path with hp | ⟨e, -, he⟩
  · exact hp
  · rw [request, exec_bind_of_error (he m)] at h
    cases h

theorem request_cases (path : Text) (change : FileSystem → Except Errno FileSystem) (m : Machine) :
    (∃ e, exec (request path change) m = (.error e, m)) ∨
      ∃ fs, change m.files = .ok fs ∧ exec (request path change) m = (.ok (), { m with files := fs }) := by
  obtain ⟨r, hr⟩ := exec_checkPath path
  rw [request, exec_bind, hr]
  cases r with
  | error e => exact .inl ⟨e, rfl⟩
  | ok _ =>
    simp only [exec_bind, exec_files]
    cases h : change m.files with
    | ok fs => exact .inr ⟨fs, rfl, rfl⟩
    | error e => exact .inl ⟨_, rfl⟩

theorem requestTwo_cases (source target : Text) (change : FileSystem → Except Errno FileSystem) (m : Machine) :
    (∃ e, exec (requestTwo source target change) m = (.error e, m)) ∨
      ∃ fs, change m.files = .ok fs ∧ exec (requestTwo source target change) m = (.ok (), { m with files := fs }) := by
  obtain ⟨r, hr⟩ := exec_checkPath source
  obtain ⟨r', hr'⟩ := exec_checkPath target
  rw [requestTwo, exec_bind, hr]
  cases r with
  | error e => exact .inl ⟨e, rfl⟩
  | ok _ =>
    simp only [exec_bind, hr']
    cases r' with
    | error e => exact .inl ⟨e, rfl⟩
    | ok _ =>
      simp only [exec_files]
      cases h : change m.files with
      | ok fs => exact .inr ⟨fs, rfl, rfl⟩
      | error e => exact .inl ⟨_, rfl⟩

/-! ## Properties that are kept -/

/-- Whether it returns or fails, the action maintains the property. -/
def Keeps (P : Machine → Prop) (action : Action α) : Prop := ∀ m, P m → P (exec action m).2

theorem Keeps.after {x : Action α} {r : Except Error α} (h : Keeps P x) (hm : P m) (hrun : exec x m = (r, m')) : P m' := by
  have hafter := h m hm
  rwa [hrun] at hafter

theorem keeps_pure (a : α) : Keeps P (pure a : Action α) := fun _ h => h

theorem keeps_throw (e : Error) : Keeps P (throw e : Action α) := fun _ h => h

/-- What only looks keeps everything. -/
theorem keeps_of_exec {x : Action α} (h : ∀ m, (exec x m).2 = m) : Keeps P x := fun m hm => by
  rw [h]
  exact hm

theorem keeps_get : Keeps P (get : Action Machine) := fun _ h => h

theorem keeps_files : Keeps P files := fun _ h => h

theorem keeps_ofExcept (r : Except Error α) : Keeps P (ofExcept r) := fun m h => by
  rw [exec_ofExcept]
  exact h

theorem Keeps.bind {x : Action α} {f : α → Action β} (hx : Keeps P x) (hf : ∀ a, Keeps P (f a)) :
    Keeps P (x >>= f) := by
  intro m h
  have hm := hx m h
  rw [exec_bind]
  rcases hr : exec x m with ⟨r, m₁⟩
  rw [hr] at hm
  cases r with
  | ok a => exact hf a m₁ hm
  | error e => exact hm

/-- What the second action may assume of the value of the first and of the machine between them. -/
theorem Keeps.bind_of {x : Action α} {f : α → Action β} (hx : Keeps P x)
    (hf : ∀ m a m₁, P m → exec x m = (.ok a, m₁) → P m₁ → P (exec (f a) m₁).2) : Keeps P (x >>= f) := by
  intro m h
  have hm := hx m h
  rw [exec_bind]
  rcases hr : exec x m with ⟨r, m₁⟩
  rw [hr] at hm
  cases r with
  | ok a => exact hf m a m₁ h hr hm
  | error e => exact hm

theorem Keeps.map {x : Action α} (f : α → β) (hx : Keeps P x) : Keeps P (f <$> x) := fun m h => by
  rw [exec_map]
  exact hx m h

theorem Keeps.attempt {x : Action α} (hx : Keeps P x) : Keeps P (attempt x) := hx

theorem Keeps.ensure {x : Action α} {after : Action Unit} (hx : Keeps P x) (hafter : Keeps P after) :
    Keeps P (ensure x after) := by
  intro m h
  have hm := hafter _ (hx m h)
  rw [exec_ensure]
  rcases hr : exec after (exec x m).2 with ⟨r, m₁⟩
  rw [hr] at hm
  cases r <;> exact hm

theorem Keeps.catching {x : Action α} {handle : Error → Option (Action α)} (hx : Keeps P x)
    (hhandle : ∀ e action, handle e = some action → Keeps P action) : Keeps P (catching x handle) := by
  intro m h
  have hm := hx m h
  rw [exec_catching]
  rcases hr : exec x m with ⟨r, m₁⟩
  rw [hr] at hm
  cases r with
  | ok a => exact hm
  | error e =>
    cases he : handle e with
    | none => simpa [he] using hm
    | some action => simpa [he] using hhandle e action he m₁ hm

theorem Keeps.ite {c : Prop} [Decidable c] {x y : Action α} (hx : c → Keeps P x) (hy : ¬ c → Keeps P y) :
    Keeps P (if c then x else y) := by
  split
  · exact hx ‹_›
  · exact hy ‹_›

theorem Keeps.forM {f : α → Action Unit} {items : List α} (hf : ∀ a ∈ items, Keeps P (f a)) :
    Keeps P (items.forM f) := by
  induction items with
  | nil => exact keeps_pure ()
  | cons a rest ih => exact (hf a (by simp)).bind fun _ => ih fun b hb => hf b (by simp [hb])

theorem Keeps.allM {f : α → Action Bool} {items : List α} (hf : ∀ a ∈ items, Keeps P (f a)) : Keeps P (items.allM f) := by
  induction items with
  | nil => exact keeps_pure true
  | cons a rest ih =>
    refine (hf a (by simp)).bind fun r => ?_
    cases r with
    | true => exact ih fun b hb => hf b (by simp [hb])
    | false => exact keeps_pure false

/-- Where all of several checks succeed each does, on a machine as the checks keep it. -/
theorem allM_true {f : α → Action Bool} {items : List α} (hf : ∀ a ∈ items, Keeps P (f a)) (hm : P m)
    (h : exec (items.allM f) m = (.ok true, m')) : ∀ a ∈ items, ∃ m₁ m₂, P m₁ ∧ exec (f a) m₁ = (.ok true, m₂) := by
  induction items generalizing m with
  | nil => nofun
  | cons a r ih =>
    obtain ⟨ha, hr⟩ := List.forall_mem_cons.1 hf
    rw [List.allM] at h
    obtain ⟨good, m₁, hrun, h⟩ := bind_ok.1 h
    cases good with
    | false => cases h
    | true =>
      have hm₁ := ha m hm
      rw [hrun] at hm₁
      exact List.forall_mem_cons.2 ⟨⟨m, m₁, hm, hrun⟩, ih hr hm₁ h⟩

theorem Keeps.findM? {f : α → Action Bool} {items : List α} (hf : ∀ a ∈ items, Keeps P (f a)) :
    Keeps P (items.findM? f) := by
  induction items with
  | nil => exact keeps_pure none
  | cons a rest ih =>
    refine (hf a (by simp)).bind fun r => ?_
    cases r with
    | true => exact keeps_pure (some a)
    | false => exact ih fun b hb => hf b (by simp [hb])

theorem Keeps.findSomeM? {f : α → Action (Option β)} {items : List α} (hf : ∀ a ∈ items, Keeps P (f a)) :
    Keeps P (items.findSomeM? f) := by
  induction items with
  | nil => exact keeps_pure none
  | cons a rest ih =>
    refine (hf a (by simp)).bind fun r => ?_
    cases r with
    | some b => exact keeps_pure (some b)
    | none => exact ih fun b hb => hf b (by simp [hb])

theorem keeps_checkPath (path : Text) : Keeps P (checkPath path) := by
  obtain ⟨r, hr⟩ := exec_checkPath path
  intro m h
  rw [hr]
  exact h

theorem keeps_request {path : Text} {change : FileSystem → Except Errno FileSystem}
    (hchange : ∀ m fs, P m → change m.files = .ok fs → P { m with files := fs }) : Keeps P (request path change) := by
  intro m h
  rcases request_cases path change m with ⟨e, he⟩ | ⟨fs, hfs, he⟩
  · rw [he]
    exact h
  · rw [he]
    exact hchange m fs h hfs

theorem keeps_requestTwo {source target : Text} {change : FileSystem → Except Errno FileSystem}
    (hchange : ∀ m fs, P m → change m.files = .ok fs → P { m with files := fs }) :
    Keeps P (requestTwo source target change) := by
  intro m h
  rcases requestTwo_cases source target change m with ⟨e, he⟩ | ⟨fs, hfs, he⟩
  · rw [he]
    exact h
  · rw [he]
    exact hchange m fs h hfs

/-- A question leaves the machine as it is. -/
theorem exec_ask (path : Text) (question : FileSystem → Except Errno α) (m : Machine) :
    (exec (ask path question) m).2 = m := by
  obtain ⟨r, hr⟩ := exec_checkPath path
  rw [ask, exec_bind, hr]
  cases r with
  | error e => rfl
  | ok _ =>
    simp only [exec_bind, exec_files]
    cases question m.files <;> rfl

theorem ask_ok {path : Text} {question : FileSystem → Except Errno α} {a : α}
    (h : exec (ask path question) m = (.ok a, m')) : m' = m ∧ question m.files = .ok a := by
  obtain ⟨r, hr⟩ := exec_checkPath path
  rw [ask, bind_ok] at h
  obtain ⟨_, m₁, hcheck, h⟩ := h
  rw [hr] at hcheck
  cases hcheck
  rw [exec_bind_of_ok exec_files] at h
  cases hq : question m.files with
  | error e => simp [hq] at h
  | ok b =>
    simp only [hq, exec_pure, Prod.mk.injEq, Except.ok.injEq] at h
    exact ⟨h.2.symm, by rw [h.1]⟩

theorem exec_ask_of_ok {path : Text} {question : FileSystem → Except Errno α} {a : α} (hpath : IsSendable path)
    (h : question m.files = .ok a) : exec (ask path question) m = (.ok a, m) := by
  rw [ask, exec_bind_of_ok (hpath.exec m), exec_bind_of_ok exec_files, h]
  rfl

theorem keeps_ask {path : Text} {question : FileSystem → Except Errno α} : Keeps P (ask path question) := fun m h => by
  rw [exec_ask]
  exact h

end Prebuilt.Action
