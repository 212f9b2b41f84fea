import Prebuilt.Files.Aside
import Prebuilt.Proofs.Actions.Running
/-!
What actions fail with, and what they leave alone. An action is bounded by a set of errors: it fails with none but these, and
whether it returns or fails, no child process is started, nothing is printed, and the host, the servers and the settings stay as they
are.
-/
set_option autoImplicit false

namespace Prebuilt

/-- Nothing is different but the files, what was recorded, the names that were given out and what others are about to do; no child
process was started, and nothing was written to the standard output. -/
structure Machine.Onward (before m : Machine) : Prop where
  world : m = { before with files := m.files, journal := m.journal, identifiers := m.identifiers, races := m.races }
  started : m.journal.started = before.journal.started
  output : m.journal.output = before.journal.output

namespace Machine

variable {m m₁ m₂ : Machine}

theorem onward_refl (m : Machine) : m.Onward m := ⟨rfl, rfl, rfl⟩

theorem Onward.trans (h : m.Onward m₁) (h' : m₁.Onward m₂) : m.Onward m₂ where
  world := by rw [h'.world, h.world]
  started := by rw [h'.started, h.started]
  output := by rw [h'.output, h.output]

end Machine

namespace Error

/-- Causes that nobody on the way is prepared for: they pass every layer as they are. -/
def isUnforeseen : Error → Bool
  | .request _ => true
  | .client _ _ => true
  | .truncatedStream _ => true
  | .corruptStream => true
  | .missingLink _ => true
  | .undecodable _ => true
  | .unencodable _ => true
  | .unloggable _ => true
  | .value _ => true
  | .symlinkLoop _ => true
  | .encrypted _ => true
  | .notSupported _ => true
  | .tooLarge _ => true
  | .outOfMemory => true
  | .emptyName => true
  | .linkCycle => true
  | _ => false

/-- What carrying out a plan can end with: a failure that is reported, or a cause that nobody is prepared for. -/
def IsOfWork (e : Error) : Prop := e.isDownloadFailure = true ∨ e.isUnforeseen = true

theorem isOfWork_system (fault : SystemError) : IsOfWork (.system fault) := .inl rfl

end Error

/-- Whatever errors the computation ends with are among these. -/
def Yields {α : Type} (E : Error → Prop) (r : Except Error α) : Prop := ∀ e, r = .error e → E e

section

variable {α β : Type} {E : Error → Prop}

theorem yields_ok (a : α) : Yields E (.ok a) := nofun

theorem yields_error {e : Error} (h : E e) : Yields E (.error e : Except Error α) := fun _ he => Except.error.inj he ▸ h

theorem Yields.bind {r : Except Error α} {f : α → Except Error β} (hr : Yields E r) (hf : ∀ a, r = .ok a → Yields E (f a)) :
    Yields E (r >>= f) := by
  cases r with
  | ok a => exact hf a rfl
  | error e => exact fun e' he => hr e' (congrArg _ (Except.error.inj he))

theorem Yields.map {r : Except Error α} (f : α → β) (hr : Yields E r) : Yields E (r.map f) := by
  cases r with
  | ok a => exact yields_ok _
  | error e => exact fun e' he => hr e' (congrArg _ (Except.error.inj he))

theorem Yields.ite {c : Prop} [Decidable c] {r r' : Except Error α} (hr : c → Yields E r) (hr' : ¬ c → Yields E r') :
    Yields E (if c then r else r') := by
  split
  · exact hr ‹_›
  · exact hr' ‹_›

end

namespace Action

variable {α β : Type} {m m' : Machine} {E E' : Error → Prop}

/-- The action fails with these errors alone, and starts no child process. -/
def Bounded (E : Error → Prop) (x : Action α) : Prop := ∀ m, m.Onward (exec x m).2 ∧ Yields E (exec x m).1

theorem bounded_of_exec {x : Action α} {r : Except Error α} (hr : Yields E r) (h : ∀ m, exec x m = (r, m)) : Bounded E x := fun m => by
  rw [h]
  exact ⟨m.onward_refl, hr⟩

theorem bounded_pure (a : α) : Bounded E (pure a : Action α) := bounded_of_exec (yields_ok a) fun _ => rfl

theorem bounded_throw {e : Error} (h : E e) : Bounded E (throw e : Action α) := bounded_of_exec (yields_error h) fun _ => rfl

theorem bounded_ofExcept {r : Except Error α} (h : Yields E r) : Bounded E (ofExcept r) := bounded_of_exec h fun _ => exec_ofExcept _

theorem bounded_get : Bounded E (get : Action Machine) := fun m => ⟨m.onward_refl, yields_ok _⟩

theorem bounded_files : Bounded E files := fun m => ⟨m.onward_refl, yields_ok _⟩

theorem bounded_setFiles (fs : FileSystem) : Bounded E (setFiles fs) := fun _ => ⟨⟨rfl, rfl, rfl⟩, yields_ok _⟩

theorem bounded_record {change : Journal → Journal} (hstarted : ∀ j, (change j).started = j.started)
    (houtput : ∀ j, (change j).output = j.output) : Bounded E (record change) :=
  fun _ => ⟨⟨rfl, hstarted _, houtput _⟩, yields_ok _⟩

theorem Bounded.imp {x : Action α} (hx : Bounded E x) (h : ∀ e, E e → E' e) : Bounded E' x := fun m =>
  ⟨(hx m).1, fun e he => h e ((hx m).2 e he)⟩

theorem Bounded.bind {x : Action α} {f : α → Action β} (hx : Bounded E x) (hf : ∀ a, Bounded E (f a)) : Bounded E (x >>= f) := by
  intro m
  have hm := hx m
  rw [exec_bind]
  rcases hrun : exec x m with ⟨r, m₁⟩
  rw [hrun] at hm
  cases r with
  | ok a => exact ⟨hm.1.trans (hf a m₁).1, (hf a m₁).2⟩
  | error e => exact ⟨hm.1, yields_error (hm.2 e rfl)⟩

theorem Bounded.map {x : Action α} (f : α → β) (hx : Bounded E x) : Bounded E (f <$> x) := fun m => by
  rw [exec_map]
  exact ⟨(hx m).1, (hx m).2.map f⟩

theorem Bounded.attempt {x : Action α} (hx : Bounded E' x) : Bounded E (attempt x) := fun m => ⟨(hx m).1, yields_ok _⟩

/-- What is made of the result of an attempt. -/
theorem Bounded.attempt_bind {x : Action α} {f : Except Error α → Action β} (hx : Bounded E' x) (hok : ∀ a, Bounded E (f (.ok a)))
    (herror : ∀ e, E' e → Bounded E (f (.error e))) : Bounded E (Action.attempt x >>= f) := by
  intro m
  have hm := hx m
  rw [exec_bind_of_ok (exec_attempt x)]
  rcases hrun : exec x m with ⟨r, m₁⟩
  rw [hrun] at hm
  cases r with
  | ok a => exact ⟨hm.1.trans (hok a m₁).1, (hok a m₁).2⟩
  | error e =>
    have he := herror e (hm.2 e rfl) m₁
    exact ⟨hm.1.trans he.1, he.2⟩

theorem Bounded.ensure {x : Action α} {after : Action Unit} (hx : Bounded E x) (hafter : Bounded E after) :
    Bounded E (ensure x after) :=
  hx.attempt_bind (fun a => hafter.bind fun _ => bounded_pure a) fun _ he => hafter.bind fun _ => bounded_throw he

theorem Bounded.catching {x : Action α} {handle : Error → Option (Action α)} (hx : Bounded E' x)
    (hhandle : ∀ e, E' e → (∃ action, handle e = some action ∧ Bounded E action) ∨ handle e = none ∧ E e) :
    Bounded E (catching x handle) := by
  refine hx.attempt_bind bounded_pure fun e he => ?_
  rcases hhandle e he with ⟨action, haction, hbound⟩ | ⟨hnone, he⟩
  · simpa only [haction] using hbound
  · simpa only [hnone] using bounded_throw he

theorem Bounded.ite {c : Prop} [Decidable c] {x y : Action α} (hx : c → Bounded E x) (hy : ¬ c → Bounded E y) :
    Bounded E (if c then x else y) := by
  split
  · exact hx ‹_›
  · exact hy ‹_›

theorem Bounded.forM {f : α → Action Unit} {items : List α} (hf : ∀ a ∈ items, Bounded E (f a)) : Bounded E (items.forM f) := by
  induction items with
  | nil => exact bounded_pure ()
  | cons a rest ih => exact (hf a (by simp)).bind fun _ => ih fun b hb => hf b (by simp [hb])

theorem Bounded.mapM {f : α → Action β} {items : List α} (hf : ∀ a ∈ items, Bounded E (f a)) : Bounded E (items.mapM f) := by
  induction items with
  | nil => exact bounded_pure []
  | cons a rest ih =>
    obtain ⟨ha, hrest⟩ := List.forall_mem_cons.1 hf
    rw [List.mapM_cons]
    exact ha.bind fun _ => (ih hrest).bind fun _ => bounded_pure _

theorem Bounded.allM {f : α → Action Bool} {items : List α} (hf : ∀ a ∈ items, Bounded E (f a)) : Bounded E (items.allM f) := by
  induction items with
  | nil => exact bounded_pure true
  | cons a rest ih =>
    refine (hf a (by simp)).bind fun r => ?_
    cases r with
    | true => exact ih fun b hb => hf b (by simp [hb])
    | false => exact bounded_pure false

theorem Bounded.findM? {f : α → Action Bool} {items : List α} (hf : ∀ a ∈ items, Bounded E (f a)) :
    Bounded E (items.findM? f) := by
  induction items with
  | nil => exact bounded_pure none
  | cons a rest ih =>
    refine (hf a (by simp)).bind fun r => ?_
    cases r with
    | true => exact bounded_pure (some a)
    | false => exact ih fun b hb => hf b (by simp [hb])

theorem Bounded.findSomeM? {f : α → Action (Option β)} {items : List α} (hf : ∀ a ∈ items, Bounded E (f a)) :
    Bounded E (items.findSomeM? f) := by
  induction items with
  | nil => exact bounded_pure none
  | cons a rest ih =>
    refine (hf a (by simp)).bind fun r => ?_
    cases r with
    | some b => exact bounded_pure (some b)
    | none => exact ih fun b hb => hf b (by simp [hb])

/-! ## Requests -/

section

variable (hE : ∀ e, Error.IsOfWork e → E e) {path source target : Text}

include hE

theorem bounded_system (fault : SystemError) : Bounded E (throw (.system fault) : Action α) :=
  bounded_throw (hE _ (Error.isOfWork_system fault))

omit hE in
theorem bounded_log_unloggable (level : Log.Level) (origin : Log.Origin) (message : Text) :
    Bounded (fun e => ∃ fault, e = .unloggable fault) (log level origin message) := by
  have hline (threshold : Log.Level) :
      Yields (fun e => ∃ fault, e = .unloggable fault) (Log.line? threshold level origin message) := by
    refine Yields.ite (fun _ => yields_ok _) fun _ => ?_
    dsimp only
    split
    · exact yields_error ⟨_, rfl⟩
    · exact yields_ok _
  refine bounded_get.bind fun m => (bounded_ofExcept (hline _)).bind fun line => ?_
  cases line with
  | none => exact bounded_pure ()
  | some line =>
    refine Bounded.bind (bounded_record (fun _ => rfl) fun _ => rfl) fun _ => bounded_get.bind fun m => Bounded.ite (fun _ => ?_) fun _ => bounded_pure ()
    exact bounded_record (fun _ => rfl) fun _ => rfl

theorem bounded_log (level : Log.Level) (origin : Log.Origin) (message : Text) : Bounded E (log level origin message) :=
  (bounded_log_unloggable level origin message).imp fun _ ⟨_, he⟩ => hE _ (he ▸ .inr rfl)

omit hE in
theorem bounded_checkPath_unforeseen (path : Text) : Bounded (fun e => e.isUnforeseen = true) (checkPath path) := by
  unfold checkPath
  split
  · exact bounded_throw rfl
  · exact Bounded.ite (fun _ => bounded_throw rfl) fun _ => bounded_pure ()

theorem bounded_checkPath (path : Text) : Bounded E (checkPath path) :=
  (bounded_checkPath_unforeseen path).imp fun e he => hE e (.inr he)

theorem bounded_request (path : Text) (change : FileSystem → Except Errno FileSystem) : Bounded E (request path change) := by
  refine (bounded_checkPath hE path).bind fun _ => bounded_files.bind fun fs => ?_
  split
  · exact bounded_setFiles _
  · exact bounded_system hE _

theorem bounded_requestTwo (source target : Text) (change : FileSystem → Except Errno FileSystem) :
    Bounded E (requestTwo source target change) := by
  refine (bounded_checkPath hE source).bind fun _ => (bounded_checkPath hE target).bind fun _ => bounded_files.bind fun fs => ?_
  split
  · exact bounded_setFiles _
  · exact bounded_system hE _

theorem bounded_ask (path : Text) (question : FileSystem → Except Errno α) : Bounded E (ask path question) := by
  refine (bounded_checkPath hE path).bind fun _ => bounded_files.bind fun fs => ?_
  split
  · exact bounded_pure _
  · exact bounded_system hE _

theorem bounded_makeSpecial (path : Text) : Bounded E (makeSpecial path) := by
  refine (bounded_checkPath hE path).bind fun _ => bounded_files.bind fun fs => ?_
  split
  · exact bounded_setFiles _
  · exact bounded_system hE _

theorem bounded_readText (path : Text) : Bounded E (readText path) := by
  refine (bounded_ask hE path _).bind fun bytes => ?_
  split
  · exact bounded_pure _
  · exact bounded_throw (hE _ (.inr rfl))

theorem bounded_create (path : Text) : Bounded E (create path) :=
  (bounded_request hE path _).bind fun _ => (bounded_ask hE path _).map _

omit hE in
theorem bounded_write (location : Location) (data : Bytes) : Bounded E (write location data) :=
  bounded_files.bind fun _ => bounded_setFiles _

theorem bounded_writeFile (path : Text) (data : Bytes) : Bounded E (writeFile path data) :=
  (bounded_create hE path).bind fun _ => bounded_write _ _

theorem bounded_removeTree (path : Text) : Bounded E (removeTree path) :=
  (bounded_checkPath hE path).bind fun _ => bounded_files.bind fun _ => bounded_setFiles _

theorem yields_node? (fs : FileSystem) (path : Text) : Yields E (fs.node? path) := by
  unfold FileSystem.node?
  split
  · exact yields_ok _
  · exact Yields.ite (fun _ => yields_ok _) fun _ => yields_error (hE _ (Error.isOfWork_system _))

theorem bounded_isFile (path : Text) : Bounded E (isFile path) := by
  refine (bounded_checkPath hE path).attempt_bind (fun _ => ?_) fun _ _ => bounded_pure _
  exact bounded_files.bind fun fs => (bounded_ofExcept (yields_node? hE fs path)).bind fun _ => bounded_pure _

omit hE in
theorem bounded_passExisting {x : Action Unit} (hx : Bounded E x) : Bounded E (catching x passExisting) := by
  refine hx.catching fun e he => ?_
  cases e with
  | system fault =>
    rw [passExisting]
    split
    · exact .inl ⟨_, rfl, bounded_pure ()⟩
    · exact .inr ⟨rfl, he⟩
  | _ => exact .inr ⟨rfl, he⟩

omit hE in
theorem bounded_isDirectory (path : Text) : Bounded E (isDirectory path) := fun m => ⟨m.onward_refl, yields_ok _⟩

omit hE in
theorem bounded_isLink (path : Text) : Bounded E (isLink path) := fun m => ⟨m.onward_refl, yields_ok _⟩

omit hE in
theorem bounded_hasTarget (path : Text) : Bounded E (hasTarget path) := fun m => ⟨m.onward_refl, yields_ok _⟩

omit hE in
theorem bounded_hasEntry (path : Text) : Bounded E (hasEntry path) := fun m => ⟨m.onward_refl, yields_ok _⟩

theorem bounded_discard (path : Text) : Bounded E (discard path) := by
  refine (bounded_checkPath hE path).bind fun _ => bounded_files.bind fun fs => ?_
  split
  · exact Bounded.ite (fun _ => bounded_pure ()) fun _ => bounded_throw (hE _ (Error.isOfWork_system _))
  · exact (bounded_isLink path).bind fun _ =>
      Bounded.ite (fun _ => bounded_removeTree hE path) fun _ => bounded_throw (hE _ (Error.isOfWork_system _))

theorem bounded_makeDirectories (path : Text) (existing : Bool) : Bounded E (makeDirectories path existing) := by
  have hlacks (path : Text) : Bounded E (makeDirectories.lacksHead path) := fun m => ⟨m.onward_refl, yields_ok _⟩
  have hlast (path : Text) : Bounded E (makeDirectories.makeLast existing path) := by
    refine (bounded_request hE path _).catching fun e he => ?_
    cases e with
    | system fault =>
      refine .inl ⟨_, rfl, (bounded_isDirectory path).bind fun _ => Bounded.ite (fun _ => bounded_pure ()) fun _ => ?_⟩
      exact bounded_system hE fault
    | _ => exact .inr ⟨rfl, he⟩
  have hgo (fuel : Nat) : ∀ path, Bounded E (makeDirectories.go existing fuel path) := by
    induction fuel with
    | zero => exact fun path => (hlacks path).bind fun _ => Bounded.ite (fun _ => bounded_pure ()) fun _ => hlast path
    | succ fuel ih =>
      refine fun path => (hlacks path).bind fun _ => Bounded.ite (fun _ => ?_) fun _ => hlast path
      refine (bounded_passExisting (ih _)).bind fun _ => Bounded.ite (fun _ => bounded_pure ()) fun _ => hlast path
  exact hgo _ path

theorem bounded_makeAncestry (path : FilePath) : Bounded E (makeAncestry path) := by
  have hmake (path : FilePath) {handle : Error → Option (Action Unit)}
      (hhandle : ∀ fault, (∃ action, handle (.system fault) = some action ∧ Bounded E action) ∨ handle (.system fault) = none) :
      Bounded E (makeAncestry.make path handle) := by
    refine (bounded_request hE _ _).catching fun e he => ?_
    cases e with
    | system fault =>
      dsimp only
      split
      · exact (hhandle fault).imp_right fun hnone => ⟨hnone, he⟩
      · refine .inl ⟨_, rfl, bounded_files.bind fun fs => (bounded_ofExcept (yields_node? hE fs _)).bind fun _ => ?_⟩
        exact Bounded.ite (fun _ => bounded_pure ()) fun _ => bounded_system hE fault
    | _ => exact .inr ⟨rfl, he⟩
  have hgo (fuel : Nat) : ∀ path, Bounded E (makeAncestry.go fuel path) := by
    induction fuel with
    | zero => exact fun path => hmake path fun fault => .inl ⟨_, rfl, bounded_system hE fault⟩
    | succ fuel ih =>
      refine fun path => hmake path fun fault => .inl ?_
      split
      · exact ⟨_, rfl, bounded_system hE fault⟩
      · exact ⟨_, rfl, (ih _).bind fun _ => hmake path fun _ => .inr rfl⟩
  exact hgo _ path

theorem bounded_makeTemporary (directory start : Text) : Bounded E (makeTemporary directory start) := by
  have hgo (fuel : Nat) : ∀ attempt, Bounded E (makeTemporary.go directory start fuel attempt) := by
    induction fuel with
    | zero => exact fun _ => bounded_system hE _
    | succ fuel ih =>
      refine fun attempt => (bounded_request hE _ _).attempt_bind (fun _ => bounded_pure _) fun e he => ?_
      cases e with
      | system fault => exact Bounded.ite (fun _ => ih _) fun _ => bounded_throw he
      | _ => exact bounded_throw he
  exact hgo _ 0

/-! ## What others do -/

theorem bounded_intrude (path : Text) (what : Intrusion) : Bounded E (intrude path what) := by
  have htry {β γ : Type} {x : Action β} {y : Action γ} (hx : Bounded E x) (hy : Bounded E y) :
      Bounded E (do let _ ← attempt x; y) := hx.attempt_bind (fun _ => hy) fun _ _ => hy
  have hfounded {y : Action Unit} (hy : Bounded E y) : Bounded E (do
      if what ≠ .gone then let _ ← attempt (makeDirectories (Path.parent path) true)
      y) := Bounded.ite (fun _ => htry (bounded_makeDirectories hE _ true) hy) fun _ => hy
  refine hfounded ?_
  cases what with
  | file mode content =>
    exact htry ((bounded_writeFile hE path content).bind fun _ => bounded_request hE path _) (bounded_pure ())
  | directory mode =>
    exact htry (bounded_makeDirectories hE path true) (htry (bounded_request hE path _) (bounded_pure ()))
  | link target => exact htry (bounded_request hE path _) (bounded_pure ())
  | gone =>
    refine (bounded_isDirectory path).bind fun _ => (bounded_isLink path).bind fun _ => ?_
    exact Bounded.ite (fun _ => htry (bounded_removeTree hE path) (bounded_pure ())) fun _ =>
      htry (bounded_request hE path _) (bounded_pure ())

theorem bounded_intrudeAll (changes : Intrusions) : Bounded E (intrudeAll changes) :=
  Bounded.forM fun change _ => bounded_intrude hE change.1 change.2

theorem bounded_race : Bounded E race := by
  refine bounded_get.bind fun m => ?_
  split
  · exact bounded_pure ()
  · exact Bounded.bind (fun m => ⟨⟨rfl, rfl, rfl⟩, yields_ok _⟩) fun _ => bounded_intrudeAll hE _

/-! ## Marking, moving aside and removing -/

theorem bounded_makeExecutable (path : Text) : Bounded E (makeExecutable path) :=
  (bounded_ask hE path _).bind fun _ => bounded_request hE path _

theorem bounded_moveAside (path : Text) : Bounded E (moveAside path) := by
  have hfresh : Bounded E freshIdentifier := fun m => ⟨⟨rfl, rfl, rfl⟩, yields_ok _⟩
  refine hfresh.bind fun _ => (bounded_requestTwo hE _ _ _).attempt_bind (fun _ => bounded_pure _) fun e he => ?_
  cases e with
  | system fault => exact Bounded.ite (fun _ => bounded_pure _) fun _ => bounded_throw he
  | _ => exact bounded_throw he

theorem bounded_removePath (path : Text) : Bounded E (removePath path) := by
  refine (bounded_isDirectory path).bind fun _ => (bounded_isLink path).bind fun _ => ?_
  refine Bounded.ite (fun _ => bounded_removeTree hE path) fun _ => (bounded_hasEntry path).bind fun _ => ?_
  exact Bounded.ite (fun _ => bounded_request hE path _) fun _ => bounded_pure ()

theorem bounded_removeAside (aside : Option Text) : Bounded E (removeAside aside) := by
  cases aside with
  | none => exact bounded_pure ()
  | some path => exact bounded_removePath hE path

end

end Action

end Prebuilt
