import Prebuilt.Files.Aside
import Prebuilt.Proofs.Actions.Running
/-!
What actions are put together from. A property of actions that looking and failing have, that some changes of the files have,
and that stays as actions are put one after the other or tried, is a property of all that is made so: each request is a look
and a change.
-/
set_option autoImplicit false

namespace Prebuilt.Action

/-- The files are changed, or the change is refused. -/
def alter (change : FileSystem → Except Errno FileSystem) (fault : Errno → Error) : Action Unit := do
  match change (← files) with
  | .ok fs => setFiles fs
  | .error e => throw (fault e)

/-- The property is one of all actions that change the files as `R` says, and nothing else. -/
structure Composes (R : FileSystem → FileSystem → Prop) (Q : ∀ α : Type, Action α → Prop) : Prop where
  pure : ∀ {α : Type} (a : α), Q α (pure a)
  throw : ∀ {α : Type} (e : Error), Q α (throw e)
  files : Q FileSystem files
  alter : ∀ {change : FileSystem → Except Errno FileSystem} (fault : Errno → Error),
    (∀ fs fs', change fs = .ok fs' → R fs fs') → Q Unit (alter change fault)
  bind : ∀ {α β : Type} {x : Action α} {f : α → Action β}, Q α x → (∀ a, Q β (f a)) → Q β (x >>= f)
  attempt : ∀ {α : Type} {x : Action α}, Q α x → Q (Except Error α) (attempt x)

namespace Composes

variable {α β : Type} {R : FileSystem → FileSystem → Prop} {Q : ∀ α : Type, Action α → Prop}

/-! ## How such actions are put together -/

theorem branch {c : Prop} [Decidable c] {x y : Action α} (hx : Q α x) (hy : Q α y) : Q α (if c then x else y) := by
  split
  · exact hx
  · exact hy

section

variable (h : Composes R Q)

include h

theorem map {x : Action α} (f : α → β) (hx : Q α x) : Q β (f <$> x) := by
  rw [map_eq_pure_bind]
  exact h.bind hx fun a => h.pure (f a)

theorem ofExcept (r : Except Error α) : Q α (Action.ofExcept r) := by
  cases r with
  | ok a => exact h.pure a
  | error e => exact h.throw e

theorem catching {x : Action α} {handle : Error → Option (Action α)} (hx : Q α x)
    (hhandle : ∀ e action, handle e = some action → Q α action) : Q α (Action.catching x handle) := by
  refine h.bind (h.attempt hx) fun result => ?_
  cases result with
  | ok a => exact h.pure a
  | error e =>
    cases he : handle e with
    | none => simpa only [he] using h.throw e
    | some action => simpa only [he] using hhandle e action he

theorem ensure {x : Action α} {after : Action Unit} (hx : Q α x) (hafter : Q Unit after) : Q α (Action.ensure x after) :=
  h.bind (h.attempt hx) fun result => h.bind hafter fun _ => h.ofExcept result

theorem forM {f : α → Action Unit} {items : List α} (hf : ∀ a, Q Unit (f a)) : Q Unit (items.forM f) := by
  induction items with
  | nil => exact h.pure ()
  | cons a rest ih => exact h.bind (hf a) fun _ => ih

theorem mapM {f : α → Action β} {items : List α} (hf : ∀ a ∈ items, Q β (f a)) : Q (List β) (items.mapM f) := by
  induction items with
  | nil => exact h.pure []
  | cons a rest ih =>
    obtain ⟨ha, hrest⟩ := List.forall_mem_cons.1 hf
    rw [List.mapM_cons]
    exact h.bind ha fun _ => h.bind (ih hrest) fun _ => h.pure _

theorem allM {f : α → Action Bool} {items : List α} (hf : ∀ a, Q Bool (f a)) : Q Bool (items.allM f) := by
  induction items with
  | nil => exact h.pure true
  | cons a rest ih =>
    refine h.bind (hf a) fun r => ?_
    cases r with
    | true => exact ih
    | false => exact h.pure false

theorem findM? {f : α → Action Bool} {items : List α} (hf : ∀ a, Q Bool (f a)) : Q (Option α) (items.findM? f) := by
  induction items with
  | nil => exact h.pure none
  | cons a rest ih =>
    refine h.bind (hf a) fun r => ?_
    cases r with
    | true => exact h.pure (some a)
    | false => exact ih

theorem findSomeM? {f : α → Action (Option β)} {items : List α} (hf : ∀ a, Q (Option β) (f a)) :
    Q (Option β) (items.findSomeM? f) := by
  induction items with
  | nil => exact h.pure none
  | cons a rest ih =>
    refine h.bind (hf a) fun r => ?_
    cases r with
    | some b => exact h.pure (some b)
    | none => exact ih

theorem passExisting {x : Action Unit} (hx : Q Unit x) : Q Unit (Action.catching x Action.passExisting) := by
  refine h.catching hx fun e action he => ?_
  cases e with
  | system fault =>
    rw [Action.passExisting] at he
    split at he
    · cases he
      exact h.pure ()
    · cases he
  | _ => cases he

/-! ## Looking -/

theorem checkPath (path : Text) : Q Unit (Action.checkPath path) := by
  unfold Action.checkPath
  split
  · exact h.throw _
  · exact branch (h.throw _) (h.pure ())

theorem ask (path : Text) (question : FileSystem → Except Errno α) : Q α (Action.ask path question) := by
  refine h.bind (h.checkPath path) fun _ => h.bind h.files fun fs => ?_
  split
  · exact h.pure _
  · exact h.throw _

theorem isDirectory (path : Text) : Q Bool (Action.isDirectory path) := h.bind h.files fun _ => h.pure _

theorem isLink (path : Text) : Q Bool (Action.isLink path) := h.bind h.files fun _ => h.pure _

theorem hasTarget (path : Text) : Q Bool (Action.hasTarget path) := h.bind h.files fun _ => h.pure _

theorem hasEntry (path : Text) : Q Bool (Action.hasEntry path) := h.bind h.files fun _ => h.pure _

theorem isFile (path : Text) : Q Bool (Action.isFile path) := by
  refine h.bind (h.attempt (h.checkPath path)) fun result => ?_
  cases result with
  | error e => exact h.pure false
  | ok _ => exact h.bind h.files fun fs => h.bind (h.ofExcept _) fun _ => h.pure _

theorem readText (path : Text) : Q Text (Action.readText path) := by
  refine h.bind (h.ask path _) fun bytes => ?_
  split
  · exact h.pure _
  · exact h.throw _

/-! ## Changing -/

variable {change : FileSystem → Except Errno FileSystem}

theorem request (path : Text) (hchange : ∀ fs fs', change fs = .ok fs' → R fs fs') : Q Unit (Action.request path change) :=
  h.bind (h.checkPath path) fun _ => h.alter (fun e => .system ⟨e, some path, none⟩) hchange

theorem requestTwo (source target : Text) (hchange : ∀ fs fs', change fs = .ok fs' → R fs fs') :
    Q Unit (Action.requestTwo source target change) :=
  h.bind (h.checkPath source) fun _ => h.bind (h.checkPath target) fun _ =>
    h.alter (fun e => .system ⟨e, some source, some target⟩) hchange

theorem makeSpecial (path : Text) (hchange : ∀ fs fs', fs.makeSpecial path = .ok fs' → R fs fs') :
    Q Unit (Action.makeSpecial path) :=
  h.bind (h.checkPath path) fun _ => h.alter (fun e => .system ⟨e, none, none⟩) hchange

/-- A change that is never refused. -/
theorem setFiles {change : FileSystem → FileSystem} (hchange : ∀ fs, R fs (change fs)) :
    Q Unit (Action.files >>= fun fs => Action.setFiles (change fs)) := by
  have hok (fs fs' : FileSystem) (hok : (.ok (change fs) : Except Errno FileSystem) = .ok fs') : R fs fs' := by
    cases hok
    exact hchange fs
  exact h.alter (fun e => .system ⟨e, none, none⟩) hok

theorem create (path : Text) (hchange : ∀ fs fs', fs.truncate path = .ok fs' → R fs fs') : Q Location (Action.create path) :=
  h.bind (h.request path hchange) fun _ => h.map _ (h.ask path _)

theorem makeDirectories (path : Text) (existing : Bool)
    (hchange : ∀ fs fs' path, fs.makeDirectory path FileSystem.directoryMode = .ok fs' → R fs fs') :
    Q Unit (Action.makeDirectories path existing) := by
  have hlacks (path : Text) : Q Bool (makeDirectories.lacksHead path) := h.bind (h.hasTarget _) fun _ => h.pure _
  have hlast (path : Text) : Q Unit (makeDirectories.makeLast existing path) := by
    refine h.catching (h.request path fun fs fs' hok => hchange fs fs' path hok) fun e action he => ?_
    cases e with
    | system fault =>
      cases he
      exact h.bind (h.isDirectory path) fun _ => branch (h.pure ()) (h.throw _)
    | _ => cases he
  have hgo (fuel : Nat) : ∀ path, Q Unit (makeDirectories.go existing fuel path) := by
    induction fuel with
    | zero => exact fun path => h.bind (hlacks path) fun _ => branch (h.pure ()) (hlast path)
    | succ fuel ih =>
      refine fun path => h.bind (hlacks path) fun _ => branch ?_ (hlast path)
      exact h.bind (h.passExisting (ih _)) fun _ => branch (h.pure ()) (hlast path)
  exact hgo _ path

end

/-! ## Whatever becomes of the files -/

section

variable (h : Composes (fun _ _ => True) Q)

include h

theorem removeTree (path : Text) : Q Unit (Action.removeTree path) :=
  h.bind (h.checkPath path) fun _ => h.setFiles fun _ => trivial

theorem discard (path : Text) : Q Unit (Action.discard path) := by
  refine h.bind (h.checkPath path) fun _ => h.bind h.files fun fs => ?_
  split
  · exact branch (h.pure _) (h.throw _)
  · exact h.bind (h.isLink path) fun _ => branch (h.removeTree path) (h.throw _)

theorem makeAncestry (path : FilePath) : Q Unit (Action.makeAncestry path) := by
  have hmake (path : FilePath) {handle : Error → Option (Action Unit)}
      (hhandle : ∀ e action, handle e = some action → Q Unit action) : Q Unit (makeAncestry.make path handle) := by
    refine h.catching (h.request path.toText fun _ _ _ => trivial) fun e action he => ?_
    cases e with
    | system fault =>
      dsimp only at he
      split at he
      · exact hhandle _ _ he
      · cases he
        exact h.bind h.files fun fs => h.bind (h.ofExcept _) fun _ => branch (h.pure ()) (h.throw _)
    | _ => cases he
  have hgo (fuel : Nat) : ∀ path, Q Unit (makeAncestry.go fuel path) := by
    induction fuel with
    | zero =>
      refine fun path => hmake path fun e action he => ?_
      cases he
      exact h.throw e
    | succ fuel ih =>
      refine fun path => hmake path fun e action he => ?_
      split at he
      · cases he
        exact h.throw e
      · cases he
        exact h.bind (ih _) fun _ => hmake path fun e action he => nomatch he
  exact hgo _ path

theorem makeTemporary (directory start : Text) : Q Text (Action.makeTemporary directory start) := by
  have hgo (fuel : Nat) : ∀ attempt, Q Text (makeTemporary.go directory start fuel attempt) := by
    induction fuel with
    | zero => exact fun _ => h.throw _
    | succ fuel ih =>
      refine fun attempt => h.bind (h.attempt (h.request _ fun _ _ _ => trivial)) fun result => ?_
      cases result with
      | ok _ => exact h.pure _
      | error e =>
        cases e with
        | system fault => exact branch (ih _) (h.throw _)
        | _ => exact h.throw _
  exact hgo _ 0

theorem makeExecutable (path : Text) : Q Unit (Action.makeExecutable path) :=
  h.bind (h.ask path _) fun _ => h.request path fun _ _ _ => trivial

theorem removePath (path : Text) : Q Unit (Action.removePath path) := by
  refine h.bind (h.isDirectory path) fun _ => h.bind (h.isLink path) fun _ => branch (h.removeTree path) ?_
  exact h.bind (h.hasEntry path) fun _ => branch (h.request path fun _ _ _ => trivial) (h.pure ())

theorem removeAside (aside : Option Text) : Q Unit (Action.removeAside aside) := by
  cases aside with
  | none => exact h.pure ()
  | some path => exact h.removePath path

/-! ## What others do -/

theorem intrude (path : Text) (what : Intrusion) : Q Unit (Action.intrude path what) := by
  have htry {β γ : Type} {x : Action β} {y : Action γ} (hx : Q β x) (hy : Q γ y) : Q γ (do let _ ← Action.attempt x; y) :=
    h.bind (h.attempt hx) fun _ => hy
  have hmake (path : Text) : Q Unit (Action.makeDirectories path true) := h.makeDirectories path true fun _ _ _ _ => trivial
  have hfounded {y : Action Unit} (hy : Q Unit y) : Q Unit (do
      if what ≠ .gone then let _ ← Action.attempt (Action.makeDirectories (Path.parent path) true)
      y) := branch (htry (hmake _) hy) hy
  refine hfounded ?_
  cases what with
  | file mode content =>
    have hwrite : Q Unit (Action.writeFile path content) :=
      h.bind (h.create path fun _ _ _ => trivial) fun _ => h.setFiles fun _ => trivial
    exact htry (h.bind hwrite fun _ => h.request path fun _ _ _ => trivial) (h.pure ())
  | directory mode => exact htry (hmake path) (htry (h.request path fun _ _ _ => trivial) (h.pure ()))
  | link target => exact htry (h.request path fun _ _ _ => trivial) (h.pure ())
  | gone =>
    refine h.bind (h.isDirectory path) fun _ => h.bind (h.isLink path) fun _ => ?_
    exact branch (htry (h.removeTree path) (h.pure ())) (htry (h.request path fun _ _ _ => trivial) (h.pure ()))

theorem intrudeAll (changes : Intrusions) : Q Unit (Action.intrudeAll changes) := h.forM fun change => h.intrude change.1 change.2

end

end Composes

/-- The property is also one of giving out a name, of the moment that others may use, and of a warning. -/
structure Conducts (Q : ∀ α : Type, Action α → Prop) : Prop extends Composes (fun _ _ => True) Q where
  freshIdentifier : Q Text freshIdentifier
  race : Q Unit race
  warn : ∀ origin message, Q Unit (log Log.warning origin message)

theorem Conducts.moveAside {Q : ∀ α : Type, Action α → Prop} (h : Conducts Q) (path : Text) : Q (Option Text) (moveAside path) := by
  refine h.bind h.freshIdentifier fun _ => h.bind (h.attempt (h.requestTwo _ _ fun _ _ _ => trivial)) fun result => ?_
  cases result with
  | ok _ => exact h.pure _
  | error e =>
    cases e with
    | system fault => exact Composes.branch (h.pure _) (h.throw _)
    | _ => exact h.throw _

end Prebuilt.Action
