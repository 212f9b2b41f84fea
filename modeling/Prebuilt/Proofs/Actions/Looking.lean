import Prebuilt.Proofs.Actions.Running
/-!
Actions that only look. They leave the machine as it is, and what they come to depends on the files alone.
-/
set_option autoImplicit false

namespace Prebuilt.Action

variable {α β : Type} {path : Text}

/-- The machine stays as it is, and nothing but its files matters. -/
structure Looks (x : Action α) : Prop where
  still : ∀ m, (exec x m).2 = m
  same : ∀ {m m'}, m'.files = m.files → (exec x m').1 = (exec x m).1

theorem Looks.exec_eq {x : Action α} (h : Looks x) (m : Machine) : exec x m = ((exec x m).1, m) := Prod.ext rfl (h.still m)

theorem Looks.keeps {P : Machine → Prop} {x : Action α} (h : Looks x) : Keeps P x := fun m hm => (h.still m).symm ▸ hm

theorem looks_of_exec {x : Action α} {r : Except Error α} (h : ∀ m, exec x m = (r, m)) : Looks x :=
  ⟨fun m => by rw [h], fun _ => by rw [h, h]⟩

theorem looks_pure (a : α) : Looks (pure a : Action α) := looks_of_exec fun _ => rfl

theorem looks_throw (e : Error) : Looks (throw e : Action α) := looks_of_exec fun _ => rfl

theorem looks_ofExcept (r : Except Error α) : Looks (ofExcept r) := looks_of_exec fun _ => exec_ofExcept r

theorem looks_files : Looks files := ⟨fun _ => rfl, fun h => congrArg Except.ok h⟩

theorem Looks.bind {x : Action α} {f : α → Action β} (hx : Looks x) (hf : ∀ a, Looks (f a)) : Looks (x >>= f) where
  still m := by
    rw [exec_bind, hx.exec_eq]
    cases (exec x m).1 with
    | ok a => exact (hf a).still m
    | error e => rfl
  same {m m'} h := by
    rw [exec_bind, exec_bind, hx.exec_eq m, hx.exec_eq m', hx.same h]
    cases (exec x m).1 with
    | ok a => exact (hf a).same h
    | error e => rfl

theorem Looks.map {x : Action α} (f : α → β) (hx : Looks x) : Looks (f <$> x) where
  still m := by
    rw [exec_map]
    exact hx.still m
  same h := by rw [exec_map, exec_map, hx.same h]

theorem Looks.attempt {x : Action α} (hx : Looks x) : Looks (attempt x) :=
  ⟨hx.still, fun h => congrArg Except.ok (hx.same h)⟩

theorem Looks.catching {x : Action α} {handle : Error → Option (Action α)} (hx : Looks x)
    (hhandle : ∀ e action, handle e = some action → Looks action) : Looks (catching x handle) := by
  refine hx.attempt.bind fun r => ?_
  cases r with
  | ok a => exact looks_pure a
  | error e =>
    dsimp only
    split
    · exact hhandle e _ ‹_›
    · exact looks_throw e

theorem Looks.ite {c : Prop} [Decidable c] {x y : Action α} (hx : Looks x) (hy : Looks y) : Looks (if c then x else y) := by
  split
  · exact hx
  · exact hy

theorem Looks.allM {f : α → Action Bool} {items : List α} (hf : ∀ a, Looks (f a)) : Looks (items.allM f) := by
  induction items with
  | nil => exact looks_pure true
  | cons a rest ih =>
    refine (hf a).bind fun r => ?_
    cases r with
    | true => exact ih
    | false => exact looks_pure false

theorem looks_checkPath (path : Text) : Looks (checkPath path) := by
  obtain ⟨r, hr⟩ := exec_checkPath path
  exact looks_of_exec hr

theorem looks_ask (path : Text) (question : FileSystem → Except Errno α) : Looks (ask path question) := by
  refine (looks_checkPath path).bind fun _ => looks_files.bind fun fs => ?_
  split
  · exact looks_pure _
  · exact looks_throw _

theorem exec_ask_of_error {m : Machine} {question : FileSystem → Except Errno α} {e : Errno} (hpath : IsSendable path)
    (h : question m.files = .error e) : exec (ask path question) m = (.error (.system ⟨e, some path, none⟩), m) := by
  rw [ask, exec_bind_of_ok (hpath.exec m), exec_bind_of_ok exec_files, h]
  rfl

theorem looks_readText (path : Text) : Looks (readText path) := by
  refine (looks_ask path _).bind fun bytes => ?_
  split
  · exact looks_pure _
  · exact looks_throw _

theorem looks_isFile (path : Text) : Looks (isFile path) := by
  refine (looks_checkPath path).attempt.bind fun r => ?_
  cases r with
  | ok _ => exact looks_files.bind fun fs => (looks_ofExcept _).bind fun _ => looks_pure _
  | error _ => exact looks_pure _

end Prebuilt.Action
