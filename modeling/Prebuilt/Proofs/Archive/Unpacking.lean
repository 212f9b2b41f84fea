import Prebuilt.Archive.Extract
import Prebuilt.Proofs.Actions.Confined
/-!
Unpacking members whose paths lead inward. Members are unpacked through what earlier ones have made, so their paths have to
stay inward whatever links those leave; and a link that is replaced, or whose target stands for it, has to lie inside.
-/
set_option autoImplicit false

namespace Prebuilt.Tar

open FileSystem Action

variable {α β : Type} {P : Machine → Prop} {before : Machine} {links : Links} {roots : List Location} {base : FileSystem} {path : Text}
  {location : Location}

/-- Whatever is left of the archive, the step maintains the property. -/
def Maintains (P : Machine → Prop) (step : Unpacking α) : Prop := ∀ source, Keeps P (step.run source)

theorem maintains_pure (a : α) : Maintains P (pure a : Unpacking α) := fun _ => keeps_pure _

theorem maintains_throw (e : Error) : Maintains P (throw e : Unpacking α) := fun _ => keeps_throw e

theorem maintains_get : Maintains P (get : Unpacking Source) := fun _ => keeps_pure _

theorem maintains_set (source : Source) : Maintains P (set source : Unpacking Unit) := fun _ => keeps_pure _

theorem maintains_act {action : Action α} (h : Keeps P action) : Maintains P (act action) := fun _ =>
  h.bind fun _ => keeps_pure _

theorem Maintains.bind {x : Unpacking α} {f : α → Unpacking β} (hx : Maintains P x) (hf : ∀ a, Maintains P (f a)) :
    Maintains P (x >>= f) := fun source => (hx source).bind fun r => hf r.1 r.2

theorem Maintains.ite {c : Prop} [Decidable c] {x y : Unpacking α} (hx : c → Maintains P x) (hy : ¬ c → Maintains P y) :
    Maintains P (if c then x else y) := by
  split
  · exact hx ‹_›
  · exact hy ‹_›

theorem Maintains.forM {f : α → Unpacking Unit} {items : List α} (hf : ∀ a ∈ items, Maintains P (f a)) :
    Maintains P (items.forM f) := by
  induction items with
  | nil => exact maintains_pure ()
  | cons a rest ih => exact (hf a (by simp)).bind fun _ => ih fun b hb => hf b (by simp [hb])

theorem Maintains.forIn {f : α → PUnit → Unpacking (ForInStep PUnit)} {items : List α}
    (hf : ∀ a ∈ items, ∀ u, Maintains P (f a u)) (u : PUnit) : Maintains P (forIn items u f) := by
  induction items generalizing u with
  | nil => exact maintains_pure _
  | cons a rest ih =>
    rw [List.forIn_cons]
    refine (hf a (by simp) u).bind fun r => ?_
    cases r with
    | done u => exact maintains_pure _
    | yield u => exact ih (fun b hb => hf b (by simp [hb])) u

theorem Maintains.attempt {step : Unpacking α} (h : Maintains P step) : Maintains P (attempt step) := by
  refine maintains_get.bind fun source => (maintains_act (h source).attempt).bind fun r => ?_
  cases r with
  | ok r => exact (maintains_set _).bind fun _ => maintains_pure _
  | error e => exact maintains_pure _

theorem Maintains.unlessMissing {step : Unpacking Bool} (h : Maintains P step) : Maintains P (unlessMissing step) := by
  refine h.attempt.bind fun r => ?_
  cases r with
  | ok done => exact maintains_pure _
  | error e => cases e <;> first | exact maintains_pure _ | exact maintains_throw _

theorem Maintains.unlessRefused {step instead : Unpacking Bool} (h : Maintains P step) (hinstead : Maintains P instead) :
    Maintains P (unlessRefused step instead) := by
  refine h.attempt.bind fun r => ?_
  cases r with
  | ok done => exact maintains_pure _
  | error e => exact Maintains.ite (fun _ => hinstead) fun _ => maintains_throw _

theorem maintains_ofExcept {r : Except Error α} {f : α → Unpacking β} (hf : ∀ a, r = .ok a → Maintains P (f a)) :
    Maintains P (act (Action.ofExcept r) >>= f) := by
  cases r with
  | error e => exact fun _ _ h => h
  | ok a => exact hf a rfl

section

variable (hbase : Barren roots base)

include hbase

/-! ## Files -/

theorem maintains_copy (hin : Beneath roots location) (position count : Nat) :
    Maintains (before.Holds (Sealed links roots base)) (copy location position count) := by
  induction count using Nat.strongRecOn generalizing position with
  | ind count ih =>
    rw [copy]
    refine Maintains.ite (fun _ => maintains_pure _) fun hcount => ?_
    refine maintains_get.bind fun _ => (maintains_act (keeps_ofExcept _)).bind fun r => ?_
    have hplace : Keeps (before.Holds (Sealed links roots base)) (place location position r.1) :=
      keeps_update hbase hin fun node => by cases node <;> simp [Node.IsLike]
    have hsmaller : count - min pieceSize count < count := by
      simp only [pieceSize]
      omega
    have hrest := (maintains_act hplace).bind fun _ => ih _ hsmaller (position + min pieceSize count)
    exact (maintains_set _).bind fun _ => Maintains.ite (fun _ => (maintains_throw _).bind fun _ => hrest) fun _ => hrest

theorem maintains_create {f : Location → Unpacking β} (h : StaysInward links roots base path)
    (hf : ∀ location, Beneath roots location → Maintains (before.Holds (Sealed links roots base)) (f location)) :
    Maintains (before.Holds (Sealed links roots base)) (act (create path) >>= f) := by
  refine fun source => Keeps.bind_of (maintains_act (keeps_create hbase h) source) fun m r m₁ hm hrun hm₁ => ?_
  obtain ⟨location, m₂, hcreate, hret⟩ := bind_ok.1 hrun
  cases hret
  exact hf location (beneath_of_create hbase h hm hcreate) source m₁ hm₁

theorem maintains_makeFile (m : Member) (h : StaysInward links roots base path) :
    Maintains (before.Holds (Sealed links roots base)) (makeFile m path) := by
  unfold makeFile
  refine maintains_get.bind fun _ => (maintains_act (keeps_ofExcept _)).bind fun _ => (maintains_set _).bind fun _ => ?_
  refine maintains_create hbase h fun location hin => ?_
  cases m.parts with
  | none => exact maintains_copy hbase hin 0 _
  | some parts =>
    refine Maintains.bind (Maintains.forM fun part _ => ?_) fun _ => ?_
    · exact (maintains_act (keeps_ofExcept _)).bind fun _ => maintains_copy hbase hin _ _
    · refine (maintains_act (keeps_ofExcept _)).bind fun size => maintains_act ?_
      exact keeps_update hbase hin fun node => by cases node <;> simp [Node.IsLike]

/-! ## Members -/

omit hbase in
theorem keeps_refuse (fault : Option Error) : Keeps P (refuse fault) := by
  cases fault with
  | none => exact keeps_pure _
  | some e => exact keeps_throw e

omit hbase in
theorem keeps_succeeds {action : Action Unit} (h : Keeps P action) : Keeps P (succeeds action) := by
  refine h.attempt.bind fun r => ?_
  cases r with
  | ok _ => exact keeps_pure _
  | error e => cases e <;> first | exact keeps_pure _ | exact keeps_throw _

theorem keeps_setAttributes (m : Member) (h : StaysInward links roots base path)
    (hinside : m.kind = .symlink → StaysInside links roots base path) :
    Keeps (before.Holds (Sealed links roots base)) (setAttributes m path) := by
  unfold setAttributes
  refine (keeps_refuse _).bind fun _ => (keeps_succeeds (keeps_setOwner hbase h fun hf => hinside ?_)).bind fun _ => ?_
  · simpa using hf
  refine Keeps.ite (fun _ => keeps_pure _) fun _ => Keeps.ite (fun _ => keeps_pure _) fun _ => ?_
  refine (keeps_refuse _).bind fun _ => (keeps_succeeds (keeps_setMode hbase h _)).bind fun _ => ?_
  exact Keeps.ite (fun _ => keeps_pure _) fun _ => (keeps_refuse _).bind fun _ => keeps_pure _

omit hbase in
theorem mem_of_linked {members : List Member} {index i : Nat} {m other : Member}
    (h : linked members index m = .ok (i, other)) : other ∈ members := by
  simp only [linked] at h
  split at h
  · rename_i found _ hfind
    cases h
    have hmem := List.mem_reverse.1 (List.mem_of_find?_eq_some hfind)
    split at hmem
    · exact List.fst_mem_of_mem_zipIdx hmem
    · exact List.fst_mem_of_mem_zipIdx (List.mem_of_mem_take hmem)
  · cases h

def Member.IsLink (m : Member) : Prop := m.kind = .symlink ∨ m.kind = .hardLink

/-- Neither a file nor a directory nor a link. -/
def Kind.IsSpecial (kind : Kind) : Prop := kind = .fifo ∨ kind = .character ∨ kind = .block

/-- Links of the archive have allowed targets, and what hard links stand for lies inside. -/
structure Linkable (links : Links) (roots : List Location) (base : FileSystem) (target : Text) (members : List Member) :
    Prop where
  special : ∀ m ∈ members, m.kind.IsSpecial → links.special
  symlink : ∀ m ∈ members, m.kind = .symlink → links.symbolic m.linkName
  hardLink : ∀ m ∈ members, m.kind = .hardLink → links.hard ∧
    StaysInward links roots base (Path.join target m.linkName) ∧ StaysInside links roots base (Path.join target m.linkName)

theorem maintains_unpackTo {members : List Member} {target : Text} (hlinks : Linkable links roots base target members)
    (current : Nat) (attributes : Bool) (fuel index : Nat) {m : Member} (hm : m ∈ members)
    (h : StaysInward links roots base path)
    (hinside : m.IsLink → StaysInside links roots base (Path.dropEndSlashes path)) :
    Maintains (before.Holds (Sealed links roots base)) (unpackTo members target current attributes fuel index m path) := by
  induction fuel generalizing attributes index m path with
  | zero => exact maintains_throw _
  | succ fuel ih =>
    rw [unpackTo]
    have h := h.dropEndSlashes
    have hslash := Path.endsInSlash_dropEndSlashes path
    generalize Path.dropEndSlashes path = path at h hinside hslash
    have hend (done : Bool) : Maintains (before.Holds (Sealed links roots base))
        (if done && attributes then act (setAttributes m path) else return done) :=
      Maintains.ite (fun _ => maintains_act (keeps_setAttributes hbase m h fun hk => hinside (.inl hk)))
        fun _ => maintains_pure _
    have hdirectory : Maintains (before.Holds (Sealed links roots base))
        (act (Action.catching (Action.makeDirectory path 0o700) Action.passExisting)) :=
      maintains_act ((keeps_makeDirectory h.founded _).catching fun _ _ => keeps_passExisting)
    have hspecial (hk : m.kind.IsSpecial) : Maintains (before.Holds (Sealed links roots base)) (act (Action.makeSpecial path)) :=
      maintains_act (keeps_makeSpecial (hlinks.special m hm hk) h)
    -- The member that stands for a link is unpacked to the same path, which lies inside.
    have hinPlace (hlink : m.IsLink) : Maintains (before.Holds (Sealed links roots base))
        (act (Action.ofExcept (linked members index m)) >>= fun found =>
          unpackTo members target current true fuel found.1 found.2 path) := by
      refine maintains_ofExcept fun found hfound => ih true found.1 (mem_of_linked hfound) h fun _ => ?_
      rw [dropEndSlashes_of_not_endsInSlash hslash]
      exact hinside hlink
    have habove {step : Unpacking Bool} (hstep : Maintains (before.Holds (Sealed links roots base)) step) :
        Maintains (before.Holds (Sealed links roots base)) (do
          let there ← act (Action.hasTarget (Path.parent path))
          if !(Path.parent path).isEmpty && !there then
            act (makeDirectories (Path.parent path) false)
            step
          else step) := by
      refine (maintains_act (keeps_of_exec fun _ => rfl)).bind fun there => ?_
      refine Maintains.ite (fun hc => ?_) fun _ => hstep
      simp only [Bool.and_eq_true, Bool.not_eq_true', List.isEmpty_eq_false_iff] at hc
      exact (maintains_act (keeps_makeDirectories (h.founded.parent hc.1) false)).bind fun _ => hstep
    cases hk : m.kind with
    | file => exact habove ((maintains_makeFile hbase m h).bind fun _ => (maintains_pure _).bind hend)
    | directory => exact habove (hdirectory.bind fun _ => (maintains_pure _).bind hend)
    | fifo | character | block =>
      exact habove ((hspecial (by simp [Kind.IsSpecial, hk])).bind fun _ => (maintains_pure _).bind hend)
    | symlink =>
      have hlink : m.IsLink := .inl hk
      have hmake : Keeps (before.Holds (Sealed links roots base))
          (Action.requestTwo m.linkName path (·.makeLink m.linkName path)) := keeps_makeLink h (hlinks.symlink m hm hk)
      refine habove (Maintains.bind (Maintains.unlessRefused ?_ (hinPlace hlink).unlessMissing) hend)
      refine (maintains_act (keeps_files.bind fun fs => ?_)).bind fun _ => maintains_pure _
      exact Keeps.ite (fun _ => (keeps_unlink (hinside hlink) hslash).bind fun _ => hmake) fun _ => hmake
    | hardLink =>
      have hlink : m.IsLink := .inr hk
      obtain ⟨hhard, hsource, hsourceInside⟩ := hlinks.hardLink m hm hk
      have hinstead := (hinPlace hlink).unlessMissing
      refine habove (Maintains.ite (fun _ => hinstead.bind hend) fun _ => (Maintains.unlessRefused ?_ hinstead).bind hend)
      refine (maintains_act (keeps_of_exec fun _ => rfl)).bind fun _ => Maintains.ite (fun _ => ?_) fun _ => hinPlace hlink
      exact (maintains_act (keeps_addName hhard hsource hsourceInside h)).bind fun _ => maintains_pure _

theorem maintains_unpackAll {members : List Member} {target : Text} (hlinks : Linkable links roots base target members)
    (hmembers : ∀ m ∈ members, StaysInward links roots base (Path.join target m.name) ∧
      (m.IsLink → StaysInside links roots base (Path.dropEndSlashes (Path.join target m.name)))) :
    Maintains (before.Holds (Sealed links roots base)) (unpackAll members target) := by
  unfold unpackAll
  refine Maintains.bind (Maintains.forIn (fun r hr u => ?_) _) fun _ => Maintains.bind (Maintains.forIn (fun m hm u => ?_) _)
    fun _ => maintains_pure _
  · have hr := List.fst_mem_of_mem_zipIdx hr
    obtain ⟨hin, hinside⟩ := hmembers r.1 hr
    exact (maintains_unpackTo hbase hlinks r.2 _ _ r.2 hr hin hinside).bind fun _ => maintains_pure _
  · rw [List.mem_reverse, List.mem_mergeSort, List.mem_filter] at hm
    obtain ⟨hin, -⟩ := hmembers m hm.1
    refine (maintains_act ?_).bind fun _ => maintains_pure _
    refine (keeps_refuse _).bind fun _ => (keeps_succeeds (keeps_setOwner hbase hin (by simp))).bind fun _ => ?_
    refine Keeps.ite (fun _ => ?_) fun _ => keeps_pure _
    refine (keeps_refuse _).bind fun _ => (keeps_refuse _).bind fun _ => ?_
    exact (keeps_succeeds (keeps_setMode hbase hin _)).bind fun _ => keeps_pure _

end

end Prebuilt.Tar
