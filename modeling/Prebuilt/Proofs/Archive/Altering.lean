import Prebuilt.Archive.Extract
import Prebuilt.Proofs.Actions.Confined
import Prebuilt.Proofs.Actions.Offline
import Prebuilt.Proofs.Files.Altering
/-!
What unpacking an archive is put together from, whatever the archive holds: it looks, and it alters the files one step at a time
by adding, changing and unlinking. So it asks no server anything, and no directory is lost by it.
-/
set_option autoImplicit false

namespace Prebuilt

open Action FileSystem

variable {α β : Type} {R : FileSystem → FileSystem → Prop} {Q : ∀ α : Type, Action α → Prop} {before : Machine} {base : FileSystem}

/-! ## The check of names -/

theorem Action.Composes.resolve (h : Composes R Q) (path : FilePath) : Q FilePath (resolve path) := by
  refine h.bind (h.checkPath _) fun _ => h.bind h.files fun fs => ?_
  dsimp only
  split
  · exact Composes.branch (h.throw _) (h.pure _)
  · exact h.pure _

theorem Action.Composes.checkMembers (h : Composes R Q) (target : Text) (names : List Text) : Q Unit (checkMembers target names) :=
  h.bind (h.resolve _) fun _ => h.forM fun _ => h.bind (h.resolve _) fun _ => Composes.branch (h.throw _) (h.pure ())

namespace Tar

/-- Whatever is left of the archive, the step has the property. -/
def Consists (Q : ∀ α : Type, Action α → Prop) (step : Unpacking α) : Prop := ∀ source, Q (α × Source) (step.run source)

namespace Consists

theorem branch {c : Prop} [Decidable c] {x y : Unpacking α} (hx : Consists Q x) (hy : Consists Q y) :
    Consists Q (if c then x else y) := by
  split
  · exact hx
  · exact hy

variable (h : Composes R Q)

include h

theorem pure (a : α) : Consists Q (pure a : Unpacking α) := fun _ => h.pure _

theorem throw (e : Error) : Consists Q (throw e : Unpacking α) := fun _ => h.throw e

theorem get : Consists Q (get : Unpacking Source) := fun _ => h.pure _

theorem set (source : Source) : Consists Q (set source : Unpacking Unit) := fun _ => h.pure _

theorem act {action : Action α} (haction : Q α action) : Consists Q (act action) := fun _ => h.bind haction fun _ => h.pure _

theorem bind {x : Unpacking α} {f : α → Unpacking β} (hx : Consists Q x) (hf : ∀ a, Consists Q (f a)) : Consists Q (x >>= f) :=
  fun source => h.bind (hx source) fun r => hf r.1 r.2

theorem forM {f : α → Unpacking Unit} {items : List α} (hf : ∀ a, Consists Q (f a)) : Consists Q (items.forM f) := by
  induction items with
  | nil => exact pure h ()
  | cons a rest ih => exact bind h (hf a) fun _ => ih

theorem forIn {f : α → PUnit → Unpacking (ForInStep PUnit)} (items : List α) (hf : ∀ a u, Consists Q (f a u)) (u : PUnit) :
    Consists Q (forIn items u f) := by
  induction items generalizing u with
  | nil => exact pure h _
  | cons a rest ih =>
    rw [List.forIn_cons]
    refine bind h (hf a u) fun r => ?_
    cases r with
    | done u => exact pure h _
    | yield u => exact ih u

theorem attempt {step : Unpacking α} (hstep : Consists Q step) : Consists Q (attempt step) := by
  refine bind h (get h) fun source => bind h (act h (h.attempt (hstep source))) fun r => ?_
  cases r with
  | ok r => exact bind h (set h _) fun _ => pure h _
  | error e => exact pure h _

theorem unlessMissing {step : Unpacking Bool} (hstep : Consists Q step) : Consists Q (unlessMissing step) := by
  refine bind h (attempt h hstep) fun result => ?_
  cases result with
  | ok done => exact pure h done
  | error e => cases e <;> first | exact pure h _ | exact throw h _

theorem unlessRefused {step instead : Unpacking Bool} (hstep : Consists Q step) (hinstead : Consists Q instead) :
    Consists Q (unlessRefused step instead) := by
  refine bind h (attempt h hstep) fun result => ?_
  cases result with
  | ok done => exact pure h done
  | error e => exact branch hinstead (throw h e)

end Consists

end Tar

/-! ## Members -/

section

variable (h : Composes R Q) (hR : ∀ fs fs', fs.Alters fs' → R fs fs')

include h hR

theorem Action.Composes.update (location : Location) {change : Node → Node} (hchange : Node.Mild change) :
    Q Unit (Action.files >>= fun fs => Action.setFiles (fs.update location change)) := h.setFiles fun _ => hR _ _ (.change hchange)

theorem Action.Composes.write (location : Location) (data : Bytes) : Q Unit (write location data) :=
  h.update hR location fun node => by cases node <;> simp [Node.IsLike]

theorem Action.Composes.writeFile (path : Text) (data : Bytes) : Q Unit (writeFile path data) :=
  h.bind (h.create path fun fs fs' hok => hR fs fs' (alters_of_truncate hok)) fun _ => h.write hR _ _

theorem Action.Composes.makeAbove (path : Text) : Q Unit (Action.makeDirectories path false) :=
  h.makeDirectories path false fun fs fs' _ hok => hR fs fs' (alters_of_makeDirectory hok)

namespace Tar

theorem consists_copy (location : Location) (position count : Nat) : Consists Q (copy location position count) := by
  induction count using Nat.strongRecOn generalizing position with
  | ind count ih =>
    rw [copy]
    by_cases hcount : count = 0
    · rw [if_pos hcount]
      exact .pure h ()
    · have hsmaller : count - min pieceSize count < count := by
        simp only [pieceSize]
        omega
      have hplace (data : Bytes) : Q Unit (place location position data) :=
        h.update hR location fun node => by cases node <;> simp [Node.IsLike]
      have hrest (data : Bytes) := Consists.bind h (.act h (hplace data)) fun _ => ih _ hsmaller (position + min pieceSize count)
      rw [if_neg hcount]
      refine .bind h (.get h) fun source => .bind h (.act h (h.ofExcept _)) fun r => .bind h (.set h _) fun _ => ?_
      exact .branch (.bind h (.throw h _) fun _ => hrest _) (hrest _)

theorem consists_makeFile (m : Member) (path : Text) : Consists Q (makeFile m path) := by
  have hcreate : Q Location (create path) := h.create path fun fs fs' hok => hR fs fs' (alters_of_truncate hok)
  have hresize (location : Location) (size : Nat) : Q Unit (resize location size) :=
    h.update hR location fun node => by cases node <;> simp [Node.IsLike]
  refine .bind h (.get h) fun source => .bind h (.act h (h.ofExcept _)) fun _ => ?_
  refine .bind h (.set h _) fun _ => .bind h (.act h hcreate) fun location => ?_
  cases m.parts with
  | none => exact consists_copy h hR _ _ _
  | some parts =>
    refine .bind h (.forM h fun part => .bind h (.act h (h.ofExcept _)) fun _ => consists_copy h hR _ _ _) fun _ => ?_
    exact .bind h (.act h (h.ofExcept _)) fun _ => .act h (hresize location _)

omit hR in
theorem composes_refuse (fault : Option Error) : Q Unit (refuse fault) := by
  cases fault with
  | none => exact h.pure ()
  | some e => exact h.throw e

omit hR in
theorem composes_succeeds {action : Action Unit} (haction : Q Unit action) : Q Bool (succeeds action) := by
  refine h.bind (h.attempt haction) fun result => ?_
  cases result with
  | ok _ => exact h.pure true
  | error e => cases e <;> first | exact h.pure _ | exact h.throw _

theorem composes_setOwner (path : Text) (followLast : Bool) : Q Bool (succeeds (setOwner path followLast)) :=
  composes_succeeds h (h.request path fun fs fs' hok => hR fs fs' (alters_of_setOwner hok))

theorem composes_setMode (path : Text) (mode : Nat) : Q Bool (succeeds (setMode path mode)) :=
  composes_succeeds h (h.request path fun fs fs' hok => hR fs fs' (alters_of_setMode hok))

theorem composes_setAttributes (m : Member) (path : Text) : Q Bool (setAttributes m path) := by
  refine h.bind (composes_refuse h _) fun _ => h.bind (composes_setOwner h hR path _) fun _ => ?_
  refine Composes.branch (h.pure _) (Composes.branch (h.pure _) ?_)
  refine h.bind (composes_refuse h _) fun _ => h.bind (composes_setMode h hR path _) fun _ => ?_
  exact Composes.branch (h.pure _) (h.bind (composes_refuse h _) fun _ => h.pure _)

/-- The induction is on how many links may still stand for other members. -/
theorem consists_unpackTo (members : List Member) (target : Text) (current : Nat) (attributes : Bool) (fuel index : Nat)
    (m : Member) (path : Text) : Consists Q (unpackTo members target current attributes fuel index m path) := by
  induction fuel generalizing attributes index m path with
  | zero => exact .throw h _
  | succ fuel ih =>
    rw [unpackTo]
    generalize Path.dropEndSlashes path = path
    have hend (done : Bool) : Consists Q (if done && attributes then act (setAttributes m path) else return done) :=
      .branch (.act h (composes_setAttributes h hR m path)) (.pure h _)
    have hinPlace : Consists Q (act (Action.ofExcept (linked members index m)) >>= fun found =>
        unpackTo members target current true fuel found.1 found.2 path) :=
      .bind h (.act h (h.ofExcept _)) fun _ => ih _ _ _ _
    have hinstead := Consists.unlessMissing h hinPlace
    have habove {step : Unpacking Bool} (hstep : Consists Q step) : Consists Q (do
          let there ← act (Action.hasTarget (Path.parent path))
          if !(Path.parent path).isEmpty && !there then
            act (makeDirectories (Path.parent path) false)
            step
          else step) :=
      .bind h (.act h (h.hasTarget _)) fun _ => .branch (.bind h (.act h (h.makeAbove hR _)) fun _ => hstep) hstep
    cases hk : m.kind with
    | file => exact habove (.bind h (consists_makeFile h hR m path) fun _ => .bind h (.pure h _) hend)
    | directory =>
      have hmake : Q Unit (Action.request path (·.makeDirectory path 0o700)) :=
        h.request path fun fs fs' hok => hR fs fs' (alters_of_makeDirectory hok)
      exact habove (.bind h (.act h (h.passExisting hmake)) fun _ => .bind h (.pure h _) hend)
    | fifo | character | block =>
      have hmake := h.makeSpecial path fun fs fs' hok => hR fs fs' (alters_of_makeSpecial hok)
      exact habove (.bind h (.act h hmake) fun _ => .bind h (.pure h _) hend)
    | symlink =>
      have hmake : Q Unit (Action.requestTwo m.linkName path (·.makeLink m.linkName path)) :=
        h.requestTwo m.linkName path fun fs fs' hok => hR fs fs' (alters_of_makeLink hok)
      have hunlink : Q Unit (Action.request path (·.unlink path)) :=
        h.request path fun fs fs' hok => hR fs fs' (alters_of_unlink hok)
      refine habove (.bind h (.unlessRefused h ?_ hinstead) hend)
      refine .bind h (.act h (h.bind h.files fun fs => ?_)) fun _ => .pure h _
      exact Composes.branch (h.bind hunlink fun _ => hmake) hmake
    | hardLink =>
      have hmake : Q Unit (Action.requestTwo (Path.join target m.linkName) path (·.addName (Path.join target m.linkName) path)) :=
        h.requestTwo (Path.join target m.linkName) path fun fs fs' hok => hR fs fs' (alters_of_addName hok)
      refine habove (.branch (.bind h hinstead hend) (.bind h (.unlessRefused h ?_ hinstead) hend))
      refine .bind h (.act h (h.hasTarget _)) fun _ => .branch ?_ hinPlace
      exact .bind h (.act h hmake) fun _ => .pure h _

theorem consists_unpackAll (members : List Member) (target : Text) : Consists Q (unpackAll members target) := by
  refine .bind h (.forIn h _ (fun r u => ?_) _) fun _ => .bind h (.forIn h _ (fun m u => ?_) _) fun _ => .pure h _
  · exact .bind h (consists_unpackTo h hR _ _ _ _ _ _ _ _) fun _ => .pure h _
  · refine .bind h (.act h ?_) fun _ => .pure h _
    refine h.bind (composes_refuse h _) fun _ => h.bind (composes_setOwner h hR _ _) fun _ => Composes.branch ?_ (h.pure _)
    refine h.bind (composes_refuse h _) fun _ => h.bind (composes_refuse h _) fun _ => ?_
    exact h.bind (composes_setMode h hR _ _) fun _ => h.pure _

theorem composes_extract (compressed : Bool) (archive target : Text) : Q Unit (extract compressed archive target) := by
  refine h.bind (h.ask archive _) fun content => h.bind (h.ofExcept _) fun r => ?_
  exact h.bind (h.checkMembers _ _) fun _ => h.bind (consists_unpackAll h hR _ _ _) fun _ => h.pure _

end Tar

namespace Zip

theorem composes_writeMember (content : Bytes) (path : Text) (e : Entry) : Q Unit (do
    let member ← Action.ofExcept (openEntry content e)
    Action.writeFile path member.data
    match member.fault with
    | some fault => throw fault
    | none => return ()) := by
  refine h.bind (h.ofExcept _) fun member => h.bind (h.writeFile hR path member.data) fun _ => ?_
  cases member.fault with
  | some fault => exact h.throw fault
  | none => exact h.pure ()

theorem composes_unpack (content : Bytes) (target : Text) (e : Entry) : Q Unit (unpack content target e) := by
  have hmake (path : Text) : Q Unit (Action.request path (·.makeDirectory path directoryMode)) :=
    h.request path fun fs fs' hok => hR fs fs' (alters_of_makeDirectory hok)
  have hkind (path : Text) := Composes.branch (c := e.isDirectory = true)
    (h.bind (h.isDirectory path) fun there => Composes.branch (c := (!there) = true) (hmake path) (h.pure ()))
    (composes_writeMember h hR content path e)
  have hrest (path : Text) := Composes.branch (c := e.name.isEmpty = true)
    (h.bind (h.throw Error.emptyName) fun (_ : Unit) => hkind path) (hkind path)
  refine h.bind (h.hasTarget _) fun _ => Composes.branch ?_ (hrest _)
  exact h.bind (h.makeAbove hR _) fun _ => hrest _

theorem composes_extract (archive target : Text) : Q Unit (extract archive target) := by
  refine h.bind (h.ask archive _) fun content => h.bind (h.ofExcept _) fun entries => ?_
  refine h.bind (h.checkMembers _ _) fun _ => h.forM fun name => ?_
  split
  · exact composes_unpack h hR _ _ _
  · exact h.pure ()

end Zip

/-- Unpacking is made of looking and of altering the files. -/
theorem Action.Composes.extractArchive (archive target type : Text) : Q Unit (extractArchive archive target type) := by
  have hmake := h.makeDirectories target true fun fs fs' _ hok => hR fs fs' (alters_of_makeDirectory hok)
  have hunpack : Q Unit (unpackArchive archive target type) :=
    Composes.branch (Tar.composes_extract h hR _ _ _) (Composes.branch (Tar.composes_extract h hR _ _ _)
      (Composes.branch (Zip.composes_extract h hR _ _) (h.throw _)))
  refine h.bind hmake fun _ => h.catching hunpack fun e action he => ?_
  split at he
  · cases he
    exact h.throw _
  · cases he

end

namespace Action

theorem offline_extractArchive (archive target type : Text) : Offline (extractArchive archive target type) :=
  composes_offline.extractArchive (fun _ _ _ => trivial) archive target type

/-- A property of the files that every alteration keeps is kept by all that is put together from alterations. -/
theorem composes_keeps {property : FileSystem → Prop} (hproperty : ∀ fs fs', R fs fs' → property fs → property fs') :
    Composes R fun _ x => Keeps (before.Holds property) x where
  pure := keeps_pure
  throw := keeps_throw
  files := keeps_files
  alter {change} fault hchange := by
    refine keeps_files.bind_of fun m fs m₁ hm hrun hm₁ => ?_
    cases hrun
    cases hok : change m.files with
    | ok fs' => exact hm₁.setFiles (hproperty _ _ (hchange _ _ hok) hm₁.files)
    | error e => exact hm₁
  bind := Keeps.bind
  attempt := Keeps.attempt

/-- Whatever the archive holds, unpacking it alters the files step by step and nothing else. -/
theorem keeps_extractArchive (archive target type : Text) :
    Keeps (before.Holds (Relation.ReflTransGen Alters base)) (extractArchive archive target type) := by
  refine (composes_keeps (R := Alters) fun fs fs' hstep h => ?_).extractArchive (fun _ _ hstep => hstep) archive target type
  exact h.tail hstep

end Action

end Prebuilt
