import Prebuilt.Install.Staging
import Prebuilt.Proofs.Archive.Faults
import Prebuilt.Proofs.Http.Faults
/-!
What carrying out a plan can end with. Faults of the transport and of the archive are reported as failed downloads and refused
requests to the system are recorded with the plan; what is left is a short list of causes that no layer is prepared for.
-/
set_option autoImplicit false

namespace Prebuilt

theorem Yields.filterMapM {α β : Type} {E : Error → Prop} {f : α → Except Error (Option β)} {items : List α}
    (hf : ∀ a ∈ items, Yields E (f a)) : Yields E (items.filterMapM f) := by
  induction items with
  | nil => exact yields_ok _
  | cons a rest ih =>
    rw [List.filterMapM_cons]
    refine (hf a (by simp)).bind fun r _ => ?_
    have hrest := ih fun b hb => hf b (by simp [hb])
    cases r with
    | none => exact hrest
    | some b => exact hrest.bind fun _ _ => yields_ok _

namespace Action

/-! ## Downloading -/

theorem bounded_delivered (target : Text) (reply : Reply) : Bounded Error.IsOfRequest (do
    let location ← create target
    match reply.content with
    | none => throw (.transport .badContent)
    | some content =>
      write location content
      refuseBroken reply) := by
  refine (bounded_create (fun _ he => .inl he) target).bind fun location => ?_
  cases reply.content with
  | none => exact bounded_throw (.inr ⟨_, rfl⟩)
  | some content => exact (bounded_write _ _).bind fun _ => bounded_refuseBroken (fun _ he => he) reply

theorem bounded_fetch (client : Client) (url target : Text) : Bounded Error.IsOfRequest (fetch client url target) := by
  refine (bounded_send (fun _ he => he) client .get url).bind fun reply =>
    Bounded.ite (fun _ => ?_) fun _ => bounded_delivered target reply
  exact (bounded_throw (.inl (.inl rfl))).bind fun _ => bounded_delivered target reply

theorem bounded_clientOr {E : Error → Prop} (given : Option Client) (timeout : Json) : Bounded E (clientOr given timeout) := by
  cases given with
  | some client => exact bounded_pure client
  | none => exact Bounded.bind (bounded_record (fun _ => rfl) fun _ => rfl) fun _ => bounded_pure _

variable {E : Error → Prop} (hE : ∀ e, Error.IsOfWork e → E e)

include hE

/-- Faults of the transport are failed downloads from here on. -/
theorem bounded_downloadFile (given : Option Client) (timeout : Json) (url target : Text) :
    Bounded E (downloadFile given timeout url target) := by
  refine (bounded_makeDirectories hE _ true).bind fun _ => (bounded_log hE _ _ _).bind fun _ => ?_
  refine (bounded_clientOr given timeout).bind fun client => (bounded_fetch client url target).catching fun e he => ?_
  rcases he with he | ⟨fault, rfl⟩
  · cases e with
    | transport fault => exact absurd he (by rintro (h | h) <;> cases h)
    | _ => exact .inr ⟨rfl, hE _ he⟩
  · exact .inl ⟨_, rfl, bounded_throw (hE _ (.inl rfl))⟩

theorem bounded_downloadArchive (given : Option Client) (timeout : Json) (url target type : Text) :
    Bounded E (downloadArchive given timeout url target type) := by
  refine bounded_get.bind fun m => (bounded_makeTemporary hE _ _).bind fun directory => ?_
  refine Bounded.ensure ?_ (bounded_discard hE _)
  exact (bounded_downloadFile hE given timeout url _).bind fun _ => (bounded_log hE _ _ _).bind fun _ => bounded_extractArchive hE _ _ _

/-! ## Filling a staging directory -/

theorem yields_searched (fs : FileSystem) (directory : FilePath) (pattern : Text) : Yields E (match fs.status directory.toText true with
    | .ok (location, .directory _) => do
      let directories := fs.directoriesBelow location
      let at_ (below : List Name) : FilePath := ⟨directory.root, directory.parts ++ below⟩
      let found ←
        if (FilePath.ofText pattern).parts.isEmpty || (FilePath.ofText pattern).parts = [("**" : Text)] then pure (directories.map at_)
        else if Glob.hasWildcard pattern then
          pure (directories.flatMap fun below =>
            ((fs.children (location ++ below)).filter (Glob.matchesName pattern)).map fun name => at_ (below ++ [name]))
        else
          directories.filterMapM fun below => do
            let candidate := at_ (below ++ [pattern])
            return if (← fs.node? candidate.toText).isSome then some candidate else none
      return found.mergeSort fun a b => FileSystem.search.le a.parts b.parts
    | .ok _ => return []
    | .error e => if FileSystem.meansAbsent e then return [] else throw (.system ⟨e, some directory.toText, none⟩)) := by
  have hnamed (directories : List (List Name)) (path : List Name → FilePath) : Yields E (directories.filterMapM fun below => do
      return if (← fs.node? (path below).toText).isSome then some (path below) else none) :=
    Yields.filterMapM fun below _ => (yields_node? hE fs _).bind fun _ _ => yields_ok _
  cases fs.status directory.toText true with
  | error e => exact Yields.ite (fun _ => yields_ok _) fun _ => yields_error (hE _ (.inl rfl))
  | ok found =>
    obtain ⟨location, node⟩ := found
    cases node with
    | directory mode =>
      refine Yields.ite (fun _ => yields_ok _) fun _ => Yields.ite (fun _ => yields_ok _) fun _ => ?_
      exact (hnamed _ fun below => ⟨directory.root, directory.parts ++ (below ++ [pattern])⟩).bind fun _ _ => yields_ok _
    | _ => exact yields_ok _

theorem yields_search (fs : FileSystem) (directory : FilePath) (pattern : Text) : Yields E (fs.search directory pattern) :=
  Yields.ite (fun _ => (yields_error (hE _ (.inr rfl))).bind fun _ _ => yields_searched hE fs directory pattern)
    fun _ => yields_searched hE fs directory pattern

theorem bounded_raiseNested (staging : FilePath) (name : Text) : Bounded E (raiseNested staging name) := by
  refine bounded_files.bind fun fs => (bounded_ofExcept (yields_search hE fs staging name)).bind fun candidates => ?_
  refine (Bounded.findM? fun path _ => bounded_isFile hE path.toText).bind fun found => ?_
  cases found with
  | none => exact bounded_pure none
  | some candidate => exact (bounded_requestTwo hE _ _ _).bind fun _ => bounded_pure _

theorem bounded_locateBinary (staging : FilePath) (binary : Text) : Bounded E (locateBinary staging binary) := by
  refine (Bounded.findM? fun name _ => bounded_isFile hE (staging / name).toText).bind fun found => ?_
  cases found with
  | some name => exact bounded_pure _
  | none =>
    refine (Bounded.findSomeM? fun name _ => bounded_raiseNested hE staging name).bind fun raised => ?_
    cases raised with
    | some path => exact bounded_pure path
    | none => exact bounded_throw (hE _ (.inl rfl))

theorem bounded_verifyBinary (staging : FilePath) (url binary : Text) : Bounded E (verifyBinary staging url binary) := by
  refine (Bounded.findM? fun path _ => bounded_isFile hE path.toText).bind fun found => ?_
  cases found with
  | none => exact (bounded_log hE _ _ _).bind fun _ => bounded_pure false
  | some path =>
    refine (bounded_ask hE _ _).bind fun _ => Bounded.ite (fun _ => ?_) fun _ => bounded_pure true
    exact (bounded_log hE _ _ _).bind fun _ => bounded_pure false

end Action

namespace Installation

open Action

variable {E : Error → Prop} (hE : ∀ e, Error.IsOfWork e → E e)

include hE

theorem bounded_writeMarker (staging : FilePath) (url : Text) : Bounded E (writeMarker staging url) := by
  refine (bounded_create hE _).bind fun location => ?_
  split
  · exact bounded_write location _
  · exact bounded_throw (hE _ (.inr rfl))

/-! ## Settling -/

variable (i : Installation)

section

variable (hdestination : Yields E i.destination)

include hdestination

theorem bounded_marker? : Bounded E i.marker? := by
  refine (bounded_ofExcept hdestination).bind fun destination => ((bounded_readText hE _).map some).catching fun e he => ?_
  cases hsystem : e.isSystem with
  | true => exact .inl ⟨_, if_pos rfl, bounded_pure none⟩
  | false => exact .inr ⟨if_neg (by simp), he⟩

theorem bounded_hasBinary (binary : Text) : Bounded E (i.hasBinary binary) := by
  refine (bounded_ofExcept (hdestination.map _)).bind fun path => (bounded_isFile hE _).bind fun there => ?_
  exact Bounded.ite (fun _ => bounded_files.bind fun _ => bounded_pure _) fun _ => bounded_pure false

theorem bounded_isInstalled (dependency : Dependency) : Bounded E (i.isInstalled dependency) := by
  refine (i.bounded_marker? hE hdestination).bind fun marker => ?_
  cases marker with
  | none => exact bounded_pure false
  | some marker =>
    exact Bounded.ite (fun _ => Bounded.allM fun binary _ => i.bounded_hasBinary hE hdestination binary) fun _ => bounded_pure false

theorem bounded_place (plan : Plan) (staging destination : FilePath) : Bounded E (i.place plan staging destination) := by
  refine (bounded_race hE).bind fun _ => (bounded_requestTwo hE _ _ _).attempt_bind (fun _ => bounded_pure _) fun e he => ?_
  have hinstalled : Bounded E (do return if ← i.isInstalled plan.dependency then some false else none) :=
    (i.bounded_isInstalled hE hdestination plan.dependency).bind fun current => by
      cases current <;> exact bounded_pure _
  exact Bounded.ite (fun _ => (bounded_throw he).bind fun _ => hinstalled) fun _ => hinstalled

theorem bounded_settle (plan : Plan) (staging destination : FilePath) (left : Nat) :
    Bounded E (i.settle plan staging destination left) := by
  induction left with
  | zero => exact bounded_throw (hE _ (.inl rfl))
  | succ left ih =>
    have hsettled : Bounded E (i.isSettled plan) :=
      Bounded.ite (fun _ => bounded_pure false) fun _ => i.bounded_isInstalled hE hdestination plan.dependency
    refine hsettled.bind fun settled => Bounded.ite (fun _ => bounded_pure false) fun _ => (bounded_moveAside hE _).bind fun aside => ?_
    refine ((i.bounded_place hE hdestination plan staging destination).ensure (bounded_removeAside hE aside)).bind fun used => ?_
    cases used with
    | some used => exact bounded_pure used
    | none => exact ih

theorem bounded_fill (client : Option Client) (plan : Plan) (staging : FilePath) : Bounded E (i.fill client plan staging) := by
  have hlast : Bounded E (do
      writeMarker staging plan.dependency.url
      i.settle plan staging (FilePath.ofText plan.destination) attempts) :=
    (bounded_writeMarker hE _ _).bind fun _ => i.bounded_settle hE hdestination _ _ _ _
  refine (bounded_downloadArchive hE _ _ _ _ _).bind fun _ => Bounded.bind (Bounded.forM fun binary _ => ?_) fun _ => ?_
  · exact (bounded_locateBinary hE staging binary).bind fun _ => bounded_makeExecutable hE _
  · refine Bounded.bind (Bounded.allM fun binary _ => bounded_verifyBinary hE staging _ binary) fun verified => ?_
    exact Bounded.ite (fun _ => (bounded_throw (hE _ (.inl rfl))).bind fun _ => hlast) fun _ => hlast

/-- A plan that is carried out ends with a failure that is recorded, or with a cause that nobody is prepared for. -/
theorem bounded_perform (client : Option Client) (plan : Plan) : Bounded E (i.perform client plan) := by
  refine (bounded_makeAncestry hE _).bind fun _ => (bounded_makeTemporary hE _ _).bind fun staging => ?_
  refine (i.bounded_fill hE hdestination client plan _).attempt_bind (fun used => ?_) fun e he => ?_
  · cases used with
    | true => exact bounded_pure ()
    | false => exact (bounded_removeTree hE _).bind fun _ => (bounded_pure ()).bind fun _ => bounded_pure ()
  · exact (bounded_removeTree hE _).bind fun _ => (bounded_throw he).bind fun _ => bounded_pure ()

end

end Installation

end Prebuilt
