import Prebuilt.Proofs.Actions.Discreet
import Prebuilt.Proofs.Files.Writable
import Prebuilt.Proofs.Install.Endings
import Prebuilt.Proofs.Install.Trails
/-!
The course of an installation does not depend on what is shown of it. All that it says in passing is made of the platform, the
address, the destination and names that were given out, so if these can be written down it says so without failing.
-/
set_option autoImplicit false

namespace Prebuilt

open Action

/-! ## Requests to a server -/

namespace Client

theorem discreet_exchange (client : Client) (method : Method) (url : Url) : Discreet (client.exchange method url) := by
  refine (composes_discreet.ofExcept _).bind fun _ => Discreet.bind (discreet_record fun _ => rfl) fun _ => ?_
  refine discreet_get_bind (fun m _ _ => composes_discreet.answering method (m.server.answer url.render)) fun m m' h => ?_
  rw [h.same (·.server) fun _ => rfl]

theorem discreet_follow (client : Client) (method : Method) (left : Nat) (url : Url) : Discreet (client.follow method left url) := by
  induction left generalizing url with
  | zero =>
    unfold follow
    refine (client.discreet_exchange method url).bind fun reply => ?_
    cases reply.location with
    | none => exact composes_discreet.pure reply
    | some location =>
      refine (composes_discreet.ofExcept _).bind fun next => Discreet.ite (composes_discreet.pure reply) ?_
      exact (composes_discreet.readContent reply).bind fun _ => composes_discreet.throw _
  | succ left ih =>
    unfold follow
    refine (client.discreet_exchange method url).bind fun reply => ?_
    cases reply.location with
    | none => exact composes_discreet.pure reply
    | some location =>
      refine (composes_discreet.ofExcept _).bind fun next => Discreet.ite (composes_discreet.pure reply) ?_
      exact (composes_discreet.readContent reply).bind fun _ => ih next

theorem discreet_send (client : Client) (method : Method) (address : Text) : Discreet (client.send method address) :=
  (composes_discreet.ofExcept _).bind fun url => client.discreet_follow method redirectLimit url

theorem discreet_headStatus (client : Client) (address : Text) : Discreet (client.headStatus address) :=
  (client.discreet_send .head address).bind fun reply => (composes_discreet.readContent reply).bind fun _ => composes_discreet.pure _

theorem discreet_opened (timeout : Json) : Discreet (opened timeout) :=
  Discreet.bind (discreet_record fun _ => rfl) fun _ => composes_discreet.pure _

end Client

/-! ## Downloads -/

namespace Action

variable {given : Option Client} {timeout : Json} {url target type directory start path : Text} {m m' : Machine}

/-- A name that is given out can be written down if the names that it is made of can. -/
theorem makeTemporary_writable (hdirectory : directory.isString = true) (hstart : start.isString = true)
    (h : exec (makeTemporary directory start) m = (.ok path, m')) : path.isString = true := by
  have hgo (fuel : Nat) : ∀ attempt m, exec (makeTemporary.go directory start fuel attempt) m = (.ok path, m') → path.isString = true := by
    induction fuel with
    | zero => exact fun attempt m h => nomatch h
    | succ fuel ih =>
      intro attempt m h
      rw [makeTemporary.go, exec_bind_of_ok (exec_attempt _)] at h
      cases hmake : (exec (makeDirectory (Path.join directory (start ++ temporaryEnding attempt)) 0o700) m).1 with
      | ok _ =>
        rw [hmake] at h
        cases h
        refine Path.isString_join hdirectory ?_
        rw [Text.isString_append, hstart, Text.isString_temporaryEnding, Bool.and_self]
      | error e =>
        rw [hmake] at h
        cases e with
        | system fault =>
          dsimp only at h
          split at h
          · exact ih _ _ h
          · cases h
        | _ => cases h
  exact hgo _ 0 m h

theorem discreet_clientOr (given : Option Client) (timeout : Json) : Discreet (clientOr given timeout) := by
  cases given with
  | some client => exact composes_discreet.pure client
  | none => exact Client.discreet_opened timeout

theorem discreet_fetch (client : Client) (url target : Text) : Discreet (fetch client url target) := by
  have hstore (reply : Reply) : Discreet (store reply target) := composes_discreet.store reply target
  exact (client.discreet_send .get url).bind fun reply =>
    Discreet.ite ((composes_discreet.throw _).bind fun _ => hstore reply) (hstore reply)

theorem discreet_downloadFile (hurl : url.isString = true) (htarget : target.isString = true) :
    Discreet (downloadFile given timeout url target) := by
  have hmessage : (Text.join ["Downloading file from ", url, " to ", target]).isString = true := by
    simp only [Text.isString_join, List.all_cons, List.all_nil, hurl, htarget]
    rfl
  refine (composes_discreet.makeDirectories _ _ fun _ _ _ _ => trivial).bind fun _ => (discreet_log _ (.inr hmessage)).bind fun _ => ?_
  refine (discreet_clientOr given timeout).bind fun client => composes_discreet.catching (discreet_fetch client url target) ?_
  intro e action he
  cases e with
  | transport fault =>
    cases he
    exact composes_discreet.throw _
  | _ => cases he

theorem discreet_downloadArchive (hurl : url.isString = true) (htarget : target.isString = true) :
    Discreet (downloadArchive given timeout url target type) := by
  refine discreet_get_bind (fun m _ h => ?_) fun m m' h => by rw [h.same (·.temporary) fun _ => rfl]
  refine (composes_discreet.makeTemporary _ _).bind_of fun directory _ _ _ hrun => ?_
  have hdirectory := makeTemporary_writable h.writable.temporary rfl hrun
  have harchive : (Path.join directory (archiveName url)).isString = true := by
    refine Path.isString_join hdirectory ?_
    simp only [archiveName]
    split
    · rfl
    · exact Text.isString_afterLast _ hurl
  have hmessage : (Text.join ["Extracting ", Path.join directory (archiveName url), " to ", target]).isString = true := by
    simp only [Text.isString_join, List.all_cons, List.all_nil, harchive, htarget]
    rfl
  refine composes_discreet.ensure ?_ (composes_discreet.discard directory)
  exact (discreet_downloadFile hurl harchive).bind fun _ => (discreet_log _ (.inr hmessage)).bind fun _ =>
    composes_discreet.extractArchive (fun _ _ _ => trivial) _ _ _

end Action

/-! ## Carrying out a plan -/

/-- The platform, the address and the destination of the plan can be written down. -/
structure Plan.IsWritable (plan : Plan) : Prop where
  key : plan.key.isString = true
  url : plan.dependency.url.isString = true
  destination : plan.destination.isString = true

namespace Installation

theorem discreet_perform (i : Installation) (client : Option Client) {plan : Plan} (h : plan.IsWritable) :
    Discreet (i.perform client plan) := by
  have hdestination := FilePath.isWritable_ofText h.destination
  have hstart : (Text.join [".", (FilePath.ofText plan.destination).name, "-"]).isString = true := by
    simp only [Text.isString_join, List.all_cons, List.all_nil, hdestination.isString_name]
    rfl
  refine (composes_discreet.makeAncestry _).bind fun _ => (composes_discreet.makeTemporary _ _).bind_of fun staging _ _ _ hrun => ?_
  have hstaging := FilePath.isWritable_ofText (makeTemporary_writable hdestination.parent.isString_toText hstart hrun)
  have hfill : Discreet (i.fill client plan (FilePath.ofText staging)) :=
    (discreet_downloadArchive h.url hstaging.isString_toText).bind fun _ => i.conducts_takeOver conducts_discreet plan _
  refine hfill.attempt.bind fun result => ?_
  have hremove : Discreet (do
      removeTree (FilePath.ofText staging).toText
      let _ ← Action.ofExcept result) :=
    (composes_discreet.removeTree _).bind fun _ => (composes_discreet.ofExcept _).bind fun _ => composes_discreet.pure ()
  split
  · exact composes_discreet.pure ()
  · exact hremove

end Installation

/-! ## Work on books -/

namespace Installing

variable {α β : Type} {i : Installation} {x : Installing α} {client : Option Client}

/-- On these books the work does the same whatever is shown of it. -/
def Discreet (i : Installation) (x : Installing α) : Prop :=
  ∀ m m', m.Alike m' → (exec x i m).1 = (exec x i m').1 ∧ (exec x i m).2.Alike (exec x i m').2

theorem discreet_of_exec {r : Except Error α} {j : Installation} (h : ∀ m, exec x i m = ((r, j), m)) : Discreet i x := fun m m' hm => by
  rw [h, h]
  exact ⟨rfl, hm⟩

theorem discreet_act {action : Action α} (h : Action.Discreet action) (i : Installation) : Discreet i (act action) := fun m m' hm => by
  rw [exec_act, exec_act]
  exact ⟨congrArg (fun r => (r, i)) (h m m' hm).1, (h m m' hm).2⟩

theorem discreet_ofExcept (r : Except Error α) (i : Installation) : Discreet i (ofExcept r) :=
  discreet_act (composes_discreet.ofExcept r) i

theorem discreet_modify (change : Installation → Installation) (i : Installation) : Discreet i (modify change) :=
  discreet_of_exec fun _ => exec_modify change

/-- What the second part may assume of the value of the first and of the books between them. -/
theorem Discreet.bind_of {f : α → Installing β} (hx : Discreet i x)
    (hf : ∀ a j m m₁, exec x i m = ((.ok a, j), m₁) → Discreet j (f a)) : Discreet i (x >>= f) := by
  intro m m' h
  obtain ⟨hr, hm⟩ := hx m m' h
  rcases hrun : exec x i m with ⟨⟨r, j⟩, m₁⟩
  rcases hrun' : exec x i m' with ⟨⟨r', j'⟩, m₁'⟩
  rw [hrun, hrun'] at hr hm
  cases hr
  cases r with
  | ok a =>
    rw [exec_bind_of_ok hrun, exec_bind_of_ok hrun']
    exact hf a j m m₁ hrun m₁ m₁' hm
  | error e =>
    rw [exec_bind_of_error hrun, exec_bind_of_error hrun']
    exact ⟨rfl, hm⟩

theorem Discreet.bind {f : α → Installing β} (hx : Discreet i x) (hf : ∀ a j, Discreet j (f a)) : Discreet i (x >>= f) :=
  hx.bind_of fun a j _ _ _ => hf a j

theorem discreet_get_bind {f : Installation → Installing β} (hf : Discreet i (f i)) : Discreet i (get >>= f) := fun m m' h => by
  rw [exec_bind_of_ok exec_get, exec_bind_of_ok exec_get]
  exact hf m m' h

theorem Discreet.ite {c : Prop} [Decidable c] {y : Installing α} (hx : Discreet i x) (hy : Discreet i y) :
    Discreet i (if c then x else y) := by
  split
  · exact hx
  · exact hy

theorem discreet_plan (force : Json) (i : Installation) : Discreet i (Installing.plan force) := by
  refine (discreet_modify _ i).bind fun _ i₁ => discreet_get_bind ?_
  refine (discreet_ofExcept _ i₁).bind fun dependency i₂ => (discreet_ofExcept _ i₂).bind fun destination i₃ => ?_
  have hclose (current : Bool) (given : Json) (i₄ : Installation) : Discreet i₄ (if current = true then
        modify (·.putState ⟨i₁.key, .completed, some destination.toText, none⟩)
      else do
        let plan : Plan := ⟨i₁.key, dependency, destination.toText, i₁.config.binaries, given, .pending, none⟩
        modify fun i => { i with plans := Table.put plan.key plan i.plans }
        modify (·.putState ⟨i₁.key, .pending, none, none⟩)) :=
    Discreet.ite (discreet_modify _ i₄) ((discreet_modify _ i₄).bind fun _ i₅ => discreet_modify _ i₅)
  have hinstalled := discreet_act (i₁.conducts_isInstalled conducts_discreet dependency) i₃
  dsimp only
  generalize (if force.isFalsy then i₁.settings.forceDownload else force) = given
  exact Discreet.ite (hinstalled.bind fun current i₄ => hclose current given i₄) (hclose false given i₃)

theorem discreet_download (client : Option Client) {plan : Plan} (h : plan.IsWritable) (i : Installation) :
    Discreet i (Installing.download client plan) := by
  have hbegun : (Text.join ["Downloading ", plan.key, " from ", plan.dependency.url]).isString = true := by
    simp only [Text.isString_join, List.all_cons, List.all_nil, h.key, h.url]
    rfl
  have hdone : (Text.join ["Successfully downloaded ", plan.key, " to ", plan.destination]).isString = true := by
    simp only [Text.isString_join, List.all_cons, List.all_nil, h.key, h.destination]
    rfl
  refine (discreet_act (discreet_log _ (.inr hbegun)) i).bind fun _ i₁ => (discreet_modify _ i₁).bind fun _ i₂ => discreet_get_bind ?_
  have hplan : plan.begun.IsWritable := ⟨h.key, h.url, h.destination⟩
  refine (discreet_act (i₂.discreet_perform client hplan).attempt i₂).bind fun result i₃ => ?_
  cases result with
  | ok _ =>
    refine (discreet_modify _ i₃).bind fun _ i₄ => (discreet_act (discreet_log _ (.inr hdone)) i₄).bind fun _ i₅ => ?_
    exact discreet_of_exec fun _ => exec_pure true
  | error e =>
    have hreport (message : Text) : Discreet i₃ (do
        act (Action.log Log.error Installing.downloading message)
        modify (·.mark { plan.begun with errorMessage := some message } false)
        return false) := by
      have hlevel : Log.warning ≤ Log.error := by decide
      refine (discreet_act (discreet_log _ (.inl hlevel)) i₃).bind fun _ i₄ => (discreet_modify _ i₄).bind fun _ i₅ => ?_
      exact discreet_of_exec fun _ => exec_pure false
    exact Discreet.ite ((discreet_of_exec fun _ => exec_throw e).bind_of fun _ _ _ _ hrun => nomatch hrun) (hreport _)

theorem discreet_downloadAll (client : Option Client) (h : ∀ plan ∈ i.pending, plan.IsWritable) :
    Discreet i (Installing.downloadAll client) := by
  have hall (plans : List Plan) (hplans : ∀ plan ∈ plans, plan.IsWritable) : ∀ i, Discreet i (plans.mapM (Installing.download client)) := by
    induction plans with
    | nil => exact fun i => discreet_of_exec fun _ => exec_pure []
    | cons plan rest ih =>
      obtain ⟨hplan, hrest⟩ := List.forall_mem_cons.1 hplans
      intro i
      rw [List.mapM_cons]
      refine (discreet_download client hplan i).bind fun _ i₁ => (ih hrest i₁).bind fun _ i₂ => ?_
      exact discreet_of_exec fun _ => exec_pure _
  refine discreet_get_bind ?_
  cases hpending : i.pending with
  | nil =>
    refine (discreet_act (discreet_log _ (.inr rfl)) i).bind fun _ i₁ => ?_
    exact discreet_of_exec fun _ => exec_pure true
  | cons plan rest =>
    refine (hall (plan :: rest) (hpending ▸ h) i).bind fun _ i₁ => ?_
    exact discreet_of_exec fun _ => exec_pure _

end Installing

end Prebuilt
