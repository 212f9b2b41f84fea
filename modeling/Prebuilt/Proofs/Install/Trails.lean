import Prebuilt.Install.Staging
import Prebuilt.Proofs.Http.Trails
/-!
What is requested in the course of an installation: the trail of the one archive that is downloaded. Finding binaries, looking at
what is installed and putting a staging directory in place ask no server anything, and none of it looks at where other platforms'
archives are published.
-/
set_option autoImplicit false

namespace Prebuilt

open Action

/-! ## What an installation is put together from -/

section

variable {Q : ∀ α : Type, Action α → Prop} (h : Conducts Q)

include h

namespace Action.Conducts

theorem findFile (paths : List FilePath) : Q (Option FilePath) (paths.findM? isFileAt) := h.findM? fun path => h.isFile path.toText

theorem raiseNested (staging : FilePath) (name : Text) : Q (Option FilePath) (raiseNested staging name) := by
  refine h.bind h.files fun fs => h.bind (h.ofExcept _) fun candidates => h.bind (h.findFile candidates) fun found => ?_
  cases found with
  | none => exact h.pure none
  | some candidate => exact h.bind (h.requestTwo _ _ fun _ _ _ => trivial) fun _ => h.pure _

theorem locateBinary (staging : FilePath) (binary : Text) : Q FilePath (locateBinary staging binary) := by
  refine h.bind (h.findM? fun name => h.isFile (staging / name).toText) fun found => ?_
  cases found with
  | some name => exact h.pure _
  | none =>
    refine h.bind (h.findSomeM? fun name => h.raiseNested staging name) fun raised => ?_
    cases raised with
    | some path => exact h.pure path
    | none => exact h.throw _

theorem verifyBinary (staging : FilePath) (url binary : Text) : Q Bool (verifyBinary staging url binary) := by
  refine h.bind (h.findFile _) fun found => ?_
  cases found with
  | none => exact h.bind (h.warn _ _) fun _ => h.pure false
  | some path =>
    refine h.bind (h.ask _ _) fun _ => Composes.branch ?_ (h.pure true)
    exact h.bind (h.warn _ _) fun _ => h.pure false

end Action.Conducts

namespace Installation

variable (i : Installation)

theorem conducts_writeMarker (staging : FilePath) (url : Text) : Q Unit (writeMarker staging url) := by
  refine h.bind (h.create _ fun _ _ _ => trivial) fun location => ?_
  split
  · exact h.setFiles fun _ => trivial
  · exact h.throw _

theorem conducts_isInstalled (dependency : Dependency) : Q Bool (i.isInstalled dependency) := by
  have hmarker : Q (Option Text) i.marker? := by
    refine h.bind (h.ofExcept _) fun destination => h.catching (h.map some (h.readText _)) fun e action he => ?_
    split at he
    · cases he
      exact h.pure none
    · cases he
  have hbinary (binary : Text) : Q Bool (i.hasBinary binary) := by
    refine h.bind (h.ofExcept _) fun path => h.bind (h.isFile _) fun there => ?_
    exact Composes.branch (h.bind h.files fun _ => h.pure _) (h.pure false)
  refine h.bind hmarker fun marker => ?_
  cases marker with
  | none => exact h.pure false
  | some marker => exact Composes.branch (h.allM fun binary => hbinary binary) (h.pure false)

theorem conducts_place (plan : Plan) (staging destination : FilePath) : Q (Option Bool) (i.place plan staging destination) := by
  have hinstalled : Q (Option Bool) (do return if ← i.isInstalled plan.dependency then some false else none) :=
    h.bind (i.conducts_isInstalled h plan.dependency) fun _ => h.pure _
  refine h.bind h.race fun _ => h.bind (h.attempt (h.requestTwo _ _ fun _ _ _ => trivial)) fun result => ?_
  cases result with
  | ok _ => exact h.pure _
  | error e => exact Composes.branch (h.bind (h.throw e) fun _ => hinstalled) hinstalled

theorem conducts_settle (plan : Plan) (staging destination : FilePath) (left : Nat) :
    Q Bool (i.settle plan staging destination left) := by
  induction left with
  | zero => exact h.throw _
  | succ left ih =>
    have hsettled : Q Bool (i.isSettled plan) := Composes.branch (h.pure false) (i.conducts_isInstalled h plan.dependency)
    refine h.bind hsettled fun settled => Composes.branch (h.pure false) (h.bind (h.moveAside _) fun aside => ?_)
    refine h.bind (h.ensure (i.conducts_place h plan staging destination) (h.removeAside aside)) fun used => ?_
    cases used with
    | some used => exact h.pure used
    | none => exact ih

/-- What is done with a staging directory once an archive was unpacked there. -/
def takeOver (plan : Plan) (staging : FilePath) : Action Bool := do
  plan.binaries.forM fun binary => do
    Action.makeExecutable (← Action.locateBinary staging binary).toText
  if !(← plan.binaries.allM (Action.verifyBinary staging plan.dependency.url)) then
    throw (.download (.verification plan.key))
  writeMarker staging plan.dependency.url
  i.settle plan staging (FilePath.ofText plan.destination) attempts

theorem conducts_takeOver (plan : Plan) (staging : FilePath) : Q Bool (i.takeOver plan staging) := by
  have hlast : Q Bool (do
      writeMarker staging plan.dependency.url
      i.settle plan staging (FilePath.ofText plan.destination) attempts) :=
    h.bind (conducts_writeMarker h _ _) fun _ => i.conducts_settle h _ _ _ _
  refine h.bind (h.forM fun binary => h.bind (h.locateBinary staging binary) fun _ => h.makeExecutable _) fun _ => ?_
  refine h.bind (h.allM fun binary => h.verifyBinary staging _ binary) fun verified => ?_
  exact Composes.branch (h.bind (h.throw _) fun _ => hlast) hlast

end Installation

end

/-! ## Requests in the course of an installation -/

namespace Installation

variable {m : Machine} (i : Installation)

theorem requests_fill (client : Option Client) (plan : Plan) (staging : FilePath) (m : Machine) :
    ∃ trail, m.server.IsTrail plan.dependency.url trail ∧ Requests m (i.fill client plan staging) (agentOf client) trail := by
  obtain ⟨trail, htrail, hrequests⟩ := requests_downloadArchive client i.settings.timeout plan.dependency.url staging.toText
    plan.dependency.archiveType m
  exact ⟨trail, htrail, hrequests.bind_offline fun _ => i.conducts_takeOver conducts_offline plan staging⟩

/-- Carrying out a plan requests the trail of its archive. -/
theorem requests_perform (client : Option Client) (plan : Plan) (m : Machine) :
    ∃ trail, m.server.IsTrail plan.dependency.url trail ∧ Requests m (i.perform client plan) (agentOf client) trail := by
  have hnil := m.server.isTrail_nil plan.dependency.url
  refine (composes_offline.makeAncestry _).bind_requests hnil fun _ m₁ _ h₁ => ?_
  refine (composes_offline.makeTemporary _ _).bind_requests hnil fun staging m₂ _ h₂ => ?_
  obtain ⟨trail, htrail, hrequests⟩ := i.requests_fill client plan (FilePath.ofText staging) m₂
  refine ⟨trail, (h₂.trans h₁) ▸ htrail, hrequests.attempt.bind_offline fun result => ?_⟩
  have hremove : Offline (do
      removeTree (FilePath.ofText staging).toText
      let _ ← Action.ofExcept result) := (composes_offline.removeTree _).bind fun _ => (offline_ofExcept _).bind fun _ => offline_pure ()
  split
  · exact offline_pure ()
  · exact hremove

/-! ## Where archives are published -/

/-- The installation, had other archives been published. -/
def publishing (i : Installation) (urls : List (Text × Text)) : Installation := { i with config := { i.config with urls } }

variable (urls : List (Text × Text))

theorem settle_publishing (plan : Plan) (staging destination : FilePath) (left : Nat) :
    (i.publishing urls).settle plan staging destination left = i.settle plan staging destination left := by
  induction left with
  | zero => rfl
  | succ left ih =>
    unfold settle
    simp only [ih]
    rfl

theorem perform_publishing (client : Option Client) (plan : Plan) : (i.publishing urls).perform client plan = i.perform client plan := by
  have hfill (staging : FilePath) : (i.publishing urls).fill client plan staging = i.fill client plan staging := by
    unfold fill
    simp only [settle_publishing]
    rfl
  unfold perform
  simp only [hfill]

theorem hostDependency_publishing (h : Table.get? i.key urls = Table.get? i.key i.config.urls) :
    (i.publishing urls).hostDependency = i.hostDependency := by
  have hkey : (i.publishing urls).config.dependency? i.key = i.config.dependency? i.key := by
    unfold WrapConfig.dependency?
    rw [show (i.publishing urls).config.urls = urls from rfl, h]
  unfold hostDependency
  rw [show (i.publishing urls).key = i.key from rfl, hkey]

theorem url_of_hostDependency {dependency : Dependency} (h : i.hostDependency = .ok dependency) :
    Table.get? i.key i.config.urls = some dependency.url := by
  rw [hostDependency, WrapConfig.dependency?] at h
  cases hget : Table.get? i.key i.config.urls with
  | none =>
    rw [hget] at h
    cases h
  | some url =>
    simp only [hget, Dependency.ofUrl] at h
    cases htype : archiveType url with
    | error e =>
      rw [htype] at h
      cases h
    | ok type =>
      rw [htype] at h
      cases h
      rfl

end Installation

end Prebuilt
