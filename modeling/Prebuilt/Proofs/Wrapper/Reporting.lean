import Prebuilt.Proofs.Wrapper.Running
/-!
Which failures are reported. Statuses, faults of the transport, of tar and zip archives and of the system all end as reported
errors, with the plan closed. What is left is a list of causes that no layer catches: they pass through the program as they
are, and the plan stays in progress.
-/
set_option autoImplicit false

namespace Prebuilt

open Action

variable {w : Wrapper} {i j : Installation} {m m' m₁ : Machine} {e : Error} {destination : FilePath} {dependency : Dependency}

theorem Error.isSystem_of_isUnforeseen (h : e.isUnforeseen = true) : e.isSystem = false := by
  cases e <;> first | rfl | cases h

namespace Installation

/-- Where there is no marker to be read, nothing is installed. -/
theorem isInstalled_missing (hdestination : i.destination = .ok destination)
    (hmissing : ∀ content, m.files.read (destination / markerName).toText ≠ .ok content) (dependency : Dependency) :
    (exec (i.isInstalled dependency) m).1 = .ok false ∨ ∃ e, (exec (i.isInstalled dependency) m).1 = .error e ∧ e.isUnforeseen = true := by
  have hcheck := bounded_checkPath_unforeseen (destination / markerName).toText m
  obtain ⟨r, hrun⟩ := exec_checkPath (destination / markerName).toText
  rw [hrun] at hcheck
  have hmarker (e : Error) (hread : exec (readFile (destination / markerName).toText) m = (.error e, m)) :
      exec i.marker? m = if e.isSystem then (.ok none, m) else (.error e, m) := by
    have htext : exec (readText (destination / markerName).toText) m = (.error e, m) := exec_bind_of_error hread
    rw [marker?, hdestination, exec_bind_of_ok (exec_ofExcept _), exec_catching, exec_map, htext]
    cases hsystem : e.isSystem <;> simp [Except.map, hsystem]
  rw [isInstalled]
  cases r with
  | error e =>
    have hunforeseen := hcheck.2 e rfl
    have hread := hmarker e (exec_bind_of_error (hrun m))
    rw [if_neg (by simp [Error.isSystem_of_isUnforeseen hunforeseen])] at hread
    exact .inr ⟨e, by rw [exec_bind_of_error hread], hunforeseen⟩
  | ok _ =>
    cases hfile : m.files.read (destination / markerName).toText with
    | ok content => exact absurd hfile (hmissing content)
    | error errno =>
      have hread := hmarker (.system ⟨errno, some (destination / markerName).toText, none⟩) (by
        rw [readFile, ask, exec_bind_of_ok (hrun m), exec_bind_of_ok exec_files, hfile]
        rfl)
      have hnone : exec i.marker? m = (.ok none, m) := hread
      exact .inl (by rw [exec_bind_of_ok hnone]; rfl)

theorem hostDependency_error (hvalid : i.config.IsValid) (h : i.hostDependency = .error e) :
    e = .unsupportedPlatform i.key ∧ Table.get? i.key i.config.urls = none := by
  cases hget : Table.get? i.key i.config.urls with
  | none =>
    rw [hostDependency_of_none hget] at h
    exact ⟨(Except.error.inj h).symm, rfl⟩
  | some url =>
    obtain ⟨-, type, htype⟩ := hvalid.entry (Table.mem_of_get? hget)
    have hdependency : i.hostDependency = .ok ⟨i.key, url, type⟩ := by
      simp only [hostDependency, WrapConfig.dependency?, hget, Dependency.ofUrl, htype]
      rfl
    cases h.symm.trans hdependency

end Installation

namespace Wrapper

/-- What an installation comes to, and what its books say about the plan. -/
inductive Reported (i : Installation) : Except Error FilePath → Installation → Prop
  | unsupported {j : Installation} : Table.get? i.key i.config.urls = none → j.plans = [] →
      Reported i (.error (.unsupportedPlatform i.key)) j
  | completed {j : Installation} {path : FilePath} {plan : Plan} : j.plans = [(i.key, plan)] → plan.status = .completed →
      Reported i (.ok path) j
  | failed {j : Installation} {message : Text} {plan : Plan} : j.plans = [(i.key, plan)] → plan.status = .failed →
      Reported i (.error (.download (.failed message))) j
  | unforeseen {j : Installation} {e : Error} : e.isUnforeseen = true → Reported i (.error e) j

theorem plans_mark {plan : Plan} (hkey : plan.key = i.key) (closed : Plan) (hsame : closed.key = plan.key) (success : Bool) :
    ((i.planned plan).mark closed success).plans = [(i.key, { closed with status := if success then .completed else .failed })] := by
  simp [Installation.mark, Installation.planned, Installation.keep, Installation.putState, hkey, hsame]

theorem work_reported (hvalid : i.config.IsValid) (hplans : i.plans = []) (hstates : i.states = []) (hdestination : i.destination = .ok destination)
    (hmissing : ∀ content, m.files.read (destination / Installation.markerName).toText ≠ .ok content) (force : Json) :
    ∃ r j m', Installing.exec (w.work force) i m = ((r, j), m') ∧ Reported i r j := by
  obtain ⟨r, j, m', hwork, -, hending⟩ := work_ending w force hplans hstates m
  refine ⟨r, j, m', hwork, ?_⟩
  have hnone (dependency : Dependency) := i.isInstalled_missing hdestination hmissing dependency
  cases hending with
  | unplanned hplan =>
    cases hplan with
    | unsupported hdependency =>
      obtain ⟨rfl, hget⟩ := Installation.hostDependency_error hvalid hdependency
      exact .unsupported hget rfl
    | homeless _ he => cases he.symm.trans hdestination
    | unseen _ he =>
      rcases hnone _ with hfalse | ⟨e', he', hunforeseen⟩
      · cases hfalse.symm.trans he
      · cases he'.symm.trans he
        exact .unforeseen hunforeseen
  | settled _ _ hinstalled =>
    rcases hnone _ with hfalse | ⟨e', he', hunforeseen⟩
    · cases hfalse.symm.trans hinstalled
    · cases he'.symm.trans hinstalled
  | @done _ _ plan _ _ hkey => exact .completed (plans_mark hkey plan.begun rfl true) rfl
  | @failed _ plan message _ hkey _ => exact .failed (plans_mark hkey (plan.begun.blamed message) rfl false) rfl
  | left _ hunforeseen => exact .unforeseen hunforeseen

theorem install_books (hvalid : w.config.IsValid) (hinstallation : exec w.installation m = (.ok i, m₁))
    (hdestination : i.destination = .ok destination)
    (hmissing : ∀ content, m.files.read (destination / Installation.markerName).toText ≠ .ok content) (force : Json) :
    ∃ r j m', exec (w.install force) m = (r, m') ∧ Installing.exec (w.work force) i m₁ = ((r, j), m') ∧ Reported i r j := by
  obtain ⟨settings, hread, hi⟩ := installation_ok hinstallation
  have hsame : ∀ content, m₁.files.read (destination / Installation.markerName).toText ≠ .ok content := by
    rw [(currentSettings_ok hread).1]
    exact hmissing
  obtain ⟨r, j, m', hwork, hreported⟩ := work_reported (w := w) (by rw [hi]; exact hvalid) (by rw [hi]) (by rw [hi]) hdestination hsame force
  exact ⟨r, j, m', by rw [exec_install hinstallation, hwork], hwork, hreported⟩

theorem shown_of_isReported (name : Text) (m : Machine) (h : e.isReported = true) : (shown name (.error e, m)).1 = .ok 1 := by
  simp [shown, h]

/-- A program ends with an exit status, unless its installation fails with what is not reported. -/
theorem main_ends {j : Installation} (hinstallation : exec w.installation m = (.ok i, m₁))
    (hreported : Reported i (exec (w.install (.bool false)) m).1 j) (binary : Option Text) (arguments : List Text) :
    (∃ status, (exec (w.main binary arguments) m).1 = .ok status) ∨
      ∃ e, (exec (w.install (.bool false)) m).1 = .error e ∧ e.isUnforeseen = true := by
  obtain ⟨r, m', hrun, hending⟩ := run_ending hinstallation (w.programName binary) arguments
  rw [exec_main, hrun]
  cases hending with
  | notWrapped _ => exact .inl ⟨1, shown_of_isReported _ _ rfl⟩
  | unsupported _ _ _ => exact .inl ⟨1, shown_of_isReported _ _ rfl⟩
  | notInstalled _ _ hinstall _ =>
    rw [hinstall] at hreported ⊢
    cases hreported with
    | unsupported _ _ => exact .inl ⟨1, shown_of_isReported _ _ rfl⟩
    | failed _ _ => exact .inl ⟨1, shown_of_isReported _ _ rfl⟩
    | unforeseen hunforeseen => exact .inr ⟨_, rfl, hunforeseen⟩
  | @started path m' _ _ _ _ =>
    cases m'.children.head?.getD (.exit 0) with
    | exit code => exact .inl ⟨_, rfl⟩
    | interrupted => exact .inl ⟨_, rfl⟩
    | refused errno => exact .inl ⟨1, shown_of_isReported _ _ rfl⟩

/-- The first bytes of a compressed archive. -/
def cutArchive : Bytes := [0x1f, 0x8b, 8, 0]

def cutUrl : Text := "https://h/run.tgz"

/-- A server that has them, and some files. -/
def cutMachine (files : FileSystem) : Machine :=
  { serving [] files with server := [(cutUrl, ⟨200, none, [], cutArchive, none, none, []⟩)] }

/-- The same once they were asked for. -/
def cutAsked (files : FileSystem) : Machine := (cutMachine files).asked ⟨"GET", cutUrl, "c"⟩

def cutWrapper : Wrapper := { wrapping ["run"] cutUrl with client := some servedClient }

def cutPlan : Plan := ⟨"linux-x64", ⟨"linux-x64", cutUrl, "tgz"⟩, "/unpacked_bin/linux-x64", ["run"], .bool true, .pending, none⟩

/-- The books while the plan is carried out. -/
def cutBooks : Installation := ((hosted ["run"] cutUrl).planned cutPlan).keep cutPlan.begun

/-- The directory for installations, and what else there is. -/
def cutFiles (more : List (Location × Node)) (next : Nat) : FileSystem :=
  ⟨(["unpacked_bin"], .directory 0o755) :: more, next, []⟩

def cutStaging : Location × Node := (["unpacked_bin", ".linux-x64-XXXXXXXX"], .directory 0o700)

def cutStored (content : Bytes) : Location × Node := (["runwrap-XXXXXXXX", "run.tgz"], .file 0 0o644 content)

def cutError : Error := .truncatedStream "Compressed file ended before the end-of-stream marker was reached"

/-- What comes before the archive is unpacked, and after that. -/
theorem cut_requests :
    exec (makeAncestry (FilePath.ofText "/unpacked_bin/linux-x64").parent) (cutMachine emptyFiles) = (.ok (), cutMachine (cutFiles [] 0)) ∧
    exec (makeTemporary "/unpacked_bin" ".linux-x64-") (cutMachine (cutFiles [] 0)) =
      (.ok "/unpacked_bin/.linux-x64-XXXXXXXX", cutMachine (cutFiles [cutStaging] 0)) ∧
    exec (makeTemporary "/" "runwrap-") (cutMachine (cutFiles [cutStaging] 0)) =
      (.ok "/runwrap-XXXXXXXX", cutMachine (cutFiles [cutStaging, temporaryNode] 0)) ∧
    exec (downloadFile (some servedClient) .null cutUrl "/runwrap-XXXXXXXX/run.tgz") (cutMachine (cutFiles [cutStaging, temporaryNode] 0)) =
      (.ok (), cutAsked (cutFiles [cutStaging, temporaryNode, cutStored cutArchive] 1)) ∧
    exec (discard "/runwrap-XXXXXXXX") (cutAsked (cutFiles [cutStaging, temporaryNode, cutStored cutArchive] 1)) =
      (.ok (), cutAsked (cutFiles [cutStaging] 1)) ∧
    exec (removeTree "/unpacked_bin/.linux-x64-XXXXXXXX") (cutAsked (cutFiles [cutStaging] 1)) = (.ok (), cutAsked (cutFiles [] 1)) := by
  refine ⟨by cbv, by cbv, by cbv, ?_, by cbv, by cbv⟩
  have hurl : Url.ofRequest cutUrl = .ok ⟨"https", [], "h", none, "/run.tgz", none, none⟩ := rfl
  have hrender : Url.render ⟨"https", [], "h", none, "/run.tgz", none, none⟩ = cutUrl := rfl
  have hanswer : (cutMachine (cutFiles [cutStaging, temporaryNode] 0)).server.answer
      (Url.render ⟨"https", [], "h", none, "/run.tgz", none, none⟩) = ⟨200, none, [], cutArchive, none, none, []⟩ := by
    rw [hrender]
    rfl
  have htruncate : (cutFiles [cutStaging, temporaryNode] 0).truncate "/runwrap-XXXXXXXX/run.tgz" =
    .ok (cutFiles [cutStaging, temporaryNode, cutStored []] 1) := by cbv
  have hstatus : (cutFiles [cutStaging, temporaryNode, cutStored []] 1).status "/runwrap-XXXXXXXX/run.tgz" true =
    .ok (["runwrap-XXXXXXXX", "run.tgz"], .file 0 0o644 []) := by cbv
  have happend : (cutFiles [cutStaging, temporaryNode, cutStored []] 1).append ["runwrap-XXXXXXXX", "run.tgz"] cutArchive =
    cutFiles [cutStaging, temporaryNode, cutStored cutArchive] 1 := by cbv
  rw [exec_downloadFile_plain servedClient .null hurl rfl hanswer rfl ⟨_, rfl, by decide⟩ (by cbv) htruncate hstatus, happend, hrender]
  rfl

theorem cut_extract : exec (extractArchive "/runwrap-XXXXXXXX/run.tgz" "/unpacked_bin/.linux-x64-XXXXXXXX" "tgz")
      (cutAsked (cutFiles [cutStaging, temporaryNode, cutStored cutArchive] 1)) =
    (.error cutError, cutAsked (cutFiles [cutStaging, temporaryNode, cutStored cutArchive] 1)) := by
  have hmembers : Tar.members true cutArchive = .error cutError := by cbv
  have htarget : exec (makeDirectories "/unpacked_bin/.linux-x64-XXXXXXXX" true)
      (cutAsked (cutFiles [cutStaging, temporaryNode, cutStored cutArchive] 1)) =
        (.ok (), cutAsked (cutFiles [cutStaging, temporaryNode, cutStored cutArchive] 1)) := by cbv
  have hread : exec (readFile "/runwrap-XXXXXXXX/run.tgz") (cutAsked (cutFiles [cutStaging, temporaryNode, cutStored cutArchive] 1)) =
    (.ok cutArchive, cutAsked (cutFiles [cutStaging, temporaryNode, cutStored cutArchive] 1)) := by cbv
  have hextract : exec (Tar.extract true "/runwrap-XXXXXXXX/run.tgz" "/unpacked_bin/.linux-x64-XXXXXXXX")
      (cutAsked (cutFiles [cutStaging, temporaryNode, cutStored cutArchive] 1)) =
        (.error cutError, cutAsked (cutFiles [cutStaging, temporaryNode, cutStored cutArchive] 1)) := by
    rw [Tar.extract, exec_bind_of_ok hread]
    exact exec_bind_of_error (by rw [exec_ofExcept, hmembers])
  rw [extractArchive, exec_bind_of_ok htarget, exec_catching, unpackArchive, if_pos (.inr rfl), hextract]
  rfl

theorem cut_perform : exec (cutBooks.perform (some servedClient) cutPlan.begun) (cutMachine emptyFiles) =
    (.error cutError, cutAsked (cutFiles [] 1)) := by
  obtain ⟨hancestry, hstaging, htemporary, hdownload, hdiscard, hremove⟩ := cut_requests
  have htext : (FilePath.ofText "/unpacked_bin/.linux-x64-XXXXXXXX").toText = "/unpacked_bin/.linux-x64-XXXXXXXX" := by decide
  have hname : Path.join "/runwrap-XXXXXXXX" (archiveName cutUrl) = "/runwrap-XXXXXXXX/run.tgz" := by decide
  have hfetch : exec (downloadArchive (some servedClient) .null cutUrl "/unpacked_bin/.linux-x64-XXXXXXXX" "tgz")
      (cutMachine (cutFiles [cutStaging] 0)) = (.error cutError, cutAsked (cutFiles [cutStaging] 1)) := by
    rw [downloadArchive, exec_bind_of_ok exec_get]
    refine (exec_bind_of_ok htemporary).trans ?_
    simp only [hname]
    rw [exec_ensure, exec_bind_of_ok hdownload, exec_bind_of_ok (exec_log_disabled rfl ..), cut_extract, hdiscard]
  have hfill : exec (cutBooks.fill (some servedClient) cutPlan.begun (FilePath.ofText "/unpacked_bin/.linux-x64-XXXXXXXX"))
      (cutMachine (cutFiles [cutStaging] 0)) = (.error cutError, cutAsked (cutFiles [cutStaging] 1)) := by
    rw [Installation.fill, htext]
    exact exec_bind_of_error hfetch
  rw [Installation.perform]
  refine (exec_bind_of_ok hancestry).trans ((exec_bind_of_ok hstaging).trans ?_)
  rw [exec_bind_of_ok (exec_attempt _), hfill]
  simp only [htext]
  exact exec_bind_of_ok hremove

theorem cut_work : Installing.exec (cutWrapper.work (.bool true)) (hosted ["run"] cutUrl) (cutMachine emptyFiles) =
    ((.error cutError, cutBooks), cutAsked (cutFiles [] 1)) := by
  have hdependency : (hosted ["run"] cutUrl).hostDependency = .ok ⟨"linux-x64", cutUrl, "tgz"⟩ := rfl
  have htext : FilePath.toText ⟨"/", ["unpacked_bin", "linux-x64"]⟩ = "/unpacked_bin/linux-x64" := by decide
  have hforced : (Json.bool true).isFalsy = false := rfl
  have hplan := Installing.exec_plan_forced (m := cutMachine emptyFiles) hdependency (destination_hosted ["run"] cutUrl) hforced
  rw [htext] at hplan
  have hperform : Installing.exec (Installing.act (attempt (cutBooks.perform (some servedClient) cutPlan.begun))) cutBooks
      (cutMachine emptyFiles) = ((.ok (.error cutError), cutBooks), cutAsked (cutFiles [] 1)) := by
    rw [Installing.exec_act, exec_attempt, cut_perform]
  have hdownload : Installing.exec (Installing.download (some servedClient) cutPlan) ((hosted ["run"] cutUrl).planned cutPlan)
      (cutMachine emptyFiles) = ((.error cutError, cutBooks), cutAsked (cutFiles [] 1)) := by
    have hlog : Installing.exec (Installing.act (log Log.info Installing.downloading
        (Text.join ["Downloading ", cutPlan.key, " from ", cutPlan.dependency.url]))) ((hosted ["run"] cutUrl).planned cutPlan)
          (cutMachine emptyFiles) = ((.ok (), (hosted ["run"] cutUrl).planned cutPlan), cutMachine emptyFiles) := by
      rw [Installing.exec_act, exec_log_disabled rfl]
    rw [Installing.download, Installing.exec_bind_of_ok hlog, Installing.exec_bind_of_ok (Installing.exec_modify _),
      Installing.exec_bind_of_ok Installing.exec_get]
    refine (Installing.exec_bind_of_ok hperform).trans ?_
    rfl
  have hall : Installing.exec (Installing.downloadAll (some servedClient)) ((hosted ["run"] cutUrl).planned cutPlan)
      (cutMachine emptyFiles) = Installing.exec (Installing.download (some servedClient) cutPlan)
        ((hosted ["run"] cutUrl).planned cutPlan) (cutMachine emptyFiles) := Installing.exec_downloadAll_one rfl
  rw [work, Installing.exec_bind_of_ok hplan]
  exact Installing.exec_bind_of_error (hall.trans hdownload)

end Wrapper

end Prebuilt
