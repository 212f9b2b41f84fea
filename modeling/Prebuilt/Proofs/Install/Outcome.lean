import Mathlib
import Prebuilt.Proofs.Install.Planning
/-!
What a download leaves. One that fails leaves everything as it was, whatever it failed at; one that ends well leaves a current
installation alone or a new one in the place of whatever was there.
-/
set_option autoImplicit false

namespace Prebuilt

open FileSystem Action FilePath

variable {m m' m₁ m₂ : Machine} {i j : Installation} {client : Option Client} {plan : Plan} {p : FilePath} {d : Location}
  {force : Json}

/-! ## The journal does not matter -/

theorem Machine.Spared.of_quiet (h : m₁.Spared p m₂) (hbefore : Quiet m m₁) (hafter : Quiet m₂ m') : m.Spared p m' where
  world := by rw [hafter.world, h.world, hbefore.world, hafter.files]
  kept l := by
    have hkept := h.kept l
    rw [hbefore.files] at hkept
    rwa [hafter.files]
  sound := hafter.files ▸ h.sound
  cwd := by rw [hafter.files, h.cwd, hbefore.files]

theorem Machine.Renewed.of_quiet (h : m₁.Renewed plan p d m₂) (hbefore : Quiet m m₁) (hafter : Quiet m₂ m') :
    m.Renewed plan p d m' where
  world := by rw [hafter.world, h.world, hbefore.world, hafter.files]
  lies := hbefore.files ▸ h.lies
  home := hafter.files ▸ h.home
  kept l hl := by
    have hkept := h.kept l hl
    rw [hbefore.files] at hkept
    rwa [hafter.files]
  sound := hafter.files ▸ h.sound
  cwd hout := by
    rw [hafter.files, ← hbefore.files]
    exact h.cwd (hbefore.files ▸ hout)
  isDir := hafter.files ▸ h.isDir
  plain l node hl hg := h.plain l node hl (hafter.files ▸ hg)
  sendable := h.sendable
  fits := h.fits
  web := h.web
  brief := hafter.files ▸ h.brief
  tree hwild := by
    rw [hafter.files, ← hbefore.server]
    exact h.tree hwild

theorem Performed.of_quiet (h : Performed i m₁ plan m₂) (hbefore : Quiet m m₁) (hafter : Quiet m₂ m') : Performed i m plan m' := by
  cases h with
  | current hspared hforced hnone hsame hinstalled hroot hhome hext hapart =>
    refine .current (hspared.of_quiet hbefore hafter) hforced (hbefore.files ▸ hnone) (fun l hl => ?_) hinstalled hroot
      (hafter.files ▸ hhome) (hafter.files ▸ hext) hapart
    rw [hafter.files]
    exact hsame l hl
  | renewed hrenewed => exact .renewed (hrenewed.of_quiet hbefore hafter)

theorem Performed.world (h : Performed i m plan m') :
    m' = { m with files := m'.files, journal := m'.journal, identifiers := m'.identifiers } := by
  cases h with
  | current hspared => exact hspared.world
  | renewed hrenewed => exact hrenewed.world

theorem Plan.Alone.of_quiet (h : plan.Alone m) (hquiet : Quiet m m₁) : plan.Alone m₁ := by
  obtain ⟨hsound, hthere, hserver, hraces, hdirect, hfree, hordinary⟩ := h
  have hsame : m₁ = { m with journal := m₁.journal } := by
    rw [hquiet.world, hquiet.files]
  rw [hsame]
  exact ⟨hsound, hthere, hserver, hraces, hdirect, hfree, hordinary⟩

/-! ## Downloading -/

/-- A plan that is being carried out. -/
abbrev Plan.begun (plan : Plan) : Plan := { plan with status := .inProgress }

theorem Plan.Sane.begun (h : plan.Sane) : plan.begun.Sane := ⟨h.text, h.name, h.downward, h.archive, h.noSlash⟩

theorem Plan.Alone.begun (h : plan.Alone m) : plan.begun.Alone m :=
  ⟨h.sound, h.there, h.server, h.races, h.direct, h.free, h.ordinary⟩

theorem Performed.of_begun (h : Performed (i.keep plan.begun) m plan.begun m') : Performed i m plan m' := by
  cases h with
  | current hspared hforced hnone hsame hinstalled hroot hhome hext hapart =>
    exact .current hspared hforced hnone hsame hinstalled hroot hhome hext hapart
  | renewed hrenewed =>
    obtain ⟨hworld, hlies, hhome, hkept, hsound, hcwd, hdir, hplain, hsend, hfits, hweb, hbrief, htree⟩ := hrenewed
    exact .renewed ⟨hworld, hlies, hhome, hkept, hsound, hcwd, hdir, hplain, hsend, hfits, hweb, hbrief, htree⟩

/-- A message is logged and nothing else happens, unless it cannot be logged. -/
theorem Installing.exec_log (level : Log.Level) (origin : Log.Origin) (message : Text) (i : Installation) (m : Machine) :
    ∃ r m', exec (act (log level origin message)) i m = ((r, i), m') ∧ Quiet m m' := by
  have hquiet := quiet_log level origin message m
  rcases hlog : Action.exec (log level origin message) m with ⟨r, m'⟩
  rw [hlog] at hquiet
  exact ⟨r, m', by rw [exec_act, hlog], hquiet⟩

theorem Installing.exec_log_ok (origin : Log.Origin) {message : Text} (i : Installation) (h : IsLoggable m.threshold message) :
    ∃ m', exec (act (log Log.info origin message)) i m = ((.ok (), i), m') ∧ Quiet m m' := by
  obtain ⟨m', hlog⟩ : ∃ m', Action.exec (log Log.info origin message) m = (.ok (), m') := log_ok.2 h
  have hquiet := quiet_log Log.info origin message m
  rw [hlog] at hquiet
  exact ⟨m', by rw [exec_act, hlog], hquiet⟩

/-- A plan that is carried out well is closed, and what was done is told in the log. -/
theorem Installing.download_ok (i : Installation)
    (hlog : Action.exec (log Log.info Installing.downloading (Text.join ["Downloading ", plan.key, " from ", plan.dependency.url])) m =
      (.ok (), m₁))
    (hperform : Action.exec ((i.keep plan.begun).perform client plan.begun) m₁ = (.ok (), m₂)) (hkey : IsLoggable m₂.threshold plan.key)
    (hdestination : IsLoggable m₂.threshold plan.destination) :
    ∃ m', exec (Installing.download client plan) i m = ((.ok true, (i.keep plan.begun).mark plan.begun true), m') ∧ Quiet m₂ m' := by
  have hact : exec (act (log Log.info Installing.downloading (Text.join ["Downloading ", plan.key, " from ", plan.dependency.url]))) i m =
      ((.ok (), i), m₁) := by rw [exec_act, hlog]
  have hattempt : exec (act (attempt ((i.keep plan.begun).perform client plan.begun))) (i.keep plan.begun) m₁ =
      ((.ok (.ok ()), i.keep plan.begun), m₂) := by rw [exec_act, exec_attempt, hperform]
  rw [Installing.download, exec_bind_of_ok hact, exec_bind_of_ok (exec_modify _), exec_bind_of_ok exec_get, exec_bind_of_ok hattempt]
  simp only
  rw [exec_bind_of_ok (exec_modify _)]
  have hmessage : IsLoggable m₂.threshold (Text.join ["Successfully downloaded ", plan.key, " to ", plan.destination]) := by
    have htext {t : Text} (ht : t.isString = true) : IsLoggable m₂.threshold t := fun _ => ht
    simp only [Text.join, List.flatten_cons, List.flatten_nil, isLoggable_append]
    exact ⟨htext rfl, hkey, htext rfl, hdestination, htext rfl⟩
  obtain ⟨m', hlog, hquiet⟩ := Installing.exec_log_ok Installing.downloading ((i.keep plan.begun).mark plan.begun true) hmessage
  exact ⟨m', exec_bind_of_ok hlog, hquiet⟩

/-- A plan that fails is closed as well, if what it failed at is a failed download or a refused request. -/
theorem Installing.download_error {e : Error} (i : Installation)
    (hlog : Action.exec (log Log.info Installing.downloading (Text.join ["Downloading ", plan.key, " from ", plan.dependency.url])) m =
      (.ok (), m₁))
    (hperform : Action.exec ((i.keep plan.begun).perform client plan.begun) m₁ = (.error e, m₂)) (hkind : e.isDownloadFailure = true)
    (hmessage : Text.isString (Text.join ["Failed to download ", plan.key, ": ", e.message]) = true) :
    ∃ j m', exec (Installing.download client plan) i m = ((.ok false, j), m') ∧ Quiet m₂ m' := by
  have hact : exec (act (log Log.info Installing.downloading (Text.join ["Downloading ", plan.key, " from ", plan.dependency.url]))) i m =
      ((.ok (), i), m₁) := by rw [exec_act, hlog]
  have hattempt : exec (act (attempt ((i.keep plan.begun).perform client plan.begun))) (i.keep plan.begun) m₁ =
      ((.ok (.error e), i.keep plan.begun), m₂) := by rw [exec_act, exec_attempt, hperform]
  obtain ⟨m', hfailed⟩ : ∃ m', Action.exec (log Log.error Installing.downloading
    (Text.join ["Failed to download ", plan.key, ": ", e.message])) m₂ = (.ok (), m') := log_ok_iff.2 fun _ => hmessage
  have hquiet := quiet_log Log.error Installing.downloading (Text.join ["Failed to download ", plan.key, ": ", e.message]) m₂
  rw [hfailed] at hquiet
  rw [Installing.download, exec_bind_of_ok hact, exec_bind_of_ok (exec_modify _), exec_bind_of_ok exec_get, exec_bind_of_ok hattempt]
  simp only
  rw [if_neg (by rw [hkind]; decide), exec_bind_of_ok (by rw [exec_act, hfailed])]
  exact ⟨_, m', rfl, hquiet⟩

theorem isLoggable_key (h : Action.exec (log Log.info Installing.downloading
      (Text.join ["Downloading ", plan.key, " from ", plan.dependency.url])) m = (.ok (), m₁)) : IsLoggable m.threshold plan.key := by
  have hmessage := log_ok.1 ⟨m₁, h⟩
  simp only [Text.join, List.flatten_cons, isLoggable_append] at hmessage
  exact hmessage.2.1

/-- A plan that fails and leaves everything as it was does so, whether or not the failure is passed on. -/
theorem Installing.download_spared {e : Error} (i : Installation) (hlog : exec (act (log Log.info Installing.downloading
      (Text.join ["Downloading ", plan.key, " from ", plan.dependency.url]))) i m = ((.ok (), i), m₁)) (hquiet : Quiet m m₁)
    (hperform : Action.exec ((i.keep plan.begun).perform client plan.begun) m₁ = (.error e, m₂)) (hspared : m₁.Spared plan.path m₂) :
    ∃ r i' m', exec (Installing.download client plan) i m = ((r, i'), m') ∧ r ≠ .ok true ∧ m.Spared plan.path m' := by
  have hact : exec (act (attempt ((i.keep plan.begun).perform client plan.begun))) (i.keep plan.begun) m₁ =
      ((.ok (.error e), i.keep plan.begun), m₂) := by rw [exec_act, exec_attempt, hperform]
  rw [Installing.download, exec_bind_of_ok hlog, exec_bind_of_ok (exec_modify _), exec_bind_of_ok exec_get, exec_bind_of_ok hact]
  simp only
  have hm₂ := hspared.of_quiet hquiet (quiet_refl m₂)
  split
  · exact ⟨_, _, m₂, rfl, by simp, hm₂⟩
  · obtain ⟨r, m₃, hlog, hquiet'⟩ := Installing.exec_log Log.error Installing.downloading
      (Text.join ["Failed to download ", plan.key, ": ", e.message]) (i.keep plan.begun) m₂
    have hm₃ := hm₂.of_quiet (quiet_refl m) hquiet'
    cases r with
    | error e => exact ⟨_, _, _, exec_bind_of_error hlog, by simp, hm₃⟩
    | ok _ =>
      rw [exec_bind_of_ok hlog]
      exact ⟨.ok false, _, m₃, rfl, by simp, hm₃⟩

/-- The plan is carried out, and what it came to is kept. -/
theorem Installing.exec_download (client : Option Client) (i : Installation) (hplan : plan.Sane) (halone : plan.Alone m) :
    (∃ r i' m', exec (Installing.download client plan) i m = ((r, i'), m') ∧ r ≠ .ok true ∧ m.Spared plan.path m') ∨
      ∃ m', exec (Installing.download client plan) i m = ((.ok true, (i.keep plan.begun).mark plan.begun true), m') ∧
        Performed i m plan m' := by
  have hspared : m.Spared plan.path m := ⟨rfl, fun _ => .inl rfl, halone.sound, rfl⟩
  obtain ⟨r, m₁, hlog, hquiet⟩ := Installing.exec_log Log.info Installing.downloading
    (Text.join ["Downloading ", plan.key, " from ", plan.dependency.url]) i m
  cases r with
  | error e =>
    rw [Installing.download]
    exact .inl ⟨_, _, _, exec_bind_of_error hlog, by simp, hspared.of_quiet (quiet_refl m) hquiet⟩
  | ok _ =>
  have hperform := (i.keep plan.begun).exec_perform client hplan.begun (halone.begun.of_quiet hquiet)
  have hthreshold : m₁.threshold = m.threshold := hquiet.same (·.threshold) fun _ _ _ => rfl
  rcases hperform with ⟨e, m₂, hrun, hm₂⟩ | ⟨m₂, hrun, hloggable, hm₂⟩
  · exact .inl (Installing.download_spared i hlog hquiet hrun hm₂)
  · have hlog := (act_ok hlog).1
    have hthreshold' : m₂.threshold = m.threshold := by rw [hm₂.world, hthreshold]
    obtain ⟨m₃, hdownload, hquiet'⟩ := Installing.download_ok i hlog hrun (hthreshold' ▸ isLoggable_key hlog)
      (hthreshold'.trans hthreshold.symm ▸ hloggable)
    exact .inr ⟨m₃, hdownload, hm₂.of_begun.of_quiet hquiet hquiet'⟩

/-! ## What is left -/

/-- A plan that planning makes for an installation. -/
def Plan.IsMadeFor (plan : Plan) (i : Installation) : Prop := ∃ force m m' i',
  Installing.exec (Installing.plan force) i m = ((.ok (), i'), m') ∧ plan ∈ i'.pending

/-- Where it is forced, a plan can be made whatever is there. -/
theorem Plan.isMadeFor_forced {dependency : Dependency} {destination : FilePath} {text : Text} (m : Machine)
    (hdependency : i.hostDependency = .ok dependency) (hdestination : i.destination = .ok destination)
    (htext : destination.toText = text) (hforced : force.isFalsy = false) :
    Plan.IsMadeFor ⟨i.key, dependency, text, i.config.binaries, force, .pending, none⟩ i := by
  exact ⟨force, m, _, _, Installing.exec_plan_forced hdependency hdestination hforced, List.mem_singleton.2 (htext ▸ rfl)⟩

theorem Plan.IsMadeFor.plans (h : plan.IsMadeFor i) : ∃ force, i.Plans force plan := by
  obtain ⟨force, m, m', i', hrun, hpending⟩ := h
  obtain ⟨-, -, -, -, ⟨-, -, -, hnone⟩ | ⟨made, hplans, hone⟩⟩ := Installing.plan_ok hrun
  · simp [Installation.pending, hnone] at hpending
  · obtain rfl : plan = made := by
      simp only [Installation.pending, hone, List.map_cons, List.map_nil, List.mem_filter, List.mem_singleton] at hpending
      exact hpending.1
    exact ⟨force, hplans⟩

/-- The path of the directory to install in does not lead up. -/
def Installation.LeadsDown (i : Installation) : Prop := ∀ dir, i.directory = .ok dir → Path.Downward dir.toText

/-- A download that does not end well leaves every file as it was. All that may be new are directories above the destination. -/
theorem Installing.download_failed {fields : Fields} {r : Except Error Bool} {j' : Installation}
    (hconfig : WrapConfig.ofFields fields = .ok i.config) (hdown : i.LeadsDown) (hplan : plan.IsMadeFor i) (halone : plan.Alone m)
    (hrun : Installing.exec (Installing.download client plan) j m = ((r, j'), m')) (hfailed : r ≠ .ok true) :
    m.Spared plan.path m' := by
  obtain ⟨force, hplans⟩ := hplan.plans
  rcases Installing.exec_download client j (hplans.sane (WrapConfig.isValid_of_fields hconfig) hdown) halone with
    ⟨r', j₁, m₁, hrun', -, hspared⟩ | ⟨m₁, hrun', -⟩
  · cases hrun.symm.trans hrun'
    exact hspared
  · cases hrun.symm.trans hrun'
    exact absurd rfl hfailed

/-! ## An empty machine -/

/-- A machine with these files, and a server with one archive. -/
def serving (content : Bytes) (files : FileSystem) : Machine where
  host := ⟨"Linux", "x86_64"⟩
  environment := []
  files := files
  temporary := "/"
  package := "/"
  metadataFile := "/"
  server := [("https://h/run.tar", ⟨200, none, [], content, none, none, []⟩)]
  children := []
  races := []
  identifiers := 0
  settings := []
  threshold := 0
  verbose := false
  journal := .empty

theorem answer_serving (content : Bytes) (files : FileSystem) (address : Text) : (serving content files).server.answer address =
    if address = "https://h/run.tar" then ⟨200, none, [], content, none, none, []⟩ else Server.notFound := by
  by_cases h : address = "https://h/run.tar"
  · subst h
    rw [if_pos rfl, Server.answer, serving, Table.get?, if_pos rfl, Option.getD_some]
  · have hfind : Table.get? address (serving content files).server = none := by
      rw [serving, Table.get?, if_neg (Ne.symm h), Table.get?]
    rw [if_neg h, Server.answer, hfind, Option.getD_none]

/-- The address of the archive is read and written back. -/
theorem url_serving : Url.ofRequest "https://h/run.tar" = .ok ⟨"https", [], "h", none, "/run.tar", none, none⟩ ∧
    Url.render ⟨"https", [], "h", none, "/run.tar", none, none⟩ = "https://h/run.tar" := ⟨rfl, rfl⟩

theorem undisturbed_serving (content : Bytes) (files : FileSystem) : (serving content files).server.Undisturbed := by
  intro address
  rw [answer_serving]
  split <;> rfl

def emptyFiles : FileSystem := ⟨[], 0, []⟩

theorem get?_emptyFiles {l : Location} (hl : l ≠ []) : emptyFiles.get? l = none := get?_of_ne hl

theorem sound_emptyFiles : emptyFiles.Sound := sound_of_nodes nofun nofun nofun

/-- An installation in the machine's root. -/
def hosted (binaries : List Text) (url : Text) : Installation :=
  ⟨⟨"/", binaries, [("linux-x64", url)]⟩, ⟨.null, .null, .null⟩, "linux-x64", [], []⟩

/-- The plan to install it anew. -/
def hostedPlan (binaries : List Text) (url : Text) : Plan :=
  ⟨"linux-x64", ⟨"linux-x64", url, "tar"⟩, "/unpacked_bin/linux-x64", binaries, .bool true, .pending, none⟩

theorem leadsDown_hosted (binaries : List Text) (url : Text) : (hosted binaries url).LeadsDown := by
  intro dir hdir
  obtain rfl := Except.ok.inj hdir
  show Path.Downward (ofText "/" / ("unpacked_bin" : Text)).toText
  decide

theorem path_hostedPlan (binaries : List Text) (url : Text) :
    (hostedPlan binaries url).path = ⟨"/", ["unpacked_bin", "linux-x64"]⟩ := by
  show ofText "/unpacked_bin/linux-x64" = _
  decide

theorem liesIn_unlinked {files : FileSystem} {d : Location} (hfree : ∀ target, files.get? ["unpacked_bin"] ≠ some (.link target))
    (h : files.LiesIn ⟨"/", ["unpacked_bin", "linux-x64"]⟩ d) : d = ["unpacked_bin"] := by
  obtain ⟨n, hleads⟩ := h
  have horigin : files.origin (FilePath.toText ⟨"/", ["unpacked_bin", "linux-x64"]⟩) = [] := by rw [origin, if_pos (by decide)]
  rw [horigin] at hleads
  have hstep : files.Leads 0 [] ["unpacked_bin"] ["unpacked_bin"] :=
    .step ⟨by decide, by decide⟩ (by decide) (fun hlink => hlink.elim hfree) (.nil _)
  exact (Follows.deterministic hleads hstep).2

theorem unlinked_emptyFiles (target : Text) : emptyFiles.get? ["unpacked_bin"] ≠ some (.link target) :=
  fun ht => by cases (get?_emptyFiles (l := ["unpacked_bin"]) (by decide)).symm.trans ht

theorem isDirect_emptyFiles : emptyFiles.IsDirect ⟨"/", ["unpacked_bin", "linux-x64"]⟩ := by
  intro d hd
  obtain rfl := liesIn_unlinked unlinked_emptyFiles hd
  have horigin : emptyFiles.origin (FilePath.toText ⟨"/", ["unpacked_bin", "linux-x64"]⟩) = [] := by decide
  have hskirts : emptyFiles.Skirts ["unpacked_bin", "linux-x64"] 0 [] ["unpacked_bin"] ["unpacked_bin"] :=
    .step ⟨by decide, by decide⟩ ⟨by decide, by decide⟩ (fun hlink => hlink.elim unlinked_emptyFiles) (.nil _)
  exact ⟨0, by rw [horigin]; exact hskirts⟩

theorem alone_emptyFiles {content : Bytes} {binaries : List Text} {url : Text}
    (hordinary : ∀ content', (serving content emptyFiles).server.Delivers url content' →
      IsOrdinary emptyFiles "/unpacked_bin/linux-x64" "tar" content') :
    (hostedPlan binaries url).Alone (serving content emptyFiles) where
  sound := sound_emptyFiles
  there := isDir_nil
  server := undisturbed_serving content emptyFiles
  races := rfl
  direct := path_hostedPlan binaries url ▸ isDirect_emptyFiles
  free := fun _ _ => get?_emptyFiles child_ne_nil
  ordinary := hordinary

theorem hostDependency_hosted {binaries : List Text} {url : Text} (htype : archiveType url = .ok "tar") :
    (hosted binaries url).hostDependency = .ok ⟨"linux-x64", url, "tar"⟩ := by
  simp only [Installation.hostDependency, WrapConfig.dependency?, hosted, Table.get?, if_true, Dependency.ofUrl, htype]
  rfl

theorem destination_hosted (binaries : List Text) (url : Text) :
    (hosted binaries url).destination = .ok ⟨"/", ["unpacked_bin", "linux-x64"]⟩ := by
  show Except.ok (ofText "/" / ("unpacked_bin" : Text) / ("linux-x64" : Text)) = _
  decide

theorem exec_plan_hosted {binaries : List Text} {url : Text} (htype : archiveType url = .ok "tar") (m : Machine) :
    Installing.exec (Installing.plan (.bool true)) (hosted binaries url) m =
      ((.ok (), (hosted binaries url).planned (hostedPlan binaries url)), m) := by
  have htext : FilePath.toText ⟨"/", ["unpacked_bin", "linux-x64"]⟩ = "/unpacked_bin/linux-x64" := by decide
  rw [Installing.exec_plan_forced (hostDependency_hosted htype) (destination_hosted binaries url) rfl, htext]
  rfl

theorem isMadeFor_hostedPlan {binaries : List Text} {url : Text} (htype : archiveType url = .ok "tar") :
    (hostedPlan binaries url).IsMadeFor (hosted binaries url) :=
  ⟨_, serving [] emptyFiles, _, _, exec_plan_hosted htype _, List.mem_singleton.2 rfl⟩

theorem not_delivers_missing {content : Bytes} : ¬ (serving [] emptyFiles).server.Delivers "https://h/missing.tar" content := by
  have hurl : Url.ofRequest "https://h/missing.tar" = .ok ⟨"https", [], "h", none, "/missing.tar", none, none⟩ := rfl
  have hrender : Url.render ⟨"https", [], "h", none, "/missing.tar", none, none⟩ = "https://h/missing.tar" := rfl
  have hanswer : (serving [] emptyFiles).server.answer "https://h/missing.tar" = Server.notFound := by
    rw [answer_serving, if_neg (by decide)]
  rw [Server.delivers_iff hurl (by rw [hrender, hanswer]; rfl), hrender, hanswer]
  rintro ⟨hstatus, -⟩
  exact absurd hstatus (by decide)


/-- Where there is no such archive, all that is new is the directory above. -/
theorem Installing.download_failed_missing : (serving [] emptyFiles).Spared (hostedPlan ["run"] "https://h/missing.tar").path
    (Installing.exec (Installing.download none (hostedPlan ["run"] "https://h/missing.tar")) (hosted ["run"] "https://h/missing.tar")
      (serving [] emptyFiles)).2 := by
  have hconfig : WrapConfig.ofFields [("dirname", .text "/"), ("binaries", .array [.text "run"]),
      ("urls", .object [("linux-x64", .text "https://h/missing.tar")])] = .ok (hosted ["run"] "https://h/missing.tar").config := rfl
  have hmade : (hostedPlan ["run"] "https://h/missing.tar").IsMadeFor (hosted ["run"] "https://h/missing.tar") :=
    isMadeFor_hostedPlan rfl
  have halone : (hostedPlan ["run"] "https://h/missing.tar").Alone (serving [] emptyFiles) :=
    alone_emptyFiles fun content h => absurd h not_delivers_missing
  obtain ⟨force, hplans⟩ := hmade.plans
  have hsane := hplans.sane (WrapConfig.isValid_of_fields hconfig) (leadsDown_hosted _ _)
  rcases hrun : Installing.exec (Installing.download none (hostedPlan ["run"] "https://h/missing.tar"))
    (hosted ["run"] "https://h/missing.tar") (serving [] emptyFiles) with ⟨⟨r, i'⟩, m'⟩
  refine Installing.download_failed hconfig (leadsDown_hosted _ _) hmade halone hrun ?_
  rcases Installing.exec_download none (hosted ["run"] "https://h/missing.tar") hsane halone with
    ⟨r', j', m'', hrun', hr, -⟩ | ⟨m'', hrun', hperformed⟩
  · cases hrun.symm.trans hrun'
    exact hr
  · cases hperformed with
    | current _ hforced => cases hforced
    | renewed hrenewed =>
      obtain ⟨content, -, hdelivers, -⟩ := hrenewed.tree (by decide)
      exact absurd hdelivers not_delivers_missing

/-- The machine once the archive was asked for. -/
def served (content : Bytes) (files : FileSystem) : Machine :=
  { serving content files with journal := { Journal.empty with requests := [⟨"GET", "https://h/run.tar", "c"⟩] } }

def servedClient : Client := ⟨true, .null, "c"⟩

section

set_option maxRecDepth 100000

variable {content : Bytes} {files opened : FileSystem} {archive : Text} {l : Location} {node : Node}

theorem exec_log_served (origin : Log.Origin) (message : Text) :
    exec (log Log.info origin message) (served content files) = (.ok (), served content files) := rfl

theorem exec_downloadFile_serving (hsend : IsSendable archive)
    (hparent : exec (makeDirectories (Path.parent archive) true) (serving content files) = (.ok (), serving content files))
    (htruncate : files.truncate archive = .ok opened) (hstatus : opened.status archive true = .ok (l, node)) :
    exec (downloadFile (some servedClient) .null "https://h/run.tar" archive) (serving content files) =
      (.ok (), served content (opened.append l content)) := by
  obtain ⟨hurl, hrender⟩ := url_serving
  have hanswer : (serving content files).server.answer (Url.render ⟨"https", [], "h", none, "/run.tar", none, none⟩) =
      ⟨200, none, [], content, none, none, []⟩ := by rw [hrender, answer_serving, if_pos rfl]
  rw [exec_downloadFile_plain servedClient .null hurl rfl hanswer rfl hsend hparent htruncate hstatus, hrender]
  rfl

/-! ## A destination that leads through itself -/

/-- The directory holds a link to where it is itself. -/
def crossing : FileSystem :=
  ⟨[(["d"], .directory 0o755), (["d", "linux-x64"], .directory 0o755), (["d", "linux-x64", "up"], .link "..")], 0, []⟩

/-- An archive with nothing in it. -/
def emptyArchive : Bytes := List.replicate 512 0

/-- What is to be installed through what is installed. -/
def crossed : Installation :=
  ⟨⟨"/", [], [("linux-x64", "https://h/run.tar")]⟩, ⟨.text "/d/linux-x64/up", .null, .null⟩, "linux-x64", [], []⟩

def crossedPlan : Plan :=
  ⟨"linux-x64", ⟨"linux-x64", "https://h/run.tar", "tar"⟩, "/d/linux-x64/up/linux-x64", [], .bool true, .pending, none⟩

def stagingNode : Location × Node := (["d", ".linux-x64-XXXXXXXX"], .directory 0o700)

/-- The files with the staging directory and more. -/
def crossingStaged (more : List (Location × Node)) (next : Nat) : FileSystem := ⟨crossing.nodes ++ stagingNode :: more, next, []⟩

def temporaryNode : Location × Node := (["runwrap-XXXXXXXX"], .directory 0o700)

def archiveNode (content : Bytes) : Location × Node := (["runwrap-XXXXXXXX", "run.tar"], .file 0 0o644 content)

def markerNode : Location × Node := (["d", ".linux-x64-XXXXXXXX", ".source-url"], .file 1 0o644
  [104, 116, 116, 112, 115, 58, 47, 47, 104, 47, 114, 117, 110, 46, 116, 97, 114, 10])

/-- The files once the destination was moved aside: its path leads nowhere then, and that of the staging directory too. -/
def crossingLost : FileSystem :=
  ⟨[(["d"], .directory 0o755), (["d", ".linux-x64-old-00000000000000000000000000000001"], .directory 0o755),
    (["d", ".linux-x64-old-00000000000000000000000000000001", "up"], .link ".."), stagingNode, markerNode], 2, []⟩

/-- The path of the destination leads through the destination. -/
example : crossing.status "/d/linux-x64/up/linux-x64" false = crossing.status "/d/linux-x64" false := by cbv

/-- All but the unpacking of the archive, one step after the other. -/
theorem crossed_requests (content : Bytes) :
    exec (makeAncestry (ofText "/d/linux-x64/up/linux-x64").parent) (serving content crossing) = (.ok (), serving content crossing) ∧
    exec (makeTemporary "/d/linux-x64/up" ".linux-x64-") (serving content crossing) =
      (.ok "/d/linux-x64/up/.linux-x64-XXXXXXXX", serving content (crossingStaged [] 0)) ∧
    exec (makeTemporary "/" "runwrap-") (serving content (crossingStaged [] 0)) =
      (.ok "/runwrap-XXXXXXXX", serving content (crossingStaged [temporaryNode] 0)) ∧
    exec (downloadFile (some servedClient) .null "https://h/run.tar" "/runwrap-XXXXXXXX/run.tar")
        (serving content (crossingStaged [temporaryNode] 0)) =
      (.ok (), served content (crossingStaged [temporaryNode, archiveNode content] 1)) ∧
    exec (discard "/runwrap-XXXXXXXX") (served content (crossingStaged [temporaryNode, archiveNode content] 1)) =
      (.ok (), served content (crossingStaged [] 1)) ∧
    exec (Installation.writeMarker (ofText "/d/linux-x64/up/.linux-x64-XXXXXXXX") "https://h/run.tar")
      (served content (crossingStaged [] 1)) = (.ok (), served content (crossingStaged [markerNode] 2)) ∧
    exec (crossed.settle crossedPlan.begun (ofText "/d/linux-x64/up/.linux-x64-XXXXXXXX") (ofText "/d/linux-x64/up/linux-x64") 10)
        (served content (crossingStaged [markerNode] 2)) =
      (.error (.download (.notPlaced "linux-x64" "/d/linux-x64/up/linux-x64")), { served content crossingLost with identifiers := 10 }) ∧
    exec (removeTree "/d/linux-x64/up/.linux-x64-XXXXXXXX") { served content crossingLost with identifiers := 10 } =
      (.ok (), { served content crossingLost with identifiers := 10 }) ∧
    crossing.status "/d/linux-x64/up" true = .ok (["d"], .directory 0o755) := by
  refine ⟨by cbv, by cbv, by cbv, ?_, by cbv, by cbv, by cbv, by cbv, by cbv⟩
  have htruncate : (crossingStaged [temporaryNode] 0).truncate "/runwrap-XXXXXXXX/run.tar" =
    .ok (crossingStaged [temporaryNode, archiveNode []] 1) := by cbv
  have hstatus : (crossingStaged [temporaryNode, archiveNode []] 1).status "/runwrap-XXXXXXXX/run.tar" true =
    .ok (["runwrap-XXXXXXXX", "run.tar"], .file 0 0o644 []) := by cbv
  have happend : (crossingStaged [temporaryNode, archiveNode []] 1).append ["runwrap-XXXXXXXX", "run.tar"] content =
    crossingStaged [temporaryNode, archiveNode content] 1 := by cbv
  rw [exec_downloadFile_serving ⟨_, rfl, by decide⟩ (by cbv) htruncate hstatus, happend]

theorem members_emptyArchive : Tar.members false emptyArchive = .ok ([], .plain emptyArchive 512) := by cbv

theorem crossed_extractArchive : exec (extractArchive "/runwrap-XXXXXXXX/run.tar" "/d/linux-x64/up/.linux-x64-XXXXXXXX" "tar")
      (served emptyArchive (crossingStaged [temporaryNode, archiveNode emptyArchive] 1)) =
    (.ok (), served emptyArchive (crossingStaged [temporaryNode, archiveNode emptyArchive] 1)) := by
  have hmembers := members_emptyArchive
  generalize emptyArchive = content at hmembers ⊢
  exact exec_extractArchive_tar hmembers (by cbv) (by cbv) (by cbv) (by cbv)

theorem crossed_downloadArchive :
    exec (downloadArchive (some servedClient) .null "https://h/run.tar" "/d/linux-x64/up/.linux-x64-XXXXXXXX" "tar")
        (serving emptyArchive (crossingStaged [] 0)) =
      (.ok (), served emptyArchive (crossingStaged [] 1)) := by
  have hname : Path.join "/runwrap-XXXXXXXX" (archiveName "https://h/run.tar") = "/runwrap-XXXXXXXX/run.tar" := by decide
  obtain ⟨-, -, htemporary, hdownload, hremove, -⟩ := crossed_requests emptyArchive
  rw [downloadArchive, exec_bind_of_ok exec_get]
  refine (exec_bind_of_ok htemporary).trans ?_
  simp only [hname]
  rw [exec_ensure, exec_bind_of_ok hdownload, exec_bind_of_ok (exec_log_served ..), crossed_extractArchive, hremove]

theorem crossed_fill : exec (crossed.fill (some servedClient) crossedPlan.begun (ofText "/d/linux-x64/up/.linux-x64-XXXXXXXX"))
      (serving emptyArchive (crossingStaged [] 0)) =
    (.error (.download (.notPlaced "linux-x64" "/d/linux-x64/up/linux-x64")),
      { served emptyArchive crossingLost with identifiers := 10 }) := by
  have htext : (ofText "/d/linux-x64/up/.linux-x64-XXXXXXXX").toText = "/d/linux-x64/up/.linux-x64-XXXXXXXX" := by decide
  obtain ⟨-, -, -, -, -, hmark, hsettle, -⟩ := crossed_requests emptyArchive
  rw [Installation.fill, htext]
  refine (exec_bind_of_ok crossed_downloadArchive).trans ?_
  refine (exec_bind_of_ok hmark).trans ?_
  exact hsettle

theorem crossed_perform : exec (crossed.perform (some servedClient) crossedPlan.begun) (serving emptyArchive crossing) =
    (.error (.download (.notPlaced "linux-x64" "/d/linux-x64/up/linux-x64")),
      { served emptyArchive crossingLost with identifiers := 10 }) := by
  obtain ⟨hancestry, hstaging, -, -, -, -, -, hremove, -⟩ := crossed_requests emptyArchive
  have htext : (ofText "/d/linux-x64/up/.linux-x64-XXXXXXXX").toText = "/d/linux-x64/up/.linux-x64-XXXXXXXX" := by decide
  rw [Installation.perform]
  refine (exec_bind_of_ok hancestry).trans ((exec_bind_of_ok hstaging).trans ?_)
  rw [exec_bind_of_ok (exec_attempt _), crossed_fill]
  simp only [htext]
  exact exec_bind_of_ok hremove

theorem sound_crossing : crossing.Sound := by
  have hname : ∀ name ∈ [("d" : Text), "linux-x64", "up"], IsEntryName name := by
    intro name hname
    simp only [List.mem_cons, List.not_mem_nil, or_false] at hname
    rcases hname with rfl | rfl | rfl <;> exact ⟨⟨by decide, by decide⟩, by decide, by decide, by decide⟩
  refine sound_of_nodes (fun x hx => ?_) (fun x hx name hin => ?_) fun x hx number hn => ?_ <;>
    simp only [crossing, List.mem_cons, List.not_mem_nil, or_false] at hx
  · rcases hx with rfl | rfl | rfl
    · exact isDir_nil
    · exact ⟨0o755, by decide⟩
    · exact ⟨0o755, by decide⟩
  · refine hname name (List.Sublist.subset ?_ hin)
    rcases hx with rfl | rfl | rfl <;> decide
  · rcases hx with rfl | rfl | rfl <;> cases hn

theorem leadsDown_crossed : crossed.LeadsDown := by
  intro dir hdir
  obtain rfl := Except.ok.inj hdir
  show Path.Downward (ofText "/d/linux-x64/up").toText
  decide

theorem isMadeFor_crossedPlan : crossedPlan.IsMadeFor crossed := by
  have hdependency : crossed.hostDependency = .ok ⟨"linux-x64", "https://h/run.tar", "tar"⟩ := rfl
  have hdestination : crossed.destination = .ok ⟨"/", ["d", "linux-x64", "up", "linux-x64"]⟩ := by
    show Except.ok (ofText "/d/linux-x64/up" / ("linux-x64" : Text)) = _
    decide
  have htext : FilePath.toText ⟨"/", ["d", "linux-x64", "up", "linux-x64"]⟩ = "/d/linux-x64/up/linux-x64" := by decide
  exact Plan.isMadeFor_forced (serving [] crossing) hdependency hdestination htext rfl

theorem liesIn_crossing {d : Location} (h : crossing.LiesIn crossedPlan.path d) : d = ["d"] := by
  obtain ⟨-, -, -, -, -, -, -, -, hstatus⟩ := crossed_requests []
  have hpath : crossedPlan.path = ⟨"/", ["d", "linux-x64", "up", "linux-x64"]⟩ := by
    show ofText "/d/linux-x64/up/linux-x64" = _
    decide
  have hnames : (⟨"/", ["d", "linux-x64", "up", "linux-x64"]⟩ : FilePath).parts.dropLast = Path.names "/d/linux-x64/up" := by decide
  have horigin : crossing.origin (FilePath.toText ⟨"/", ["d", "linux-x64", "up", "linux-x64"]⟩) = crossing.origin "/d/linux-x64/up" := by
    decide
  rw [LiesIn, hpath, hnames, horigin] at h
  exact Denotes.unique h (status_ok sound_crossing.rooted hstatus).1

theorem crossed_download : ∃ i m', Installing.exec (Installing.download (some servedClient) crossedPlan) crossed
    (serving emptyArchive crossing) = ((.ok false, i), m') ∧ m'.files = crossingLost := by
  obtain ⟨i, m', hrun, hquiet⟩ := Installing.download_error crossed (m := serving emptyArchive crossing) rfl crossed_perform rfl (by decide)
  exact ⟨i, m', hrun, hquiet.files⟩

/-- The installation is lost: what stood at the destination is under another name. -/
theorem Installing.download_lost : crossedPlan.IsMadeFor crossed ∧ crossed.LeadsDown ∧ crossing.Sound ∧
    crossing.IsDir ["d", "linux-x64"] ∧ crossing.IsFree crossedPlan.path (crossedPlan.asideName (serving emptyArchive crossing)) ∧
    ∃ i m', Installing.exec (Installing.download (some servedClient) crossedPlan) crossed (serving emptyArchive crossing) =
      ((.ok false, i), m') ∧ m'.files.get? ["d", "linux-x64"] = none ∧
        ¬ (serving emptyArchive crossing).Spared crossedPlan.path m' := by
  have hfree : crossing.IsFree crossedPlan.path (crossedPlan.asideName (serving emptyArchive crossing)) := by
    intro d hd
    obtain rfl := liesIn_crossing hd
    have haside : crossedPlan.asideName (serving emptyArchive crossing) = ".linux-x64-old-00000000000000000000000000000001" := by
      show (ofText "/d/linux-x64/up/linux-x64").asideName (Text.hex 32 1) = _
      cbv
    rw [haside]
    decide
  have hdir : crossing.IsDir ["d", "linux-x64"] := ⟨0o755, by decide⟩
  obtain ⟨i, m', hrun, hfiles⟩ := crossed_download
  have hlost : m'.files.get? ["d", "linux-x64"] = none := by
    rw [hfiles]
    decide
  refine ⟨isMadeFor_crossedPlan, leadsDown_crossed, sound_crossing, hdir, hfree, i, m', hrun, hlost, fun hspared => ?_⟩
  rcases hspared.kept ["d", "linux-x64"] with hsame | ⟨-, hthere, -⟩
  · exact hdir.get?_ne_none (hsame ▸ hlost)
  · exact hthere.get?_ne_none hlost

end

end Prebuilt
