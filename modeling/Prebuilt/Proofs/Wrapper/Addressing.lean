import Prebuilt.Proofs.Install.Trails
import Prebuilt.Proofs.Wrapper.Installing
/-!
Of all the addresses that a wrapper knows, an installation is about one: the one published for the platform. Two runs that agree
on it, and on what is answered along the redirects that start at it, are the same run.
-/
set_option autoImplicit false

namespace Prebuilt

open Action

/-! ## Requests in the course of work on books -/

namespace Installing

variable {α β : Type} {i j : Installation} {m m₁ : Machine} {x : Installing α} {agent : Text} {trail trail' : List Url}

/-- On these books and this machine the work requests the content at these addresses and nothing else. Nothing but the answers for
them is of any consequence, nor is it where archives for other platforms are published. -/
structure Requests (i : Installation) (m : Machine) (x : Installing α) (agent : Text) (trail : List Url) : Prop where
  config : (exec x i m).1.2.config = i.config
  key : (exec x i m).1.2.key = i.key
  server : (exec x i m).2.server = m.server
  requests : (exec x i m).2.journal.requests = m.journal.requests ++ trail.map (Request.toGet agent)
  alike : ∀ urls server requests, Table.get? i.key urls = Table.get? i.key i.config.urls →
    (∀ url ∈ trail, server.answer url.render = m.server.answer url.render) →
      exec x (i.publishing urls) (m.online server requests) = (((exec x i m).1.1, (exec x i m).1.2.publishing urls),
        (exec x i m).2.online server (requests ++ trail.map (Request.toGet agent)))

theorem requests_pure (a : α) (i : Installation) (m : Machine) (agent : Text) : Requests i m (pure a) agent [] where
  config := rfl
  key := rfl
  server := rfl
  requests := (List.append_nil _).symm
  alike _ _ requests _ _ := by rw [List.map_nil, List.append_nil]; rfl

theorem requests_throw (e : Error) (i : Installation) (m : Machine) (agent : Text) :
    Requests i m (throw e : Installing α) agent [] where
  config := rfl
  key := rfl
  server := rfl
  requests := (List.append_nil _).symm
  alike _ _ requests _ _ := by rw [List.map_nil, List.append_nil]; rfl

theorem requests_act {action : Action α} (h : Action.Requests m action agent trail) (i : Installation) :
    Requests i m (act action) agent trail where
  config := by rw [exec_act]
  key := by rw [exec_act]
  server := by rw [exec_act]; exact h.server
  requests := by rw [exec_act]; exact h.requests
  alike urls server requests _ hsame := by rw [exec_act, exec_act, h.alike server requests hsame]

theorem requests_ofExcept (r : Except Error α) (i : Installation) (m : Machine) (agent : Text) :
    Requests i m (ofExcept r) agent [] := requests_act ((offline_ofExcept r).requests_nil m agent) i

/-- The change writes in the books, and does not look at where archives are published. -/
structure Writes (change : Installation → Installation) : Prop where
  config : ∀ i, (change i).config = i.config
  key : ∀ i, (change i).key = i.key
  publishing : ∀ i urls, change (i.publishing urls) = (change i).publishing urls

theorem writes_plans (change : Table Plan → Table Plan) : Writes fun i => { i with plans := change i.plans } :=
  ⟨fun _ => rfl, fun _ => rfl, fun _ _ => rfl⟩

theorem writes_putState (state : DependencyState) : Writes (·.putState state) := ⟨fun _ => rfl, fun _ => rfl, fun _ _ => rfl⟩

theorem writes_keep (plan : Plan) : Writes (·.keep plan) := ⟨fun _ => rfl, fun _ => rfl, fun _ _ => rfl⟩

theorem writes_mark (plan : Plan) (success : Bool) : Writes (·.mark plan success) := ⟨fun _ => rfl, fun _ => rfl, fun _ _ => rfl⟩

theorem Writes.requests {change : Installation → Installation} (h : Writes change) (i : Installation) (m : Machine) (agent : Text) :
    Requests i m (modify change) agent [] where
  config := h.config i
  key := h.key i
  server := rfl
  requests := (List.append_nil _).symm
  alike urls server requests _ _ := by rw [exec_modify, exec_modify, h.publishing, List.map_nil, List.append_nil]

/-- What looks at the books does the same wherever archives for other platforms are published. -/
theorem requests_get_bind {f : Installation → Installing β}
    (hsame : ∀ urls, Table.get? i.key urls = Table.get? i.key i.config.urls → f (i.publishing urls) = f i)
    (hf : Requests i m (f i) agent trail) : Requests i m (get >>= f) agent trail := by
  have hrun : exec (get >>= f) i m = exec (f i) i m := exec_bind_of_ok exec_get
  refine ⟨by rw [hrun, hf.config], by rw [hrun, hf.key], by rw [hrun, hf.server], by rw [hrun, hf.requests], ?_⟩
  intro urls server requests hurls hanswers
  rw [exec_bind_of_ok exec_get, hsame urls hurls, hrun]
  exact hf.alike urls server requests hurls hanswers

theorem Requests.bind_ok {f : α → Installing β} {a : α} (hx : Requests i m x agent trail) (hrun : exec x i m = ((.ok a, j), m₁))
    (hf : Requests j m₁ (f a) agent trail') : Requests i m (x >>= f) agent (trail ++ trail') := by
  have hboth : exec (x >>= f) i m = exec (f a) j m₁ := exec_bind_of_ok hrun
  obtain ⟨hconfig, hkey, hserver, hrequests, halike⟩ := hx
  rw [hrun] at hconfig hkey hserver hrequests
  dsimp only at hconfig hkey hserver hrequests
  refine ⟨by rw [hboth, hf.config, hconfig], by rw [hboth, hf.key, hkey], by rw [hboth, hf.server, hserver],
    by rw [hboth, hf.requests, hrequests, List.map_append, List.append_assoc], fun urls server requests hurls hanswers => ?_⟩
  have hfirst := halike urls server requests hurls fun url hurl => hanswers url (List.mem_append_left _ hurl)
  have hthen := hf.alike urls server (requests ++ trail.map (Request.toGet agent)) (by rw [hkey, hconfig, hurls]) fun url hurl => by
    rw [hserver]
    exact hanswers url (List.mem_append_right _ hurl)
  rw [hrun] at hfirst
  rw [exec_bind_of_ok hfirst, hboth, hthen, List.map_append, List.append_assoc]

theorem Requests.bind_error {f : α → Installing β} {e : Error} (hx : Requests i m x agent trail)
    (hrun : exec x i m = ((.error e, j), m₁)) : Requests i m (x >>= f) agent trail := by
  have hboth : exec (x >>= f) i m = ((.error e, j), m₁) := exec_bind_of_error hrun
  obtain ⟨hconfig, hkey, hserver, hrequests, halike⟩ := hx
  rw [hrun] at hconfig hkey hserver hrequests
  refine ⟨by rw [hboth]; exact hconfig, by rw [hboth]; exact hkey, by rw [hboth]; exact hserver, by rw [hboth]; exact hrequests, ?_⟩
  intro urls server requests hurls hanswers
  have hfirst := halike urls server requests hurls hanswers
  rw [hrun] at hfirst
  rw [exec_bind_of_error hfirst, hboth]

/-- Nothing is requested after the first part. -/
theorem Requests.bind_silent {f : α → Installing β} (hx : Requests i m x agent trail)
    (hf : ∀ a j m₁, exec x i m = ((.ok a, j), m₁) → Requests j m₁ (f a) agent []) : Requests i m (x >>= f) agent trail := by
  rcases hrun : exec x i m with ⟨⟨r, j⟩, m₁⟩
  cases r with
  | ok a => simpa only [List.append_nil] using hx.bind_ok hrun (hf a j m₁ hrun)
  | error e => exact hx.bind_error hrun

/-- Nothing is requested before the second part. -/
theorem Requests.silent_bind {f : α → Installing β} {P : List Url → Prop} (hx : Requests i m x agent []) (hnil : P [])
    (hf : ∀ a j m₁, exec x i m = ((.ok a, j), m₁) → m₁.server = m.server → ∃ trail, P trail ∧ Requests j m₁ (f a) agent trail) :
    ∃ trail, P trail ∧ Requests i m (x >>= f) agent trail := by
  rcases hrun : exec x i m with ⟨⟨r, j⟩, m₁⟩
  cases r with
  | ok a =>
    have hserver := hx.server
    rw [hrun] at hserver
    obtain ⟨trail, htrail, hrequests⟩ := hf a j m₁ hrun hserver
    exact ⟨trail, htrail, hx.bind_ok hrun hrequests⟩
  | error e => exact ⟨[], hnil, hx.bind_error hrun⟩

theorem requests_log (level : Log.Level) (origin : Log.Origin) (message : Text) (i : Installation) (m : Machine) (agent : Text) :
    Requests i m (act (Action.log level origin message)) agent [] :=
  requests_act ((offline_log level origin message).requests_nil m agent) i

/-! ## Planning and downloading -/

/-- Planning requests nothing. -/
theorem requests_plan (force : Json) (i : Installation) (m : Machine) (agent : Text) :
    Requests i m (Installing.plan force) agent [] := by
  refine ((writes_plans fun _ => []).requests i m agent).bind_silent fun _ i₁ m₁ _ => ?_
  refine requests_get_bind (fun urls hurls => ?_) ?_
  · rw [Installation.hostDependency_publishing i₁ urls hurls]
    rfl
  refine (requests_ofExcept _ i₁ m₁ agent).bind_silent fun dependency i₂ m₂ _ => ?_
  refine (requests_ofExcept _ i₂ m₂ agent).bind_silent fun destination i₃ m₃ _ => ?_
  have hclose (current : Bool) (given : Json) (i₄ : Installation) (m₄ : Machine) : Requests i₄ m₄ (if current = true then
        modify (·.putState ⟨i₁.key, .completed, some destination.toText, none⟩)
      else do
        let plan : Plan := ⟨i₁.key, dependency, destination.toText, i₁.config.binaries, given, .pending, none⟩
        modify fun i => { i with plans := Table.put plan.key plan i.plans }
        modify (·.putState ⟨i₁.key, .pending, none, none⟩)) agent [] := by
    cases current with
    | true => exact (writes_putState _).requests i₄ m₄ agent
    | false =>
      exact ((writes_plans (Table.put _ _)).requests i₄ m₄ agent).bind_silent fun _ i₅ m₅ _ => (writes_putState _).requests i₅ m₅ agent
  dsimp only
  generalize (if force.isFalsy then i₁.settings.forceDownload else force) = given
  cases given.isFalsy with
  | true =>
    refine (requests_act ((i₁.conducts_isInstalled conducts_offline dependency).requests_nil m₃ agent) i₃).bind_silent fun current i₄ m₄ _ => ?_
    exact hclose current given i₄ m₄
  | false => exact hclose false given i₃ m₃

/-- The download of a plan requests the trail of its archive. -/
theorem requests_download (client : Option Client) (plan : Plan) (i : Installation) (m : Machine) :
    ∃ trail, m.server.IsTrail plan.dependency.url trail ∧ Requests i m (Installing.download client plan) (agentOf client) trail := by
  have hnil := m.server.isTrail_nil plan.dependency.url
  refine (requests_log _ _ _ i m _).silent_bind hnil fun _ i₁ m₁ _ h₁ => ?_
  refine ((writes_keep plan.begun).requests i₁ m₁ _).silent_bind hnil fun _ i₂ m₂ _ h₂ => ?_
  obtain ⟨trail, htrail, hperform⟩ := i₂.requests_perform client plan.begun m₂
  refine ⟨trail, (h₂.trans h₁) ▸ htrail, requests_get_bind (fun urls _ => by rw [i₂.perform_publishing]) ?_⟩
  refine (requests_act hperform.attempt i₂).bind_silent fun result i₃ m₃ _ => ?_
  cases result with
  | ok _ =>
    refine ((writes_mark _ _).requests i₃ m₃ _).bind_silent fun _ i₄ m₄ _ => ?_
    exact (requests_log _ _ _ i₄ m₄ _).bind_silent fun _ i₅ m₅ _ => requests_pure true i₅ m₅ _
  | error e =>
    have hreport (message : Text) : Requests i₃ m₃ (do
        act (Action.log Log.error Installing.downloading message)
        modify (·.mark { plan.begun with errorMessage := some message } false)
        return false) (agentOf client) [] := by
      refine (requests_log _ _ _ i₃ m₃ _).bind_silent fun _ i₄ m₄ _ => ?_
      exact ((writes_mark _ _).requests i₄ m₄ _).bind_silent fun _ i₅ m₅ _ => requests_pure false i₅ m₅ _
    dsimp only
    cases e.isDownloadFailure with
    | true => exact hreport _
    | false => exact (requests_throw e i₃ m₃ _).bind_error (exec_throw e)

/-- Books with one plan at most that is still to be done request its trail. -/
theorem requests_downloadAll (client : Option Client) (m : Machine) {address : Text}
    (h : i.pending = [] ∨ ∃ plan, i.pending = [plan] ∧ plan.dependency.url = address) :
    ∃ trail, m.server.IsTrail address trail ∧ Requests i m (Installing.downloadAll client) (agentOf client) trail := by
  rcases h with hpending | ⟨plan, hpending, rfl⟩
  · refine ⟨[], m.server.isTrail_nil address, requests_get_bind (fun _ _ => rfl) ?_⟩
    rw [hpending]
    exact (requests_log _ _ _ i m _).bind_silent fun _ i₁ m₁ _ => requests_pure true i₁ m₁ _
  · obtain ⟨trail, htrail, hdownload⟩ := requests_download client plan i m
    refine ⟨trail, htrail, requests_get_bind (fun _ _ => rfl) ?_⟩
    rw [hpending]
    have hall : ([plan].mapM (Installing.download client) >>= fun results => pure (results.all id) : Installing Bool) =
        Installing.download client plan >>= fun done => pure ([done].all id) := by simp
    dsimp only
    rw [hall]
    exact hdownload.bind_silent fun done i₁ m₁ _ => requests_pure _ i₁ m₁ _

end Installing

/-! ## One installation -/

namespace Wrapper

variable {w : Wrapper} {i : Installation} {m : Machine}

/-- The wrapper, had other archives been published. -/
def publishing (w : Wrapper) (urls : List (Text × Text)) : Wrapper := { w with config := { w.config with urls } }

/-- The work for an installation requests the trail of the platform's archive, and nothing where there is none. -/
theorem requests_work (w : Wrapper) (force : Json) (i : Installation) (m : Machine) :
    ∃ trail, (trail = [] ∨ ∃ address, Table.get? i.key i.config.urls = some address ∧ m.server.IsTrail address trail) ∧
      Installing.Requests i m (w.work force) (agentOf w.client) trail := by
  have hplanning := Installing.requests_plan force i m (agentOf w.client)
  refine hplanning.silent_bind (.inl rfl) fun _ i₁ m₁ hrun h₁ => ?_
  obtain ⟨r, j, hrun', hending⟩ := Installing.plan_ending force i m
  cases hrun.symm.trans hrun'
  have hpending : ∃ address, Table.get? i.key i.config.urls = some address ∧
      (i₁.pending = [] ∨ ∃ plan, i₁.pending = [plan] ∧ plan.dependency.url = address) := by
    cases hending with
    | settled hdependency _ _ => exact ⟨_, i.url_of_hostDependency hdependency, .inl rfl⟩
    | planned hdependency _ => exact ⟨_, i.url_of_hostDependency hdependency, .inr ⟨_, rfl, rfl⟩⟩
  obtain ⟨address, haddress, hpending⟩ := hpending
  obtain ⟨trail, htrail, hdownload⟩ := Installing.requests_downloadAll w.client m hpending
  refine ⟨trail, .inr ⟨address, haddress, htrail⟩, hdownload.bind_silent fun done i₂ m₂ _ => ?_⟩
  cases done with
  | false =>
    exact Installing.requests_get_bind (fun _ _ => rfl) ((Installing.requests_throw _ i₂ m₂ _).bind_error (Installing.exec_throw _))
  | true =>
    refine Installing.requests_get_bind (fun _ _ => rfl) ?_
    refine (Installing.requests_log _ _ _ i₂ m₂ _).bind_silent fun _ i₃ m₃ _ => ?_
    exact Installing.requests_get_bind (fun _ _ => rfl) (Installing.requests_ofExcept _ i₃ m₃ _)

theorem offline_currentSettings (w : Wrapper) : Offline w.currentSettings := by
  refine offline_get_bind (fun m => ?_) fun _ _ _ => rfl
  split
  · exact offline_pure _
  · refine offline_get_bind (fun m => (offline_ofExcept _).bind fun settings => ?_) fun _ _ _ => rfl
    exact Offline.bind (fun _ _ _ => rfl) fun _ => offline_pure settings

/-- An installation begins with the settings, whatever is published. -/
theorem exec_install_publishing (w : Wrapper) (urls : List (Text × Text)) (force : Json) (m : Machine) (server : Server)
    (requests : List Request) : (∃ e m₁, exec (w.install force) m = (.error e, m₁) ∧ m₁.server = m.server ∧
        m₁.journal.requests = m.journal.requests ∧
        exec ((w.publishing urls).install force) (m.online server requests) = (.error e, m₁.online server requests)) ∨
      ∃ i m₁, i.config = w.config ∧ i.key = w.keyOn m.host ∧ m₁.server = m.server ∧ m₁.journal.requests = m.journal.requests ∧
        exec (w.install force) m = ((Installing.exec (w.work force) i m₁).1.1, (Installing.exec (w.work force) i m₁).2) ∧
        exec ((w.publishing urls).install force) (m.online server requests) =
          ((Installing.exec (w.work force) (i.publishing urls) (m₁.online server requests)).1.1,
            (Installing.exec (w.work force) (i.publishing urls) (m₁.online server requests)).2) := by
  have hserver := w.offline_currentSettings.server m
  have hrequests := w.offline_currentSettings.requests m
  have hagain := w.offline_currentSettings m server requests
  rcases hrun : exec w.currentSettings m with ⟨r, m₁⟩
  rw [hrun] at hserver hrequests hagain
  cases r with
  | error e =>
    have hfirst : exec w.installation m = (.error e, m₁) := exec_bind_of_error hrun
    have hsecond : exec (w.publishing urls).installation (m.online server requests) = (.error e, m₁.online server requests) :=
      exec_bind_of_error hagain
    exact .inl ⟨e, m₁, exec_install_error hfirst force, hserver, hrequests, exec_install_error hsecond force⟩
  | ok settings =>
    have hsame : exec (w.publishing urls).currentSettings (m.online server requests) = (.ok settings, m₁.online server requests) := hagain
    exact .inr ⟨_, m₁, rfl, rfl, hserver, hrequests, exec_install (exec_installation hrun) force,
      exec_install (exec_installation hsame) force⟩

/-- Of all addresses only the one for the platform matters, and of all answers only those along the redirects that start at it:
another table that has the same for the platform, and other servers that answer the same along the way, make no difference to
the result, to what is logged and requested, or to the file system. Every request is for the content; the first one is for the
platform's address, and every further one is where the answer for the one before leads. -/
theorem install_determined (w : Wrapper) (force : Json) (m : Machine) (urls : List (Text × Text)) (server : Server)
    (hurls : Table.get? (w.keyOn m.host) urls = Table.get? (w.keyOn m.host) w.config.urls)
    (hanswers : ∀ address first url, Table.get? (w.keyOn m.host) w.config.urls = some address → Url.ofRequest address = .ok first →
      m.server.LeadsTo first url → server.answer url.render = m.server.answer url.render) :
    exec ((w.publishing urls).install force) { m with server } =
        ((exec (w.install force) m).1, { (exec (w.install force) m).2 with server }) ∧
      ∃ (agent : Text) (trail : List Url), (exec (w.install force) m).2.journal.requests = m.journal.requests ++ trail.map (Request.toGet agent) ∧
        trail.IsChain m.server.Redirects ∧ ∀ first ∈ trail.head?, ∃ address,
          Table.get? (w.keyOn m.host) w.config.urls = some address ∧ Url.ofRequest address = .ok first := by
  rcases w.exec_install_publishing urls force m server m.journal.requests with
    ⟨e, m₁, hrun, -, hrequests, hother⟩ | ⟨i, m₁, hconfig, hkey, hserver, hrequests, hrun, hother⟩
  · refine ⟨?_, [], [], ?_, .nil, nofun⟩
    · rw [hrun]
      refine hother.trans ?_
      rw [← hrequests]
      rfl
    · rw [hrun, hrequests, List.map_nil, List.append_nil]
  · rw [← hkey, ← hconfig] at hurls hanswers ⊢
    obtain ⟨trail, htrail, hwork⟩ := w.requests_work force i m₁
    have hpath : trail.IsChain m.server.Redirects ∧ ∀ first ∈ trail.head?, ∃ address,
        Table.get? i.key i.config.urls = some address ∧ Url.ofRequest address = .ok first := by
      rcases htrail with rfl | ⟨address, haddress, htrail⟩
      · exact ⟨.nil, nofun⟩
      · exact ⟨hserver ▸ htrail.steps, fun first h => ⟨address, haddress, htrail.first first h⟩⟩
    have hsame : ∀ url ∈ trail, server.answer url.render = m₁.server.answer url.render := by
      intro url hurl
      rcases htrail with rfl | ⟨address, haddress, htrail⟩
      · cases hurl
      · obtain ⟨first, hfirst, hleads⟩ := htrail.leadsTo hurl
        rw [hserver] at hleads ⊢
        exact hanswers address first url haddress hfirst hleads
    have hwork' := hwork.alike urls server m.journal.requests hurls hsame
    refine ⟨?_, agentOf w.client, trail, ?_, hpath⟩
    · rw [hrun]
      refine hother.trans ?_
      rw [hwork', ← hrequests, ← hwork.requests]
      rfl
    · rw [hrun, ← hrequests]
      exact hwork.requests

/-- A wrapper that also knows an archive for another platform, on a machine where that archive is published too. -/
theorem install_determined_other :
    exec (((wrapping ["run"] "https://h/run.tar").publishing
        [("darwin-x64", "https://h/other.tar"), ("linux-x64", "https://h/run.tar")]).install (.bool true))
      { serving [] emptyFiles with server := ("https://h/other.tar", Server.notFound) :: (serving [] emptyFiles).server } =
    ((exec ((wrapping ["run"] "https://h/run.tar").install (.bool true)) (serving [] emptyFiles)).1,
      { (exec ((wrapping ["run"] "https://h/run.tar").install (.bool true)) (serving [] emptyFiles)).2 with
        server := ("https://h/other.tar", Server.notFound) :: (serving [] emptyFiles).server }) := by
  obtain ⟨hurl, hrender⟩ := url_serving
  refine ((wrapping ["run"] "https://h/run.tar").install_determined (.bool true) (serving [] emptyFiles)
    [("darwin-x64", "https://h/other.tar"), ("linux-x64", "https://h/run.tar")]
    (("https://h/other.tar", Server.notFound) :: (serving [] emptyFiles).server) rfl ?_).1
  intro address first url haddress hfirst hleads
  obtain rfl : ("https://h/run.tar" : Text) = address := Option.some.inj haddress
  cases hurl.symm.trans hfirst
  have hfinal : (Reply.ofAnswer .get ((serving [] emptyFiles).server.answer "https://h/run.tar")).location = none := by
    rw [answer_serving, if_pos rfl]
    rfl
  rw [Server.eq_of_leadsTo (by rw [hrender]; exact hfinal) hleads, hrender]
  rfl

end Wrapper

end Prebuilt
