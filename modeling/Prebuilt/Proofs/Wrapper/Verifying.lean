import Mathlib.Data.List.Forall2
import Prebuilt.Proofs.Http.Failing
import Prebuilt.Proofs.Wrapper.Running
/-!
What is found out about the addresses of a wrapper. Each address is judged by what a request for it comes to, and by nothing
else: a fault of the transport at one of them counts against that one alone, and the others are asked about in their turn.
-/
set_option autoImplicit false

namespace Prebuilt

open Action

variable {w : Wrapper} {client : Client} {m m' m₁ : Machine} {address key : Text} {entry : Text × Text} {entries : List (Text × Text)}

namespace Machine

/-- What was noted before is of no consequence for the requests. -/
theorem Noted.sent (h : m.Noted m') (requests : List Request) : (m.sent requests).Noted (m'.sent requests) := by
  unfold Noted at *
  rw [h]
  rfl

end Machine

/-- A message can be logged whatever the threshold. -/
theorem Action.exec_log_plain (level : Log.Level) (origin : Log.Origin) {message : Text} (h : message.isString = true) (m : Machine) :
    ∃ m', exec (log level origin message) m = (.ok (), m') ∧ m.Noted m' := by
  obtain ⟨m', hlog⟩ := log_ok_iff.2 fun _ : Log.isEnabled m.threshold level = true => h
  exact ⟨m', hlog, (noted_log level origin message).after m.noted_refl hlog⟩

namespace Wrapper

/-! ## One address -/

/-- What is said of an address. -/
def judge (server : Server) (client : Client) (address : Text) : Bool :=
  match server.headStatus client address with
  | .ok status => status = 200
  | .error _ => false

theorem judge_iff {server : Server} : judge server client address = true ↔ server.Publishes client address := by
  rw [Server.publishes_iff, judge]
  cases server.headStatus client address with
  | ok status => simp
  | error e => simp

/-- What is done about one entry of the table. -/
def verifyEntry (client : Client) (entry : Text × Text) : Action (Text × Bool) := do
  let published ← isPublished client entry.2
  Action.log (if published then Log.info else Log.warning) verifying
    (Text.join [entry.1, ": ", entry.2, if published then " ok" else " missing"])
  return (entry.1, published)

/-- The requests that are sent for an address. -/
def requestsFor (server : Server) (client : Client) (address : Text) : List Request :=
  (server.headTrail client address).map (client.request .head)

theorem isPublished_ok {published : Bool} (hquiet : m.server.Undisturbed)
    (h : exec (isPublished client address) m = (.ok published, m')) :
    published = judge m.server client address ∧ (m.sent (requestsFor m.server client address)).Noted m' := by
  have hstatus := client.exec_headStatus hquiet address
  rw [isPublished, exec_bind_of_ok (exec_attempt _), hstatus] at h
  rw [judge]
  cases hresult : m.server.headStatus client address with
  | ok status =>
    rw [hresult] at h
    cases h
    exact ⟨rfl, Machine.noted_refl _⟩
  | error e =>
    rw [hresult] at h
    cases e with
    | transport fault =>
      obtain ⟨_, m₁, hlog, hret⟩ := bind_ok.1 h
      cases hret
      exact ⟨rfl, (noted_log _ _ _).after (Machine.noted_refl _) hlog⟩
    | _ => cases h

theorem isPublished_returns (hquiet : m.server.Undisturbed) (haddress : address.isString = true)
    (hfails : Yields Error.IsOfTransport (m.server.headStatus client address)) :
    ∃ published m', exec (isPublished client address) m = (.ok published, m') := by
  have hstatus := client.exec_headStatus hquiet address
  rw [isPublished, exec_bind_of_ok (exec_attempt _), hstatus]
  cases hresult : m.server.headStatus client address with
  | ok status => exact ⟨_, _, rfl⟩
  | error e =>
    obtain ⟨fault, rfl, hplain⟩ := hfails e hresult
    have hline : (Text.join ["Error checking ", address, ": ", fault.message]).isString = true := by
      simp only [Text.isString_join, List.all_cons, List.all_nil, haddress, hplain, Text.isString_chars, Bool.and_self]
    obtain ⟨m₁, hlog, -⟩ := exec_log_plain Log.warning verifying hline _
    exact ⟨false, m₁, exec_bind_of_ok hlog⟩

theorem verifyEntry_ok {result : Text × Bool} (hquiet : m.server.Undisturbed)
    (h : exec (verifyEntry client entry) m = (.ok result, m')) : result = (entry.1, judge m.server client entry.2) ∧
      (m.sent (requestsFor m.server client entry.2)).Noted m' := by
  obtain ⟨published, m₁, hpublished, h⟩ := bind_ok.1 h
  obtain ⟨_, m₂, hlog, hret⟩ := bind_ok.1 h
  obtain ⟨rfl, hnoted⟩ := isPublished_ok hquiet hpublished
  cases hret
  exact ⟨rfl, (noted_log _ _ _).after hnoted hlog⟩

theorem verifyEntry_returns (hquiet : m.server.Undisturbed) (hkey : entry.1.isString = true) (haddress : entry.2.isString = true)
    (hfails : Yields Error.IsOfTransport (m.server.headStatus client entry.2)) :
    ∃ result m', exec (verifyEntry client entry) m = (.ok result, m') := by
  obtain ⟨published, m₁, hpublished⟩ := isPublished_returns hquiet haddress hfails
  have hline (ending : String) : (Text.join [entry.1, ": ", entry.2, ending]).isString = true := by
    simp only [Text.isString_join, List.all_cons, List.all_nil, hkey, haddress, Text.isString_chars, Bool.and_self]
  rw [verifyEntry, exec_bind_of_ok hpublished]
  cases published with
  | true =>
    obtain ⟨m₂, hlog, -⟩ := exec_log_plain Log.info verifying (hline " ok") m₁
    exact ⟨_, m₂, exec_bind_of_ok hlog⟩
  | false =>
    obtain ⟨m₂, hlog, -⟩ := exec_log_plain Log.warning verifying (hline " missing") m₁
    exact ⟨_, m₂, exec_bind_of_ok hlog⟩

/-! ## All addresses -/

/-- The requests that are sent for the addresses of a table, in its order. -/
def requestsForAll (server : Server) (client : Client) (entries : List (Text × Text)) : List Request :=
  entries.flatMap fun entry => requestsFor server client entry.2

/-- What is returned for a table is what each of its addresses comes to. The induction is on the table, and the requests for
the first entry leave the servers as they were. -/
theorem verifyEntries_ok {results : List (Text × Bool)} (hquiet : m.server.Undisturbed)
    (h : exec (entries.mapM (verifyEntry client)) m = (.ok results, m')) :
    results = entries.map (fun entry => (entry.1, judge m.server client entry.2)) ∧
      (m.sent (requestsForAll m.server client entries)).Noted m' := by
  induction entries generalizing m results with
  | nil =>
    cases h
    rw [requestsForAll, List.flatMap_nil, Machine.sent_nil]
    exact ⟨rfl, Machine.noted_refl _⟩
  | cons entry rest ih =>
    rw [List.mapM_cons] at h
    obtain ⟨result, m₁, hentry, h⟩ := bind_ok.1 h
    obtain ⟨others, m₂, hrest, hret⟩ := bind_ok.1 h
    cases hret
    obtain ⟨rfl, hnoted⟩ := verifyEntry_ok hquiet hentry
    have hserver : m₁.server = m.server := hnoted.server
    obtain ⟨rfl, hnoted'⟩ := ih (hserver ▸ hquiet) hrest
    rw [hserver] at hnoted' ⊢
    refine ⟨rfl, ?_⟩
    have hsent := (hnoted.sent (requestsForAll m.server client rest)).trans hnoted'
    rwa [Machine.sent_sent] at hsent

theorem verifyEntries_returns (hquiet : m.server.Undisturbed)
    (hplain : ∀ entry ∈ entries, entry.1.isString = true ∧ entry.2.isString = true)
    (hfails : ∀ entry ∈ entries, Yields Error.IsOfTransport (m.server.headStatus client entry.2)) :
    ∃ results m', exec (entries.mapM (verifyEntry client)) m = (.ok results, m') := by
  induction entries generalizing m with
  | nil => exact ⟨[], m, rfl⟩
  | cons entry rest ih =>
    obtain ⟨hfirst, hothers⟩ := List.forall_mem_cons.1 hplain
    obtain ⟨hfails, hfails'⟩ := List.forall_mem_cons.1 hfails
    obtain ⟨result, m₁, hentry⟩ := verifyEntry_returns hquiet hfirst.1 hfirst.2 hfails
    have hserver : m₁.server = m.server := (verifyEntry_ok hquiet hentry).2.server
    obtain ⟨results, m₂, hrest⟩ := ih (hserver ▸ hquiet) hothers (hserver ▸ hfails')
    refine ⟨result :: results, m₂, ?_⟩
    rw [List.mapM_cons, exec_bind_of_ok hentry, exec_bind_of_ok hrest]
    rfl

/-! ## The client -/

/-- The settings that are in force on a machine. -/
def settingsOn (w : Wrapper) (m : Machine) : Except Error Settings :=
  match w.settings.or (Table.get? w.name m.settings) with
  | some settings => .ok settings
  | none => Settings.ofEnvironment m.environment

/-- The client that the addresses are asked about with: the one given, or one of its own. -/
def verifier (w : Wrapper) (m : Machine) : Except Error Client :=
  match w.client with
  | some client => .ok client
  | none => (w.settingsOn m).map fun settings => ⟨true, settings.timeout, Client.agentName⟩

/-- Nothing is different but the settings that were read and the clients that were made. -/
def Equips (m m' : Machine) : Prop := m' = { m with settings := m'.settings, journal := { m.journal with clients := m'.journal.clients } }

theorem exec_currentSettings (w : Wrapper) (m : Machine) :
    ∃ m', exec w.currentSettings m = (w.settingsOn m, m') ∧ m' = { m with settings := m'.settings } := by
  rw [exec_currentSettings_eq, settingsOn]
  cases w.settings.or (Table.get? w.name m.settings) with
  | some settings => exact ⟨m, rfl, rfl⟩
  | none =>
    dsimp only
    cases Settings.ofEnvironment m.environment with
    | error e => exact ⟨m, rfl, rfl⟩
    | ok settings => exact ⟨_, rfl, rfl⟩

/-- The table is gone through once there is a client. -/
theorem exec_verifyUrls (w : Wrapper) (m : Machine) : ∃ m₁, Equips m m₁ ∧ exec w.verifyUrls m = match w.verifier m with
    | .error e => (.error e, m₁)
    | .ok client => exec (w.config.urls.mapM (verifyEntry client)) m₁ := by
  rw [verifyUrls, verifier]
  cases w.client with
  | some client => exact ⟨m, rfl, rfl⟩
  | none =>
    obtain ⟨m₁, hsettings, hworld⟩ := w.exec_currentSettings m
    have hopened (settings : Settings) : exec (Client.opened settings.timeout) m₁ = (.ok ⟨true, settings.timeout, Client.agentName⟩,
        { m₁ with journal := { m₁.journal with
          clients := m₁.journal.clients ++ [⟨true, settings.timeout, Client.agentName⟩] } }) := rfl
    cases hresult : w.settingsOn m with
    | error e =>
      rw [hresult] at hsettings
      exact ⟨m₁, by rw [Equips, hworld], exec_bind_of_error hsettings⟩
    | ok settings =>
      rw [hresult] at hsettings
      refine ⟨_, ?_, (exec_bind_of_ok hsettings).trans (exec_bind_of_ok (hopened settings))⟩
      rw [Equips, hworld]

theorem Equips.server (h : Equips m m') : m'.server = m.server := by rw [h]

theorem Equips.files (h : Equips m m') : m'.files = m.files := by rw [h]

theorem Equips.requests (h : Equips m m') : m'.journal.requests = m.journal.requests := by rw [h]

/-- What is returned depends on the servers alone. -/
theorem verifyUrls_ok {results : List (Text × Bool)} (hquiet : m.server.Undisturbed) (h : exec w.verifyUrls m = (.ok results, m')) :
    ∃ client, w.verifier m = .ok client ∧
      results = w.config.urls.map (fun entry => (entry.1, judge m.server client entry.2)) ∧ m'.files = m.files ∧
        m'.journal.requests = m.journal.requests ++ requestsForAll m.server client w.config.urls := by
  obtain ⟨m₁, hworld, hrun⟩ := w.exec_verifyUrls m
  rw [hrun] at h
  cases hclient : w.verifier m with
  | error e =>
    rw [hclient] at h
    cases h
  | ok client =>
    rw [hclient] at h
    obtain ⟨rfl, hnoted⟩ := verifyEntries_ok (hworld.server ▸ hquiet) h
    refine ⟨client, rfl, by rw [hworld.server], hnoted.files.trans hworld.files, ?_⟩
    rw [← hworld.requests, ← hworld.server]
    exact hnoted.requests

/-- Each address of an accepted table is judged by what a request for its head comes to, if the servers fail with faults of the
transport alone and each redirect leads to an address or is refused. The requests go from address to address in the order of the
table, no file changes, and what other servers answer for addresses off the way to one entry is of no consequence for it. -/
theorem verifyUrls_judges {fields : Fields} (hconfig : WrapConfig.ofFields fields = .ok w.config) (hclient : w.verifier m = .ok client)
    (hquiet : m.server.Undisturbed) (htransported : m.server.IsTransported)
    (hplain : ∀ entry ∈ w.config.urls, entry.2.isString = true)
    (hparsed : ∀ entry ∈ w.config.urls, ∃ url, Url.ofRequest entry.2 = .ok url)
    (hpassable : ∀ entry ∈ w.config.urls, m.server.IsPassable .head (m.server.headTrail client entry.2)) :
    ∃ results m', exec w.verifyUrls m = (.ok results, m') ∧
      List.Forall₂ (fun (entry : Text × Text) (result : Text × Bool) => result.1 = entry.1 ∧ (result.2 = true ↔ m.server.Publishes client entry.2))
        w.config.urls results ∧
      m'.files = m.files ∧
      m'.journal.requests = m.journal.requests ++ requestsForAll m.server client w.config.urls ∧
      (∀ entry ∈ w.config.urls, ∃ url, Url.ofRequest entry.2 = .ok url ∧
        m.server.IsCourse .head url (m.server.headTrail client entry.2)) ∧
      ∀ server' results' m₂, server'.Undisturbed → exec w.verifyUrls { m with server := server' } = (.ok results', m₂) →
        ∀ (n : Nat) (entry : Text × Text), w.config.urls[n]? = some entry →
          (∀ url ∈ m.server.headTrail client entry.2, server'.answer url.render = m.server.answer url.render) →
            results'[n]? = results[n]? := by
  have hvalid := WrapConfig.isValid_of_fields hconfig
  have hstrings : ∀ entry ∈ w.config.urls, entry.1.isString = true ∧ entry.2.isString = true := fun entry hentry =>
    ⟨(FileSystem.isPlatformName_of_isKnownKey (hvalid.entry hentry).1).isString, hplain entry hentry⟩
  have hfails : ∀ entry ∈ w.config.urls, Yields Error.IsOfTransport (m.server.headStatus client entry.2) := fun entry hentry => by
    obtain ⟨url, hurl⟩ := hparsed entry hentry
    exact Server.yields_headStatus htransported hurl (hpassable entry hentry)
  obtain ⟨m₁, hworld, hrun⟩ := w.exec_verifyUrls m
  rw [hclient] at hrun
  obtain ⟨results, m', hresults⟩ : ∃ results m', exec (w.config.urls.mapM (verifyEntry client)) m₁ = (.ok results, m') :=
    verifyEntries_returns (hworld.server ▸ hquiet) hstrings (hworld.server ▸ hfails)
  obtain ⟨client', hclient', rfl, hfiles, hrequests⟩ := verifyUrls_ok hquiet (hrun.trans hresults)
  obtain rfl : client = client' := Except.ok.inj (hclient.symm.trans hclient')
  refine ⟨_, m', hrun.trans hresults, ?_, hfiles, hrequests, fun entry hentry => ?_, ?_⟩
  · rw [List.forall₂_map_right_iff]
    exact List.forall₂_same.2 fun entry _ => ⟨rfl, judge_iff⟩
  · obtain ⟨url, hurl⟩ := hparsed entry hentry
    exact ⟨url, hurl, Server.isCourse_headTrail hurl⟩
  · intro server' results' m₂ hquiet' h' n entry hentry hsame
    obtain ⟨client', hclient', rfl, -, -⟩ := verifyUrls_ok hquiet' h'
    obtain rfl : client = client' := Except.ok.inj (hclient.symm.trans hclient')
    simp only [List.getElem?_map, hentry, Option.map_some]
    rw [judge, judge, Server.headStatus_congr hsame]

/-! ## One address that is published and one that is not -/

/-- A wrapper that asks with a client of its caller. -/
def asking (urls : List (Text × Text)) : Wrapper := ⟨"asking", ⟨"/", ["run"], urls⟩, none, some servedClient, none⟩

/-- A machine with servers and no files. -/
def facing (server : Server) : Machine := { serving [] emptyFiles with server := server }

def askedUrls : List (Text × Text) := [("linux-x64", "https://h/run.tar"), ("linux-arm64", "https://h/gone.tar")]

/-- One address is answered, and the connection for the other one is refused. -/
def askedServer : Server := [("https://h/run.tar", ⟨200, none, [], [], none, none, []⟩),
  ("https://h/gone.tar", ⟨200, none, [], [], some ⟨"ConnectError", "refused"⟩, none, []⟩)]

theorem parsed_askedUrls : ∀ entry ∈ askedUrls, ∃ url, Url.ofRequest entry.2 = .ok url := by
  exact List.forall_mem_cons.2 ⟨⟨⟨"https", [], "h", none, "/run.tar", none, none⟩, rfl⟩,
    List.forall_mem_cons.2 ⟨⟨⟨"https", [], "h", none, "/gone.tar", none, none⟩, rfl⟩, List.forall_mem_nil _⟩⟩

theorem verifyUrls_judges_refused : ∃ results m', exec (asking askedUrls).verifyUrls (facing askedServer) = (.ok results, m') ∧
    List.Forall₂ (fun (entry : Text × Text) (result : Text × Bool) =>
      result.1 = entry.1 ∧ (result.2 = true ↔ askedServer.Publishes servedClient entry.2)) askedUrls results ∧
    m'.files = emptyFiles := by
  have hconfig : WrapConfig.ofFields [("dirname", .text "/"), ("binaries", .array [.text "run"]),
      ("urls", .object [("linux-x64", .text "https://h/run.tar"), ("linux-arm64", .text "https://h/gone.tar")])] =
        .ok (asking askedUrls).config := rfl
  have htransported : askedServer.IsTransported := by
    refine Server.answer_of_all (P := fun answer => ∀ fault, answer.refused = some fault ∨ answer.broken = some fault →
      fault.name ∈ transportNames ∧ fault.text.isString = true) ?_ (by simp [Server.notFound])
    simp only [askedServer, List.forall_mem_cons]
    refine ⟨by simp, ?_, List.forall_mem_nil _⟩
    rintro fault (h | h) <;> cases h
    exact ⟨by decide, rfl⟩
  have hlocation : ∀ address, (Reply.ofAnswer .head (askedServer.answer address)).location = none :=
    Server.answer_of_all (P := fun answer => (Reply.ofAnswer .head answer).location = none)
      (List.forall_mem_cons.2 ⟨rfl, List.forall_mem_cons.2 ⟨rfl, List.forall_mem_nil _⟩⟩) rfl
  obtain ⟨results, m', hrun, hjudged, hfiles, -⟩ := verifyUrls_judges (w := asking askedUrls) (m := facing askedServer) hconfig rfl
    (Server.answer_of_all (P := fun answer => answer.meanwhile = []) (by simp [facing, askedServer]) rfl) htransported
    (by decide) parsed_askedUrls fun _ _ url _ location h => by cases (hlocation url.render).symm.trans h
  exact ⟨results, m', hrun, hjudged, hfiles⟩

/-! ## A redirect that leads nowhere -/

/-- Where a request ends otherwise than with a status or a fault of the transport, so does all that is done. -/
theorem verifyUrls_raises {rest : List (Text × Text)} {e : Error} (hclient : w.verifier m = .ok client)
    (hquiet : m.server.Undisturbed) (hurls : w.config.urls = entry :: rest) (h : m.server.headStatus client entry.2 = .error e)
    (hother : ∀ fault, e ≠ .transport fault) : (exec w.verifyUrls m).1 = .error e := by
  obtain ⟨m₁, hworld, hrun⟩ := w.exec_verifyUrls m
  have hstatus := client.exec_headStatus (hworld.server ▸ hquiet) entry.2
  rw [hworld.server, h] at hstatus
  have hpublished : exec (isPublished client entry.2) m₁ = (.error e, m₁.sent (requestsFor m.server client entry.2)) := by
    rw [isPublished, exec_bind_of_ok (exec_attempt _), hstatus]
    cases e with
    | transport fault => exact absurd rfl (hother fault)
    | _ => rfl
  have hentry : exec (verifyEntry client entry) m₁ = (.error e, _) := exec_bind_of_error hpublished
  rw [hrun, hclient, hurls]
  dsimp only
  rw [List.mapM_cons, exec_bind_of_error hentry]

/-- The fragment of this address holds a line end once its escapes are read. -/
def strayUrls : List (Text × Text) := [("linux-x64", "https://h/run.tar#%0a.tar"), ("linux-arm64", "https://h/arm.tar")]

def strayUrl : Url := ⟨"https", [], "h", none, "/run.tar", none, some "%0a.tar"⟩

def strayServer : Server := [("https://h/run.tar#%0a.tar", ⟨302, none, [("Location", "https://h/y")], [], none, none, []⟩),
  ("https://h/arm.tar", ⟨200, none, [], [], none, none, []⟩)]

theorem strayed_url : Url.ofRequest "https://h/run.tar#%0a.tar" = .ok strayUrl ∧
    Url.ofRequest "https://h/arm.tar" = .ok ⟨"https", [], "h", none, "/arm.tar", none, none⟩ ∧
    strayServer.onward .head true strayUrl = .error (.request (.componentControl "fragment" '\n' 0)) := by
  refine ⟨rfl, rfl, ?_⟩
  have hanswer : strayServer.answer strayUrl.render = ⟨302, none, [("Location", "https://h/y")], [], none, none, []⟩ := rfl
  have hreply : strayServer.replyTo .head strayUrl = .ok ⟨302, some "https://h/y", some [], none⟩ := by
    rw [Server.replyTo, hanswer]
    rfl
  have hredirect : strayUrl.redirect "https://h/y" = .error (.request (.componentControl "fragment" '\n' 0)) := by cbv
  rw [Server.onward, hreply]
  dsimp only
  rw [hredirect]

/-- An address that carries its fragment along a redirect can end the verification of all others, though each of them is an
address and the servers answer every request. -/
theorem verifyUrls_strayed : (∃ fields, WrapConfig.ofFields fields = .ok (asking strayUrls).config) ∧
    (∀ entry ∈ strayUrls, ∃ url, Url.ofRequest entry.2 = .ok url) ∧ strayServer.Undisturbed ∧ strayServer.IsTransported ∧
    (exec (asking strayUrls).verifyUrls (facing strayServer)).1 = .error (.request (.componentControl "fragment" '\n' 0)) := by
  obtain ⟨hurl, harm, honward⟩ := strayed_url
  have hparsed : ∀ entry ∈ strayUrls, ∃ url, Url.ofRequest entry.2 = .ok url :=
    List.forall_mem_cons.2 ⟨⟨strayUrl, hurl⟩, List.forall_mem_cons.2 ⟨⟨_, harm⟩, List.forall_mem_nil _⟩⟩
  have hquiet : strayServer.Undisturbed := Server.answer_of_all (P := fun answer => answer.meanwhile = []) (by simp [strayServer]) rfl
  have htransported : strayServer.IsTransported :=
    Server.answer_of_all (P := fun answer => ∀ fault, answer.refused = some fault ∨ answer.broken = some fault →
      fault.name ∈ transportNames ∧ fault.text.isString = true) (by simp [strayServer]) (by simp [Server.notFound])
  have hstatus : strayServer.headStatus servedClient "https://h/run.tar#%0a.tar" =
      .error (.request (.componentControl "fragment" '\n' 0)) := by
    rw [Server.headStatus_of_ok hurl, servedClient, Server.course_error honward]
    rfl
  refine ⟨⟨[("dirname", .text "/"), ("binaries", .array [.text "run"]),
    ("urls", .object [("linux-x64", .text "https://h/run.tar#%0a.tar"), ("linux-arm64", .text "https://h/arm.tar")])], rfl⟩,
    hparsed, hquiet, htransported, ?_⟩
  exact verifyUrls_raises (w := asking strayUrls) (m := facing strayServer) rfl hquiet rfl hstatus fun _ h => by cases h

end Wrapper

end Prebuilt
