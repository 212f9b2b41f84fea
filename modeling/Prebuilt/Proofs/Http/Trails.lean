import Mathlib.Data.List.Chain
import Mathlib.Logic.Relation
import Prebuilt.Download
import Prebuilt.Proofs.Archive.Altering
/-!
What is requested in the course of a download. The requests of a run are a trail of addresses; servers that answer alike along
the trail cannot be told apart, and each address on it is where the answer for the one before has led.
-/
set_option autoImplicit false

namespace Prebuilt

/-! ## Trails -/

namespace Server

/-- The answer for an address leads on to the next one. -/
def Redirects (server : Server) (url next : Url) : Prop :=
  ∃ location, (Reply.ofAnswer .get (server.answer url.render)).location = some location ∧ url.redirect location = .ok next

/-- From the first address one comes to the other through redirects, or the two are one. -/
def LeadsTo (server : Server) : Url → Url → Prop := Relation.ReflTransGen server.Redirects

/-- An answer that is no redirect leads nowhere else. -/
theorem eq_of_leadsTo {server : Server} {first url : Url} (hfinal : (Reply.ofAnswer .get (server.answer first.render)).location = none)
    (h : server.LeadsTo first url) : url = first := by
  rcases h.cases_head with rfl | ⟨next, ⟨location, hlocation, -⟩, -⟩
  · rfl
  · cases hfinal.symm.trans hlocation

/-- A trail starts at an address, and each step of it is a redirect. -/
structure IsTrail (server : Server) (address : Text) (trail : List Url) : Prop where
  first : ∀ url ∈ trail.head?, Url.ofRequest address = .ok url
  steps : trail.IsChain server.Redirects

theorem isTrail_nil (server : Server) (address : Text) : server.IsTrail address [] := ⟨nofun, .nil⟩

theorem leadsTo_of_isChain {server : Server} {first url : Url} {rest : List Url} (h : (first :: rest).IsChain server.Redirects)
    (hurl : url ∈ first :: rest) : server.LeadsTo first url := by
  induction rest generalizing first with
  | nil =>
    obtain rfl : url = first := by simpa using hurl
    exact .refl
  | cons next rest ih =>
    rw [List.isChain_cons_cons] at h
    rcases List.mem_cons.1 hurl with rfl | hurl
    · exact .refl
    · exact (ih h.2 hurl).head h.1

/-- Every address on a trail is one that redirects lead to from the start. -/
theorem IsTrail.leadsTo {server : Server} {address : Text} {trail : List Url} {url : Url} (h : server.IsTrail address trail)
    (hurl : url ∈ trail) : ∃ first, Url.ofRequest address = .ok first ∧ server.LeadsTo first url := by
  cases trail with
  | nil => cases hurl
  | cons first rest => exact ⟨first, h.first first rfl, leadsTo_of_isChain h.steps hurl⟩

end Server

/-- The request for the content at an address. -/
def Request.toGet (agent : Text) (url : Url) : Request := ⟨"GET", url.render, agent⟩

namespace Action

variable {α β : Type} {m : Machine} {x : Action α} {agent : Text} {trail trail' : List Url}

/-- On this machine the action requests the content at these addresses and nothing else, and nothing but the answers for them is
of any consequence. -/
structure Requests (m : Machine) (x : Action α) (agent : Text) (trail : List Url) : Prop where
  server : (exec x m).2.server = m.server
  requests : (exec x m).2.journal.requests = m.journal.requests ++ trail.map (Request.toGet agent)
  alike : ∀ server requests, (∀ url ∈ trail, server.answer url.render = m.server.answer url.render) →
    exec x (m.online server requests) =
      ((exec x m).1, (exec x m).2.online server (requests ++ trail.map (Request.toGet agent)))

theorem Offline.requests_nil (h : Offline x) (m : Machine) (agent : Text) : Requests m x agent [] where
  server := h.server m
  requests := by rw [h.requests m, List.map_nil, List.append_nil]
  alike server requests _ := by rw [h m server requests, List.map_nil, List.append_nil]

theorem Requests.bind_ok {f : α → Action β} {a : α} {m₁ : Machine} (hx : Requests m x agent trail) (hrun : exec x m = (.ok a, m₁))
    (hf : Requests m₁ (f a) agent trail') : Requests m (x >>= f) agent (trail ++ trail') := by
  have hserver := hx.server
  have hrequests := hx.requests
  rw [hrun] at hserver hrequests
  dsimp only at hserver hrequests
  have hboth : exec (x >>= f) m = exec (f a) m₁ := exec_bind_of_ok hrun
  refine ⟨by rw [hboth, hf.server, hserver], by rw [hboth, hf.requests, hrequests, List.map_append, List.append_assoc], ?_⟩
  intro server requests hsame
  have hfirst := hx.alike server requests fun url hurl => hsame url (List.mem_append_left _ hurl)
  have hthen := hf.alike server (requests ++ trail.map (Request.toGet agent)) fun url hurl => by
    rw [hserver]
    exact hsame url (List.mem_append_right _ hurl)
  rw [hrun] at hfirst
  rw [exec_bind_of_ok hfirst, hboth, hthen, List.map_append, List.append_assoc]

theorem Requests.bind_error {f : α → Action β} {e : Error} {m₁ : Machine} (hx : Requests m x agent trail)
    (hrun : exec x m = (.error e, m₁)) : Requests m (x >>= f) agent trail := by
  have hboth : exec (x >>= f) m = (.error e, m₁) := exec_bind_of_error hrun
  have hserver := hx.server
  have hrequests := hx.requests
  rw [hrun] at hserver hrequests
  refine ⟨by rw [hboth]; exact hserver, by rw [hboth]; exact hrequests, fun server requests hsame => ?_⟩
  have hfirst := hx.alike server requests hsame
  rw [hrun] at hfirst
  rw [exec_bind_of_error hfirst, hboth]

theorem Requests.bind_offline {f : α → Action β} (hx : Requests m x agent trail) (hf : ∀ a, Offline (f a)) :
    Requests m (x >>= f) agent trail := by
  rcases hrun : exec x m with ⟨r, m₁⟩
  cases r with
  | ok a => simpa only [List.append_nil] using hx.bind_ok hrun ((hf a).requests_nil m₁ agent)
  | error e => exact hx.bind_error hrun

/-- A trail of some kind, where the first action needs no server and every machine has such a trail for the second. -/
theorem Offline.bind_requests {x : Action α} {f : α → Action β} {P : List Url → Prop} (hx : Offline x) (hnil : P [])
    (hf : ∀ a m₁, exec x m = (.ok a, m₁) → m₁.server = m.server → ∃ trail, P trail ∧ Requests m₁ (f a) agent trail) :
    ∃ trail, P trail ∧ Requests m (x >>= f) agent trail := by
  rcases hrun : exec x m with ⟨r, m₁⟩
  cases r with
  | ok a =>
    have hserver := hx.server m
    rw [hrun] at hserver
    obtain ⟨trail, htrail, hrequests⟩ := hf a m₁ hrun hserver
    exact ⟨trail, htrail, (hx.requests_nil m agent).bind_ok hrun hrequests⟩
  | error e => exact ⟨[], hnil, (hx.requests_nil m agent).bind_error hrun⟩

theorem Requests.attempt (hx : Requests m x agent trail) : Requests m (attempt x) agent trail where
  server := hx.server
  requests := hx.requests
  alike server requests hsame := by rw [exec_attempt, exec_attempt, hx.alike server requests hsame]

theorem Requests.catching {handle : Error → Option (Action α)} (hx : Requests m x agent trail)
    (hhandle : ∀ e action, handle e = some action → Offline action) : Requests m (catching x handle) agent trail := by
  refine hx.attempt.bind_offline fun result => ?_
  cases result with
  | ok a => exact offline_pure a
  | error e =>
    cases he : handle e with
    | none => simpa only [he] using offline_throw e
    | some action => simpa only [he] using hhandle e action he

theorem Requests.ensure {after : Action Unit} (hx : Requests m x agent trail) (hafter : Offline after) :
    Requests m (ensure x after) agent trail :=
  hx.attempt.bind_offline fun result => hafter.bind fun _ => offline_ofExcept result

/-! ## Requests to a server -/

/-- What is done with the reply to a download. -/
def store (reply : Reply) (target : Text) : Action Unit := do
  let location ← create target
  match reply.content with
  | none => throw (.transport .badContent)
  | some content =>
    write location content
    refuseBroken reply

section

variable {Q : ∀ α : Type, Action α → Prop} (h : Composes (fun _ _ => True) Q)

include h

theorem Composes.refuseBroken (reply : Reply) : Q Unit (refuseBroken reply) := by
  unfold Action.refuseBroken
  split
  · exact h.throw _
  · exact h.pure ()

theorem Composes.readContent (reply : Reply) : Q Bytes (readContent reply) := by
  unfold Action.readContent
  split
  · exact h.throw _
  · exact h.bind (h.refuseBroken reply) fun _ => h.pure _

theorem Composes.store (reply : Reply) (target : Text) : Q Unit (store reply target) := by
  refine h.bind (h.create target fun _ _ _ => trivial) fun location => ?_
  split
  · exact h.throw _
  · exact h.bind (h.setFiles fun _ => trivial) fun _ => h.refuseBroken reply

end

/-- What is made of an answer. -/
def answering (method : Method) (answer : Answer) : Action Reply := do
  intrudeAll answer.meanwhile
  match answer.refused with
  | some fault => throw fault.toError
  | none => return Reply.ofAnswer method answer

theorem Composes.answering {Q : ∀ α : Type, Action α → Prop} (h : Composes (fun _ _ => True) Q) (method : Method) (answer : Answer) :
    Q Reply (answering method answer) := by
  refine h.bind (h.intrudeAll _) fun _ => ?_
  split
  · exact h.throw _
  · exact h.pure _

theorem answering_ok {method : Method} {answer : Answer} {reply : Reply} {m₁ : Machine}
    (h : exec (answering method answer) m = (.ok reply, m₁)) : reply = Reply.ofAnswer method answer := by
  obtain ⟨_, m₂, -, h⟩ := bind_ok.1 h
  cases hrefused : answer.refused with
  | some fault =>
    rw [hrefused] at h
    cases h
  | none =>
    rw [hrefused] at h
    cases h
    rfl

end Action

namespace Client

open Action

variable {m m₁ : Machine} {client : Client} {url : Url} {reply : Reply}

/-- The machine once the request is noted down. -/
theorem exec_exchange (hscheme : checkScheme url.scheme = .ok ()) (m : Machine) : exec (client.exchange .get url) m =
    exec (answering .get (m.server.answer url.render))
      (m.online m.server (m.journal.requests ++ [Request.toGet client.agent url])) := by
  rw [exchange, hscheme]
  rfl

/-- An exchange is one request, or none where the scheme leads to no server. -/
theorem requests_exchange (client : Client) (url : Url) (m : Machine) :
    ∃ trail, (trail = [] ∨ trail = [url]) ∧ Requests m (client.exchange .get url) client.agent trail ∧
      ∀ reply m₁, exec (client.exchange .get url) m = (.ok reply, m₁) →
        trail = [url] ∧ reply = Reply.ofAnswer .get (m.server.answer url.render) ∧ m₁.server = m.server := by
  cases hscheme : checkScheme url.scheme with
  | error e =>
    have hrun (m : Machine) : exec (client.exchange .get url) m = (.error e, m) := by
      rw [exchange, hscheme]
      rfl
    refine ⟨[], .inl rfl, ⟨by rw [hrun], by rw [hrun]; simp, fun server requests _ => ?_⟩, fun reply m₁ h => ?_⟩
    · rw [hrun, hrun, List.map_nil, List.append_nil]
    · cases (hrun m).symm.trans h
  | ok _ =>
    have hoffline := composes_offline.answering .get (m.server.answer url.render)
    have hrun := hoffline m m.server (m.journal.requests ++ [Request.toGet client.agent url])
    refine ⟨[url], .inr rfl, ⟨?_, ?_, fun server requests hsame => ?_⟩, fun reply m₁ h => ⟨rfl, ?_, ?_⟩⟩
    · rw [exec_exchange hscheme, hrun]
      rfl
    · rw [exec_exchange hscheme, hrun]
      rfl
    · have hanswer : (m.online server requests).server.answer url.render = m.server.answer url.render := hsame url (by simp)
      rw [exec_exchange hscheme, exec_exchange hscheme, hanswer, hrun]
      exact hoffline m server _
    · rw [exec_exchange hscheme] at h
      exact answering_ok h
    · rw [exec_exchange hscheme, hrun] at h
      exact (congrArg (fun end_ => end_.2.server) h).symm

/-- The requests of a client are a trail of redirects. The induction is on how many may still be followed. -/
theorem requests_follow (client : Client) (left : Nat) (url : Url) (m : Machine) :
    ∃ trail, (∀ first ∈ trail.head?, first = url) ∧ trail.IsChain m.server.Redirects ∧
      Requests m (client.follow .get left url) client.agent trail := by
  induction left generalizing url m with
  | zero =>
    obtain ⟨trail, htrail, hrequests, -⟩ := requests_exchange client url m
    unfold follow
    refine ⟨trail, ?_, ?_, hrequests.bind_offline fun reply => ?_⟩
    · rcases htrail with rfl | rfl <;> simp
    · rcases htrail with rfl | rfl <;> simp
    · cases reply.location with
      | none => exact offline_pure reply
      | some location =>
        refine (offline_ofExcept _).bind fun next => Offline.ite (offline_pure reply) ?_
        exact (composes_offline.readContent reply).bind fun _ => offline_throw _
  | succ left ih =>
    obtain ⟨trail, htrail, hrequests, hend⟩ := requests_exchange client url m
    have hshort : (∀ first ∈ trail.head?, first = url) ∧ trail.IsChain m.server.Redirects := by
      rcases htrail with rfl | rfl <;> simp
    unfold follow
    rcases hrun : exec (client.exchange .get url) m with ⟨r, m₁⟩
    cases r with
    | error e => exact ⟨trail, hshort.1, hshort.2, hrequests.bind_error hrun⟩
    | ok reply =>
      obtain ⟨rfl, hreply, hserver⟩ := hend reply m₁ hrun
      cases hlocation : reply.location with
      | none =>
        have hlast := (offline_pure reply).requests_nil m₁ client.agent
        refine ⟨[url] ++ [], hshort.1, hshort.2, hrequests.bind_ok hrun ?_⟩
        simpa only [hlocation] using hlast
      | some location =>
        cases hnext : url.redirect location with
        | error e =>
          have hlast := (offline_throw (α := Reply) e).requests_nil m₁ client.agent
          refine ⟨[url] ++ [], hshort.1, hshort.2, hrequests.bind_ok hrun ?_⟩
          simp only [hlocation, hnext]
          exact hlast
        | ok next =>
          -- A redirect that is followed, once the content that came with it was read.
          have hrest (m₂ : Machine) (h₂ : m₂.server = m₁.server) : ∃ trail,
              ((∀ first ∈ trail.head?, first = next) ∧ trail.IsChain m.server.Redirects) ∧
                Requests m₂ (client.follow .get left next) client.agent trail := by
            obtain ⟨trail, hfirst, hsteps, hrequests⟩ := ih next m₂
            rw [h₂, hserver] at hsteps
            exact ⟨trail, ⟨hfirst, hsteps⟩, hrequests⟩
          have hmore : ∃ trail, ((∀ first ∈ trail.head?, first = next) ∧ trail.IsChain m.server.Redirects) ∧
              Requests m₁ (if (!client.followRedirects) = true then pure reply else do
                let _ ← readContent reply
                client.follow .get left next) client.agent trail := by
            cases client.followRedirects with
            | false => exact ⟨[], ⟨nofun, .nil⟩, (offline_pure reply).requests_nil m₁ client.agent⟩
            | true => exact (composes_offline.readContent reply).bind_requests ⟨nofun, .nil⟩ fun _ m₂ _ h₂ => hrest m₂ h₂
          obtain ⟨trail, ⟨hfirst, hsteps⟩, hmore⟩ := hmore
          have hstep : m.server.Redirects url next := ⟨location, by rw [← hreply, hlocation], hnext⟩
          refine ⟨url :: trail, by simp, ?_, hrequests.bind_ok hrun ?_⟩
          · cases trail with
            | nil => exact .singleton url
            | cons first rest =>
              obtain rfl := hfirst first rfl
              exact .cons_cons hstep hsteps
          · simp only [hlocation, hnext]
            exact hmore

theorem requests_send (client : Client) (address : Text) (m : Machine) :
    ∃ trail, m.server.IsTrail address trail ∧ Requests m (client.send .get address) client.agent trail := by
  cases hurl : Url.ofRequest address with
  | error e =>
    have hrun := (offline_throw (α := Reply) e).requests_nil m client.agent
    refine ⟨[], m.server.isTrail_nil address, ?_⟩
    rw [send, hurl]
    exact hrun
  | ok url =>
    obtain ⟨trail, hfirst, hsteps, hrequests⟩ := client.requests_follow redirectLimit url m
    refine ⟨trail, ⟨fun first h => ?_, hsteps⟩, ?_⟩
    · rw [hfirst first h, hurl]
    · rw [send, hurl]
      exact hrequests

end Client

/-! ## Downloads -/

namespace Action

/-- The name that is sent along with the requests of a download. -/
def agentOf : Option Client → Text
  | some client => client.agent
  | none => Client.agentName

theorem offline_clientOr (given : Option Client) (timeout : Json) : Offline (clientOr given timeout) := by
  cases given with
  | some client => exact offline_pure client
  | none => exact Offline.bind (offline_record fun _ _ => rfl) fun _ => offline_pure _

theorem agent_of_clientOr {given : Option Client} {timeout : Json} {client : Client} {m m₁ : Machine}
    (h : exec (clientOr given timeout) m = (.ok client, m₁)) : client.agent = agentOf given := by
  cases given <;> cases h <;> rfl

theorem requests_fetch (client : Client) (url target : Text) (m : Machine) :
    ∃ trail, m.server.IsTrail url trail ∧ Requests m (fetch client url target) client.agent trail := by
  obtain ⟨trail, htrail, hrequests⟩ := client.requests_send url m
  have hstore (reply : Reply) := composes_offline.store reply target
  exact ⟨trail, htrail, hrequests.bind_offline fun reply =>
    Offline.ite ((offline_throw _).bind fun _ => hstore reply) (hstore reply)⟩

theorem requests_fetchCatching (client : Client) (url target : Text) (m : Machine) : ∃ trail, m.server.IsTrail url trail ∧
    Requests m (catching (fetch client url target) fun
      | .transport fault => some (throw (.download (.transport url fault)))
      | _ => none) client.agent trail := by
  obtain ⟨trail, htrail, hrequests⟩ := requests_fetch client url target m
  refine ⟨trail, htrail, hrequests.catching fun e action he => ?_⟩
  cases e with
  | transport fault =>
    cases he
    exact offline_throw _
  | _ => cases he

theorem requests_downloadFile (given : Option Client) (timeout : Json) (url target : Text) (m : Machine) :
    ∃ trail, m.server.IsTrail url trail ∧ Requests m (downloadFile given timeout url target) (agentOf given) trail := by
  refine (composes_offline.makeDirectories _ _ fun _ _ _ _ => trivial).bind_requests (m.server.isTrail_nil url) fun _ m₁ _ h₁ => ?_
  refine (offline_log _ _ _).bind_requests (m.server.isTrail_nil url) fun _ m₂ _ h₂ => ?_
  refine (offline_clientOr given timeout).bind_requests (m.server.isTrail_nil url) fun client m₃ hclient h₃ => ?_
  rw [← agent_of_clientOr hclient, ← h₁, ← h₂, ← h₃]
  exact requests_fetchCatching client url target m₃

theorem requests_downloadArchive (given : Option Client) (timeout : Json) (url target type : Text) (m : Machine) :
    ∃ trail, m.server.IsTrail url trail ∧ Requests m (downloadArchive given timeout url target type) (agentOf given) trail := by
  have hwork (directory : Text) (m₁ : Machine) (hserver : m₁.server = m.server) : ∃ trail, m.server.IsTrail url trail ∧
      Requests m₁ (ensure (do
        downloadFile given timeout url (Path.join directory (archiveName url))
        log Log.info extracting (Text.join ["Extracting ", Path.join directory (archiveName url), " to ", target])
        extractArchive (Path.join directory (archiveName url)) target type) (discard directory)) (agentOf given) trail := by
    obtain ⟨trail, htrail, hrequests⟩ := requests_downloadFile given timeout url (Path.join directory (archiveName url)) m₁
    refine ⟨trail, hserver ▸ htrail, (hrequests.bind_offline fun _ => ?_).ensure (composes_offline.discard directory)⟩
    exact (offline_log _ _ _).bind fun _ => offline_extractArchive _ _ _
  have hmake : Offline (get >>= fun m => makeTemporary m.temporary "runwrap-") :=
    offline_get_bind (fun m => composes_offline.makeTemporary _ _) fun _ _ _ => rfl
  have hrun : downloadArchive given timeout url target type = (get >>= fun m => makeTemporary m.temporary "runwrap-") >>= fun directory =>
      ensure (do
        downloadFile given timeout url (Path.join directory (archiveName url))
        log Log.info extracting (Text.join ["Extracting ", Path.join directory (archiveName url), " to ", target])
        extractArchive (Path.join directory (archiveName url)) target type) (discard directory) := by
    rw [downloadArchive, bind_assoc]
  rw [hrun]
  exact hmake.bind_requests (m.server.isTrail_nil url) fun directory m₁ _ h₁ => hwork directory m₁ h₁

end Action

end Prebuilt
