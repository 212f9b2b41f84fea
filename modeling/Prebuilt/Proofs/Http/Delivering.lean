import Prebuilt.Http.Client
import Prebuilt.Proofs.Actions.Confined
/-!
What a server delivers while nobody else is at work. Requests leave nothing but a record of themselves, and a client that
follows redirects ends at an answer that the chain of them leads to.
-/
set_option autoImplicit false

namespace Prebuilt

/-- Nobody else is at work while the server answers. -/
def Server.Undisturbed (server : Server) : Prop := ∀ address, (server.answer address).meanwhile = []

/-- The answer at the end of a chain of redirects. -/
inductive Server.Leads (server : Server) : Url → Answer → Prop
  | here (url : Url) : Leads server url (server.answer url.render)
  | onward {url next : Url} {location : Text} {answer : Answer} :
      (Reply.ofAnswer .get (server.answer url.render)).location = some location → url.redirect location = .ok next →
        Leads server next answer → Leads server url answer

/-- The content is what a request for the address brings in full. -/
def Server.Delivers (server : Server) (address : Text) (content : Bytes) : Prop :=
  ∃ url answer, Url.ofRequest address = .ok url ∧ server.Leads url answer ∧ answer.status = 200 ∧ answer.refused = none ∧
    answer.broken = none ∧ Reply.unwrap (Reply.encodings answer) answer.body = some content

/-- An address whose answer is no redirect delivers what it is answered with. -/
theorem Server.delivers_iff {server : Server} {address : Text} {url : Url} {content : Bytes} (hurl : Url.ofRequest address = .ok url)
    (hhere : (Reply.ofAnswer .get (server.answer url.render)).location = none) : server.Delivers address content ↔
      (server.answer url.render).status = 200 ∧ (server.answer url.render).refused = none ∧ (server.answer url.render).broken = none ∧
        Reply.unwrap (Reply.encodings (server.answer url.render)) (server.answer url.render).body = some content := by
  constructor
  · rintro ⟨url', answer, hurl', hleads, hanswer⟩
    cases hurl.symm.trans hurl'
    cases hleads with
    | here => exact hanswer
    | onward hlocation => cases hhere.symm.trans hlocation
  · exact fun h => ⟨url, _, hurl, .here url, h⟩

/-- The machine once a request was sent from it. -/
def Machine.asked (m : Machine) (request : Request) : Machine :=
  { m with journal := { m.journal with requests := m.journal.requests ++ [request] } }

namespace Action

variable {m m' m₁ : Machine} {client : Client} {address : Text}

/-- Nothing but the journal is different. -/
abbrev Quiet (m m' : Machine) : Prop := m.Holds (· = m.files) m'

theorem quiet_refl (m : Machine) : Quiet m m := Machine.holds_self rfl

theorem Quiet.trans {m₂ : Machine} (h : Quiet m m₁) (h' : Quiet m₁ m₂) : Quiet m m₂ :=
  Machine.Holds.trans h (h'.imp fun _ hfs => hfs.trans h.files)

theorem Quiet.server (h : Quiet m m') : m'.server = m.server := by rw [h.world]

theorem quiet_log (level : Log.Level) (origin : Log.Origin) (message : Text) (m : Machine) :
    Quiet m (exec (log level origin message) m).2 := keeps_log level origin message m (quiet_refl m)

/-- What a request gives is the answer, and it was not refused. -/
theorem exec_exchange (client : Client) (hquiet : m.server.Undisturbed) (url : Url) : ∃ r m', exec (client.exchange .get url) m = (r, m') ∧
    Quiet m m' ∧ ∀ reply, r = .ok reply → (m.server.answer url.render).refused = none ∧
      reply = Reply.ofAnswer .get (m.server.answer url.render) := by
  rw [Client.exchange]
  cases hscheme : Client.checkScheme url.scheme with
  | error e => exact ⟨.error e, m, rfl, quiet_refl m, by simp⟩
  | ok _ =>
    obtain ⟨m₁, hm₁⟩ : ∃ m₁ : Machine, m₁ =
        { m with journal := { m.journal with requests := m.journal.requests ++ [⟨Method.get.name, url.render, client.agent⟩] } } :=
      ⟨_, rfl⟩
    have hworld : Quiet m m₁ := ⟨by rw [hm₁], by rw [hm₁]⟩
    have hintrude : exec (intrudeAll (m₁.server.answer url.render).meanwhile) m₁ = (.ok (), m₁) := by
      rw [hworld.server, hquiet]
      rfl
    rw [exec_bind_of_ok (exec_ofExcept (.ok ())), exec_bind_of_ok (exec_record _), ← hm₁, exec_bind_of_ok exec_get,
      exec_bind_of_ok hintrude, hworld.server]
    cases hrefused : (m.server.answer url.render).refused with
    | some fault => exact ⟨_, m₁, rfl, hworld, by simp⟩
    | none => exact ⟨_, m₁, rfl, hworld, fun reply h => ⟨rfl, (Except.ok.inj h).symm⟩⟩

theorem exec_readContent (reply : Reply) (m : Machine) : (exec (readContent reply) m).2 = m := by
  rw [readContent]
  cases reply.content with
  | none => rfl
  | some content =>
    rw [exec_bind, refuseBroken]
    cases reply.broken <;> rfl

/-- A request that started at the URL ends with an answer it leads to, or fails. -/
structure Answered (m : Machine) (url : Url) (result : Except Error Reply × Machine) : Prop where
  world : Quiet m result.2
  reply : ∀ reply, result.1 = .ok reply →
    ∃ answer, m.server.Leads url answer ∧ answer.refused = none ∧ reply = Reply.ofAnswer .get answer

theorem answered_error {url : Url} {e : Error} (h : Quiet m m') : Answered m url (.error e, m') := ⟨h, by simp⟩

/-- One request and what is done about its reply, whatever follows a redirect. -/
theorem answered_step (client : Client) (onward : Url → Action Reply) (hquiet : m.server.Undisturbed) (url : Url)
    (honward : ∀ (m : Machine) next, m.server.Undisturbed → Answered m next (exec (onward next) m)) :
    Answered m url (exec (do
      let reply ← client.exchange .get url
      match reply.location with
      | none => return reply
      | some location =>
        let next ← ofExcept (url.redirect location)
        if !client.followRedirects then return reply
        let _ ← readContent reply
        onward next) m) := by
  obtain ⟨r, m₁, hexchange, hworld, hreply⟩ := exec_exchange client hquiet url
  cases r with
  | error e =>
    rw [exec_bind_of_error hexchange]
    exact answered_error hworld
  | ok reply =>
    obtain ⟨hrefused, rfl⟩ := hreply reply rfl
    have hhere : Answered m url (.ok (Reply.ofAnswer .get (m.server.answer url.render)), m₁) :=
      ⟨hworld, fun reply h => ⟨_, .here url, hrefused, (Except.ok.inj h).symm⟩⟩
    rw [exec_bind_of_ok hexchange]
    cases hlocation : (Reply.ofAnswer .get (m.server.answer url.render)).location with
    | none => exact hhere
    | some location =>
      simp only
      cases hnext : url.redirect location with
      | error e => exact answered_error hworld
      | ok next =>
        rw [exec_bind_of_ok (exec_ofExcept (.ok next))]
        cases client.followRedirects with
        | false => exact hhere
        | true =>
          have hread := exec_readContent (Reply.ofAnswer .get (m.server.answer url.render)) m₁
          generalize hrun : exec (readContent (Reply.ofAnswer .get (m.server.answer url.render))) m₁ = result at hread
          obtain ⟨r, m₂⟩ := result
          obtain rfl : m₂ = m₁ := hread
          simp only [Bool.not_true, Bool.false_eq_true, if_false]
          cases r with
          | error e =>
            rw [exec_bind_of_error hrun]
            exact answered_error hworld
          | ok _ =>
            rw [exec_bind_of_ok hrun]
            obtain ⟨hworld', hreply⟩ := honward m₂ next (hworld.server ▸ hquiet)
            refine ⟨hworld.trans hworld', fun reply h => ?_⟩
            obtain ⟨answer, hleads, hrefused, hreply⟩ := hreply reply h
            exact ⟨answer, .onward hlocation hnext (hworld.server ▸ hleads), hrefused, hreply⟩

/-- The induction is on the number of redirects that may still be followed. -/
theorem answered_follow (client : Client) (hquiet : m.server.Undisturbed) (left : Nat) (url : Url) :
    Answered m url (exec (client.follow .get left url) m) := by
  induction left generalizing m url with
  | zero =>
    have hstep := answered_step client (fun _ => throw (.transport .tooManyRedirects)) hquiet url
      fun m _ _ => answered_error (quiet_refl m)
    rw [Client.follow]
    exact hstep
  | succ left ih =>
    have hstep := answered_step client (client.follow .get left) hquiet url fun m next hquiet =>
      ih hquiet next
    rw [Client.follow]
    exact hstep

/-- The reply to a request is an answer that its address leads to. -/
theorem exec_send (client : Client) (hquiet : m.server.Undisturbed) (address : Text) : Quiet m (exec (client.send .get address) m).2 ∧
    ∀ reply, (exec (client.send .get address) m).1 = .ok reply → ∃ url answer, Url.ofRequest address = .ok url ∧
      m.server.Leads url answer ∧ answer.refused = none ∧ reply = Reply.ofAnswer .get answer := by
  rw [Client.send]
  cases hurl : Url.ofRequest address with
  | error e => exact ⟨quiet_refl m, nofun⟩
  | ok url =>
    rw [exec_bind_of_ok (exec_ofExcept (.ok url))]
    obtain ⟨hworld, hreply⟩ := answered_follow client hquiet Client.redirectLimit url
    refine ⟨hworld, fun reply h => ?_⟩
    obtain ⟨answer, hanswer⟩ := hreply reply h
    exact ⟨url, answer, rfl, hanswer⟩

/-! ## Plain answers -/

variable {url : Url} {content : Bytes}

/-- A request that is answered with plain content is over at once. -/
theorem exec_exchange_plain (client : Client) (hscheme : url.scheme = "https")
    (hanswer : m.server.answer url.render = ⟨200, none, [], content, none, none, []⟩) : exec (client.exchange .get url) m =
      (.ok ⟨200, none, some content, none⟩, m.asked ⟨"GET", url.render, client.agent⟩) := by
  have hcheck : Client.checkScheme url.scheme = .ok () := by rw [hscheme]; decide
  have hanswer' : (m.asked ⟨"GET", url.render, client.agent⟩).server.answer url.render = ⟨200, none, [], content, none, none, []⟩ := hanswer
  have hrecord : exec (record fun j => { j with requests := j.requests ++ [⟨"GET", url.render, client.agent⟩] }) m =
      (.ok (), m.asked ⟨"GET", url.render, client.agent⟩) := rfl
  rw [Client.exchange, hcheck, exec_bind_of_ok (exec_ofExcept (.ok ()))]
  refine (exec_bind_of_ok hrecord).trans ?_
  rw [exec_bind_of_ok exec_get, hanswer']
  rfl

theorem exec_send_plain (client : Client) (hurl : Url.ofRequest address = .ok url) (hscheme : url.scheme = "https")
    (hanswer : m.server.answer url.render = ⟨200, none, [], content, none, none, []⟩) : exec (client.send .get address) m =
      (.ok ⟨200, none, some content, none⟩, m.asked ⟨"GET", url.render, client.agent⟩) := by
  rw [Client.send, hurl, exec_bind_of_ok (exec_ofExcept (.ok _)), Client.follow,
    exec_bind_of_ok (exec_exchange_plain client hscheme hanswer)]
  rfl

end Action

end Prebuilt
