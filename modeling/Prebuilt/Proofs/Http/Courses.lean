import Mathlib.Data.List.Chain
import Prebuilt.Proofs.Actions.Offline
import Prebuilt.Proofs.Fields
import Prebuilt.Proofs.Http.Delivering
/-!
The course that a request takes, by what the servers answer alone: the addresses that it goes to one after the other, and
what it ends with. While nobody else is at work a request does nothing but take its course, and the answers for addresses
off the course are of no consequence.
-/
set_option autoImplicit false

namespace Prebuilt

/-- The content of a reply, read to its end. -/
def Reply.read (reply : Reply) : Except Error Bytes :=
  match reply.content with
  | none => .error (.transport .badContent)
  | some content =>
    match reply.broken with
    | some fault => .error fault.toError
    | none => .ok content

/-- The address is asked for, unless its scheme leads to no server. -/
def Url.asked (url : Url) : List Url :=
  match Client.checkScheme url.scheme with
  | .ok _ => [url]
  | .error _ => []

/-- The request that a client sends for an address. -/
def Client.request (client : Client) (method : Method) (url : Url) : Request := ⟨method.name, url.render, client.agent⟩

namespace Server

/-- What holds of all answers in the table, and where there is none, holds of each answer. -/
theorem answer_of_all {P : Answer → Prop} {server : Server} (hall : ∀ entry ∈ server, P entry.2) (hnone : P notFound) (address : Text) :
    P (server.answer address) := by
  rw [answer]
  cases hget : Table.get? address server with
  | none => exact hnone
  | some answer => exact hall _ (Table.mem_of_get? hget)

/-- What a request for an address is answered with. -/
def replyTo (server : Server) (method : Method) (url : Url) : Except Error Reply :=
  match Client.checkScheme url.scheme with
  | .error e => .error e
  | .ok _ =>
    match (server.answer url.render).refused with
    | some fault => .error fault.toError
    | none => .ok (Reply.ofAnswer method (server.answer url.render))

/-- The address that a client goes on to from one that it has come to, if it goes on from there. -/
def onward (server : Server) (method : Method) (follows : Bool) (url : Url) : Except Error (Reply × Option Url) :=
  match server.replyTo method url with
  | .error e => .error e
  | .ok reply =>
    match reply.location with
    | none => .ok (reply, none)
    | some location =>
      match url.redirect location with
      | .error e => .error e
      | .ok next =>
        if follows then
          match reply.read with
          | .error e => .error e
          | .ok _ => .ok (reply, some next)
        else .ok (reply, none)

/-- The addresses that a request goes to, of which so many may be redirects, and what it ends with. -/
def course (server : Server) (method : Method) (follows : Bool) : Nat → Url → List Url × Except Error Reply
  | left, url =>
    match server.onward method follows url with
    | .error e => (url.asked, .error e)
    | .ok (reply, none) => (url.asked, .ok reply)
    | .ok (_, some next) =>
      match left with
      | 0 => (url.asked, .error (.transport .tooManyRedirects))
      | left + 1 => (url.asked ++ (server.course method follows left next).1, (server.course method follows left next).2)

/-- The request that is sent for the address ends with the reply, after so many redirects at most. -/
inductive Ends (server : Server) (method : Method) (follows : Bool) : Nat → Url → Reply → Prop
  | here {left : Nat} {url : Url} {reply : Reply} (h : server.onward method follows url = .ok (reply, none)) :
    Ends server method follows left url reply
  | onward {left : Nat} {url next : Url} {first reply : Reply} (h : server.onward method follows url = .ok (first, some next))
    (hends : Ends server method follows left next reply) : Ends server method follows (left + 1) url reply

/-- The answer for an address leads on to the next one. -/
def RedirectsBy (server : Server) (method : Method) (url next : Url) : Prop :=
  ∃ location, (Reply.ofAnswer method (server.answer url.render)).location = some location ∧ url.redirect location = .ok next

variable {server server' : Server} {method : Method} {follows : Bool} {left : Nat} {url next : Url} {reply : Reply} {e : Error}

theorem course_error (h : server.onward method follows url = .error e) : server.course method follows left url = (url.asked, .error e) := by
  rw [course.eq_def]
  simp only [h]

theorem course_here (h : server.onward method follows url = .ok (reply, none)) :
    server.course method follows left url = (url.asked, .ok reply) := by
  rw [course.eq_def]
  simp only [h]

theorem course_exhausted (h : server.onward method follows url = .ok (reply, some next)) :
    server.course method follows 0 url = (url.asked, .error (.transport .tooManyRedirects)) := by
  rw [course.eq_def]
  simp only [h]

theorem course_onward (h : server.onward method follows url = .ok (reply, some next)) : server.course method follows (left + 1) url =
    (url.asked ++ (server.course method follows left next).1, (server.course method follows left next).2) := by
  rw [course.eq_def]
  simp only [h]

theorem replyTo_ok (h : server.replyTo method url = .ok reply) : Client.checkScheme url.scheme = .ok () ∧
    (server.answer url.render).refused = none ∧ reply = Reply.ofAnswer method (server.answer url.render) := by
  unfold replyTo at h
  split at h
  · cases h
  · rename_i hscheme
    split at h
    · cases h
    · rename_i hrefused
      exact ⟨hscheme, hrefused, (Except.ok.inj h).symm⟩

theorem onward_ok {next : Option Url} (h : server.onward method follows url = .ok (reply, next)) :
    server.replyTo method url = .ok reply ∧ ∀ u, next = some u → server.RedirectsBy method url u := by
  unfold onward at h
  split at h
  · cases h
  · rename_i reply' hreply
    obtain ⟨-, -, hanswer⟩ := replyTo_ok hreply
    split at h
    · cases h
      exact ⟨hreply, fun _ h => by cases h⟩
    · rename_i location hlocation
      split at h
      · cases h
      · rename_i u hu
        split at h
        · split at h
          · cases h
          · cases h
            exact ⟨hreply, fun v hv => ⟨location, hanswer ▸ hlocation, Option.some.inj hv ▸ hu⟩⟩
        · cases h
          exact ⟨hreply, fun _ h => by cases h⟩

theorem asked_of_replyTo (h : server.replyTo method url = .ok reply) : url.asked = [url] := by
  rw [Url.asked, (replyTo_ok h).1]

/-- What a course ends with. The induction is on how many redirects may be followed. -/
theorem course_ok_iff : (server.course method follows left url).2 = .ok reply ↔ server.Ends method follows left url reply := by
  constructor
  · intro h
    fun_induction course server method follows left url with
    | case1 left url e hon => cases h
    | case2 left url reply hon =>
      cases h
      exact .here hon
    | case3 url first next hon => cases h
    | case4 url first next hon left ih => exact .onward hon (ih h)
  · intro h
    induction h with
    | here hon => rw [course_here hon]
    | onward hon _ ih => rw [course_onward hon, ih]

/-- A course starts at its address, if any request is sent at all, and goes on by redirects. -/
def IsCourse (server : Server) (method : Method) (url : Url) (trail : List Url) : Prop :=
  (trail = [] ∧ ∃ e, Client.checkScheme url.scheme = .error e) ∨ ∃ rest, trail = url :: rest ∧ trail.IsChain (server.RedirectsBy method)

theorem isCourse_asked (server : Server) (method : Method) (url : Url) : server.IsCourse method url url.asked := by
  cases hscheme : Client.checkScheme url.scheme with
  | error e => exact .inl ⟨by rw [Url.asked, hscheme], e, hscheme⟩
  | ok _ =>
    have hasked : url.asked = [url] := by rw [Url.asked, hscheme]
    exact .inr ⟨[], hasked, hasked ▸ .singleton _⟩

theorem IsCourse.cons {trail : List Url} (h : server.IsCourse method next trail) (hleads : server.RedirectsBy method url next) :
    server.IsCourse method url (url :: trail) := by
  refine .inr ⟨trail, rfl, ?_⟩
  rcases h with ⟨rfl, -⟩ | ⟨rest, rfl, hchain⟩
  · exact .singleton _
  · exact List.isChain_cons_cons.2 ⟨hleads, hchain⟩

theorem isCourse_course (server : Server) (method : Method) (follows : Bool) (left : Nat) (url : Url) :
    server.IsCourse method url (server.course method follows left url).1 := by
  fun_induction course server method follows left url with
  | case1 left url e hon => exact server.isCourse_asked method url
  | case2 left url reply hon => exact server.isCourse_asked method url
  | case3 url first next hon => exact server.isCourse_asked method url
  | case4 url first next hon left ih =>
    obtain ⟨hreply, hleads⟩ := onward_ok hon
    rw [asked_of_replyTo hreply]
    exact ih.cons (hleads next rfl)

/-! ## Servers that answer alike -/

theorem replyTo_congr (h : ∀ u ∈ url.asked, server'.answer u.render = server.answer u.render) :
    server'.replyTo method url = server.replyTo method url := by
  unfold replyTo
  cases hscheme : Client.checkScheme url.scheme with
  | error e => rfl
  | ok _ =>
    have hmem : url ∈ url.asked := by simp [Url.asked, hscheme]
    rw [h url hmem]

theorem onward_congr (h : ∀ u ∈ url.asked, server'.answer u.render = server.answer u.render) :
    server'.onward method follows url = server.onward method follows url := by
  simp only [onward, replyTo_congr h]

/-- Servers that answer alike on the course cannot be told apart. -/
theorem course_congr (h : ∀ u ∈ (server.course method follows left url).1, server'.answer u.render = server.answer u.render) :
    server'.course method follows left url = server.course method follows left url := by
  fun_induction course server method follows left url with
  | case1 left url e hon => exact course_error ((onward_congr h).trans hon)
  | case2 left url reply hon => exact course_here ((onward_congr h).trans hon)
  | case3 url first next hon => exact course_exhausted ((onward_congr h).trans hon)
  | case4 url first next hon left ih =>
    rw [course_onward ((onward_congr fun u hu => h u (List.mem_append_left _ hu)).trans hon),
      ih fun u hu => h u (List.mem_append_right _ hu)]

end Server

/-- The machine once the requests were sent from it. -/
def Machine.sent (m : Machine) (requests : List Request) : Machine := m.online m.server (m.journal.requests ++ requests)

@[simp] theorem Machine.sent_nil (m : Machine) : m.sent [] = m := by rw [sent, List.append_nil, online_self]

@[simp] theorem Machine.sent_sent (m : Machine) (a b : List Request) : (m.sent a).sent b = m.sent (a ++ b) := by
  simp [sent, online]

@[simp] theorem Machine.server_sent (m : Machine) (requests : List Request) : (m.sent requests).server = m.server := rfl

namespace Client

open Action

variable {m : Machine} {method : Method}

theorem exec_exchange_alone (client : Client) (hquiet : m.server.Undisturbed) (method : Method) (url : Url) :
    exec (client.exchange method url) m = (m.server.replyTo method url, m.sent (url.asked.map (client.request method))) := by
  rw [exchange, Server.replyTo, Url.asked]
  cases hscheme : checkScheme url.scheme with
  | error e => simp [exec_bind_of_error (exec_ofExcept (.error e))]
  | ok _ =>
    have hrecord : exec (record fun j => { j with requests := j.requests ++ [⟨method.name, url.render, client.agent⟩] }) m =
        (.ok (), m.sent ([url].map (client.request method))) := rfl
    have hintrude : exec (intrudeAll ((m.sent ([url].map (client.request method))).server.answer url.render).meanwhile)
        (m.sent ([url].map (client.request method))) = (.ok (), m.sent ([url].map (client.request method))) := by
      rw [Machine.server_sent, hquiet]
      rfl
    rw [exec_bind_of_ok (exec_ofExcept (.ok ()))]
    refine (exec_bind_of_ok hrecord).trans ?_
    rw [exec_bind_of_ok exec_get, exec_bind_of_ok hintrude, Machine.server_sent]
    cases (m.server.answer url.render).refused <;> rfl

theorem exec_readContent_eq (reply : Reply) (m : Machine) : exec (readContent reply) m = (reply.read, m) := by
  rw [readContent, Reply.read]
  cases reply.content with
  | none => rfl
  | some content =>
    rw [exec_bind, refuseBroken]
    cases reply.broken <;> rfl

/-- One request and what is done about its reply, whatever follows a redirect. -/
theorem exec_onward (client : Client) (hquiet : m.server.Undisturbed) (method : Method) (url : Url) (goOn : Url → Action Reply) :
    exec (do
      let reply ← client.exchange method url
      match reply.location with
      | none => return reply
      | some location =>
        let next ← Action.ofExcept (url.redirect location)
        if !client.followRedirects then return reply
        let _ ← readContent reply
        goOn next) m =
      match m.server.onward method client.followRedirects url with
      | .error e => (.error e, m.sent (url.asked.map (client.request method)))
      | .ok (reply, none) => (.ok reply, m.sent (url.asked.map (client.request method)))
      | .ok (_, some next) => exec (goOn next) (m.sent (url.asked.map (client.request method))) := by
  have hexchange := client.exec_exchange_alone hquiet method url
  cases hreply : m.server.replyTo method url with
  | error e =>
    rw [exec_bind_of_error (hreply ▸ hexchange), Server.onward, hreply]
  | ok reply =>
    rw [exec_bind_of_ok (hreply ▸ hexchange), Server.onward, hreply]
    cases hlocation : reply.location with
    | none =>
      simp only [hlocation]
      rfl
    | some location =>
      simp only [hlocation]
      cases url.redirect location with
      | error e => rw [exec_bind_of_error (exec_ofExcept (.error e))]
      | ok next =>
        rw [exec_bind_of_ok (exec_ofExcept (.ok next))]
        cases client.followRedirects with
        | false => rfl
        | true =>
          have hread := exec_readContent_eq reply (m.sent (url.asked.map (client.request method)))
          simp only [Bool.not_true, Bool.false_eq_true, if_false, if_true]
          cases hresult : reply.read with
          | error e => rw [exec_bind_of_error (hresult ▸ hread)]
          | ok content => rw [exec_bind_of_ok (hresult ▸ hread)]

/-- A client takes the course that the servers' answers make. The induction is on how many redirects may be followed. -/
theorem exec_follow (client : Client) (hquiet : m.server.Undisturbed) (method : Method) (left : Nat) (url : Url) :
    exec (client.follow method left url) m = ((m.server.course method client.followRedirects left url).2,
      m.sent ((m.server.course method client.followRedirects left url).1.map (client.request method))) := by
  induction left generalizing m url with
  | zero =>
    have hstep := client.exec_onward hquiet method url fun _ => throw (.transport .tooManyRedirects)
    rw [follow]
    refine hstep.trans ?_
    cases hon : m.server.onward method client.followRedirects url with
    | error e => rw [Server.course_error hon]
    | ok step =>
      obtain ⟨reply, _ | next⟩ := step
      · rw [Server.course_here hon]
      · rw [Server.course_exhausted hon]
        rfl
  | succ left ih =>
    have hstep := client.exec_onward hquiet method url (client.follow method left)
    rw [follow]
    refine hstep.trans ?_
    cases hon : m.server.onward method client.followRedirects url with
    | error e => rw [Server.course_error hon]
    | ok step =>
      obtain ⟨reply, _ | next⟩ := step
      · rw [Server.course_here hon]
      · rw [Server.course_onward hon]
        simp only [ih (m := m.sent (url.asked.map (client.request method))) hquiet next, Machine.sent_sent, Machine.server_sent,
          List.map_append]

/-- What is sent for an address takes its course from there. -/
theorem exec_send_of_ok (client : Client) (hquiet : m.server.Undisturbed) (method : Method) {address : Text} {url : Url}
    (h : Url.ofRequest address = .ok url) : exec (client.send method address) m =
      ((m.server.course method client.followRedirects redirectLimit url).2,
        m.sent ((m.server.course method client.followRedirects redirectLimit url).1.map (client.request method))) := by
  rw [send, h]
  exact client.exec_follow hquiet method redirectLimit url

theorem exec_send_of_error (client : Client) (method : Method) {address : Text} {e : Error} (h : Url.ofRequest address = .error e) :
    exec (client.send method address) m = (.error e, m) := by
  rw [send, h]
  rfl

end Client

/-! ## Requests for the head alone -/

namespace Server

/-- The addresses that a request for the head alone goes to. -/
def headTrail (server : Server) (client : Client) (address : Text) : List Url :=
  match Url.ofRequest address with
  | .error _ => []
  | .ok url => (server.course .head client.followRedirects Client.redirectLimit url).1

/-- What a request for the head alone is answered with. -/
def headStatus (server : Server) (client : Client) (address : Text) : Except Error Int :=
  match Url.ofRequest address with
  | .error e => .error e
  | .ok url => (server.course .head client.followRedirects Client.redirectLimit url).2.bind fun reply => reply.read.map fun _ => reply.status

/-- A request for the head alone is answered with 200, after the redirects that the client follows. -/
def Publishes (server : Server) (client : Client) (address : Text) : Prop :=
  ∃ url reply content, Url.ofRequest address = .ok url ∧
    server.Ends .head client.followRedirects Client.redirectLimit url reply ∧ reply.read = .ok content ∧ reply.status = 200

variable {server server' : Server} {client : Client} {address : Text} {url : Url}

theorem headTrail_of_ok (h : Url.ofRequest address = .ok url) :
    server.headTrail client address = (server.course .head client.followRedirects Client.redirectLimit url).1 := by
  rw [headTrail, h]

theorem headStatus_of_ok (h : Url.ofRequest address = .ok url) : server.headStatus client address =
    (server.course .head client.followRedirects Client.redirectLimit url).2.bind fun reply => reply.read.map fun _ => reply.status := by
  rw [headStatus, h]

theorem isCourse_headTrail (h : Url.ofRequest address = .ok url) : server.IsCourse .head url (server.headTrail client address) := by
  rw [headTrail_of_ok h]
  exact isCourse_course server .head client.followRedirects Client.redirectLimit url

theorem publishes_iff : server.Publishes client address ↔ server.headStatus client address = .ok 200 := by
  constructor
  · rintro ⟨url, reply, content, hurl, hends, hread, hstatus⟩
    rw [headStatus_of_ok hurl, course_ok_iff.2 hends, Except.bind, hread, Except.map, hstatus]
  · intro h
    cases hurl : Url.ofRequest address with
    | error e =>
      rw [headStatus, hurl] at h
      cases h
    | ok url =>
      rw [headStatus_of_ok hurl] at h
      cases hreply : (server.course .head client.followRedirects Client.redirectLimit url).2 with
      | error e =>
        rw [hreply] at h
        cases h
      | ok reply =>
        rw [hreply, Except.bind] at h
        cases hread : reply.read with
        | error e =>
          rw [hread] at h
          cases h
        | ok content =>
          rw [hread] at h
          exact ⟨url, reply, content, hurl, course_ok_iff.1 hreply, hread, Except.ok.inj h⟩

/-- Servers that answer alike on the way cannot be told apart. -/
theorem headStatus_congr (h : ∀ u ∈ server.headTrail client address, server'.answer u.render = server.answer u.render) :
    server'.headStatus client address = server.headStatus client address := by
  cases hurl : Url.ofRequest address with
  | error e => rw [headStatus, headStatus, hurl]
  | ok url =>
    rw [headTrail_of_ok hurl] at h
    rw [headStatus_of_ok hurl, headStatus_of_ok hurl, course_congr h]

end Server

namespace Client

open Action

theorem exec_headStatus {m : Machine} (client : Client) (hquiet : m.server.Undisturbed) (address : Text) :
    exec (client.headStatus address) m =
      (m.server.headStatus client address, m.sent ((m.server.headTrail client address).map (client.request .head))) := by
  rw [headStatus]
  cases hurl : Url.ofRequest address with
  | error e =>
    rw [exec_bind_of_error (client.exec_send_of_error .head hurl), Server.headStatus, Server.headTrail, hurl, List.map_nil,
      Machine.sent_nil]
  | ok url =>
    have hsend := client.exec_send_of_ok hquiet .head hurl
    rw [Server.headStatus_of_ok hurl, Server.headTrail_of_ok hurl]
    cases hreply : (m.server.course .head client.followRedirects redirectLimit url).2 with
    | error e =>
      rw [exec_bind_of_error (hreply ▸ hsend)]
      rfl
    | ok reply =>
      have hread := exec_readContent_eq reply
        (m.sent ((m.server.course .head client.followRedirects redirectLimit url).1.map (client.request .head)))
      rw [exec_bind_of_ok (hreply ▸ hsend)]
      cases hresult : reply.read with
      | error e =>
        rw [exec_bind_of_error (hresult ▸ hread), Except.bind, hresult]
        rfl
      | ok content =>
        rw [exec_bind_of_ok (hresult ▸ hread), Except.bind, hresult]
        rfl

end Client

end Prebuilt
