import Prebuilt.Proofs.Http.Courses
import Prebuilt.Proofs.Http.Faults
/-!
How requests fail. If the servers fail with nothing but faults of the transport, and each redirect on the way leads to an
address or is refused, then a request ends with a reply or with a fault of the transport, and what is said of the fault can be
written down.
-/
set_option autoImplicit false

namespace Prebuilt

variable {α β : Type} {P : β → Prop}

/-- Whatever the computation gives is as stated. -/
def Gives (P : β → Prop) (r : Except Error β) : Prop := ∀ b, r = .ok b → P b

theorem gives_ok {b : β} (h : P b) : Gives P (.ok b) := fun _ hb => Except.ok.inj hb ▸ h

theorem gives_error (e : Error) : Gives P (.error e) := nofun

theorem Gives.bind {Q : α → Prop} {r : Except Error α} {f : α → Except Error β} (hr : Gives Q r) (hf : ∀ a, Q a → Gives P (f a)) :
    Gives P (r >>= f) := by
  cases r with
  | ok a => exact hf a (hr a rfl)
  | error e => exact gives_error e

theorem Gives.ite {c : Prop} [Decidable c] {r r' : Except Error β} (hr : Gives P r) (hr' : Gives P r') :
    Gives P (if c then r else r') := by
  split
  · exact hr
  · exact hr'

/-! ## Schemes -/

namespace Url

/-- An address with a scheme that can be written down. -/
def IsPlain (u : Url) : Prop := u.scheme.isString = true

theorem gives_ofParts (parts : Parts) (hscheme : parts.scheme.isString = true) (otherHost : Option Text) :
    Gives IsPlain (ofParts parts otherHost) := by
  intro u h
  simp only [ofParts, bind, Except.bind] at h
  repeat (split at h; · cases h)
  cases h
  rw [IsPlain, Text.isString_toLowerAscii, hscheme]

theorem isChar_of_isSchemePart {c : CodePoint} (h : isSchemePart c = true) : c.isChar = true := by
  cases c with
  | char c => rfl
  | lone n =>
    have hvalue : (CodePoint.lone n).value = 0xD800 + n.val := rfl
    simp only [isSchemePart, CodePoint.isAsciiLetter, CodePoint.isAsciiDigit, hvalue, Bool.or_eq_true, Bool.and_eq_true,
      decide_eq_true_eq, beq_iff_eq, reduceCtorEq, or_false] at h
    omega

theorem isString_splitScheme (t : Text) : (splitScheme t).1.isString = true := by
  have hpart : Text.isString (t.takeWhile isSchemePart) = true :=
    List.all_eq_true.2 fun c hc => isChar_of_isSchemePart (List.mem_takeWhile_imp hc)
  unfold splitScheme
  dsimp only
  split
  · split
    · rfl
    · split
      · exact hpart
      · rfl
  · rfl

theorem gives_parse (t : Text) : Gives IsPlain (parse t) := by
  unfold parse
  refine Gives.ite (gives_error _) ?_
  split
  · exact gives_error _
  · exact gives_ofParts _ (isString_splitScheme t) none

theorem gives_ofRequest (t : Text) : Gives IsPlain (ofRequest t) :=
  (gives_parse t).bind fun _ hu => Gives.ite (gives_ofParts _ rfl none) (gives_ok hu)

theorem gives_withFragment (u : Url) {next : Url} (hnext : next.IsPlain) : Gives IsPlain (match u.fragment with
    | none => return next
    | some f =>
      if f.isEmpty || !((next.fragment.getD []).isEmpty) then return next
      else
        let f := unquote f
        match f.find? isControl with
        | some c => throw (.request (.componentControl "fragment" c (f.takeWhile (!isControl ·)).length))
        | none => ofParts { next.toParts with fragment := some f } none) := by
  split
  · exact gives_ok hnext
  · refine Gives.ite (gives_ok hnext) ?_
    dsimp only
    split
    · exact gives_error _
    · refine gives_ofParts _ ?_ none
      exact hnext

theorem gives_redirect (u : Url) (location : Text) : Gives IsPlain (u.redirect location) := by
  have hrelative {next : Url} (hnext : next.IsPlain) := Gives.ite (c := next.isRelative = true)
    ((gives_parse (joinText u.render next.render)).bind fun _ h => gives_withFragment u h) (gives_withFragment u hnext)
  have hhosted {next : Url} (hnext : next.IsPlain) := Gives.ite (c := (!next.scheme.isEmpty && next.host.isEmpty) = true)
    ((gives_ofParts next.toParts hnext (some (bracketed u.host))).bind fun _ h => hrelative h) (hrelative hnext)
  unfold redirect
  cases hparse : parse location with
  | ok next => exact hhosted (gives_parse location next hparse)
  | error e => cases e <;> exact gives_error _

end Url

/-! ## Faults of the transport -/

/-- A fault of the transport that is described in text that can be written down. -/
def Error.IsOfTransport (e : Error) : Prop := ∃ fault, e = .transport fault ∧ fault.message.isString = true

namespace Server

/-- The servers fail with nothing but faults of the transport. -/
def IsTransported (server : Server) : Prop :=
  ∀ address fault, (server.answer address).refused = some fault ∨ (server.answer address).broken = some fault →
    fault.name ∈ transportNames ∧ fault.text.isString = true

/-- Each redirect on the way leads to an address, or is refused as a fault of the transport. -/
def IsPassable (server : Server) (method : Method) (trail : List Url) : Prop :=
  ∀ url ∈ trail, ∀ location, (Reply.ofAnswer method (server.answer url.render)).location = some location →
    ∀ e, url.redirect location = .error e → ∃ fault, e = .transport fault

variable {server : Server} {method : Method} {follows : Bool} {left : Nat} {url : Url} {reply : Reply}

/-- What is said around a value can be written down if the value can. -/
theorem isString_around (intro ending : String) {t : Text} (h : t.isString = true) : (Text.join [intro, t, ending]).isString = true := by
  simp only [Text.isString_join, List.all_cons, List.all_nil, h, Text.isString_chars, Bool.and_self]

theorem yields_checkScheme (h : url.IsPlain) : Yields Error.IsOfTransport (Client.checkScheme url.scheme) :=
  Yields.ite (fun _ => yields_error ⟨_, rfl, rfl⟩) fun _ => Yields.ite (fun _ => yields_ok ()) fun _ =>
    yields_error ⟨_, rfl, isString_around _ _ h⟩

theorem isOfTransport_toError {fault : NamedFault} (h : fault.name ∈ transportNames ∧ fault.text.isString = true) :
    Error.IsOfTransport fault.toError := by
  rw [NamedFault.toError, if_pos h.1]
  exact ⟨_, rfl, h.2⟩

theorem yields_redirect {location : Text} (hpass : ∀ e, url.redirect location = .error e → ∃ fault, e = .transport fault) :
    Yields Error.IsOfTransport (url.redirect location) := by
  intro e he
  obtain ⟨fault, rfl⟩ := hpass e he
  have hsaid : Yields (fun e => ∀ fault, e = .transport fault → fault.message.isString = true) (url.redirect location) :=
    Url.yields_redirect (fun _ _ _ h => by cases h) (fun _ _ h => by cases h)
      (fun fault h _ hfault => Error.transport.inj hfault ▸ isString_around _ _ h) url location
  exact ⟨fault, rfl, hsaid _ he fault rfl⟩

section

variable (hserver : server.IsTransported)

include hserver

theorem yields_read (address : Text) : Yields Error.IsOfTransport (Reply.ofAnswer method (server.answer address)).read := by
  unfold Reply.read
  split
  · exact yields_error ⟨_, rfl, rfl⟩
  · split
    · rename_i fault hbroken
      exact yields_error (isOfTransport_toError (hserver address fault (.inr hbroken)))
    · exact yields_ok _

theorem yields_replyTo (hplain : url.IsPlain) : Yields Error.IsOfTransport (server.replyTo method url) := by
  unfold replyTo
  split
  · rename_i e hscheme
    exact yields_error (yields_checkScheme hplain e hscheme)
  · split
    · rename_i fault hrefused
      exact yields_error (isOfTransport_toError (hserver _ fault (.inl hrefused)))
    · exact yields_ok _

theorem yields_onward (hplain : url.IsPlain) (hpass : server.IsPassable method url.asked) :
    Yields Error.IsOfTransport (server.onward method follows url) := by
  unfold onward
  split
  · rename_i e hreply
    exact yields_error (yields_replyTo hserver hplain e hreply)
  · rename_i reply hreply
    obtain ⟨-, -, rfl⟩ := replyTo_ok hreply
    split
    · exact yields_ok _
    · rename_i location hlocation
      have hmem : url ∈ url.asked := asked_of_replyTo hreply ▸ List.mem_singleton_self url
      have hredirect := yields_redirect (hpass url hmem location hlocation)
      split
      · rename_i e hnext
        exact yields_error (hredirect e hnext)
      · refine Yields.ite (fun _ => ?_) fun _ => yields_ok _
        split
        · rename_i e hread
          exact yields_error (yields_read hserver _ e hread)
        · exact yields_ok _

/-- A course that can be passed ends with a reply or a fault of the transport. -/
theorem yields_course (hplain : url.IsPlain) (hpass : server.IsPassable method (server.course method follows left url).1) :
    Yields Error.IsOfTransport (server.course method follows left url).2 := by
  fun_induction course server method follows left url with
  | case1 left url e hon => exact yields_error (yields_onward hserver hplain hpass e hon)
  | case2 left url reply hon => exact yields_ok reply
  | case3 url first next hon => exact yields_error ⟨_, rfl, rfl⟩
  | case4 url first next hon left ih =>
    obtain ⟨-, hleads⟩ := onward_ok hon
    obtain ⟨location, -, hnext⟩ := hleads next rfl
    exact ih (Url.gives_redirect url location next hnext) fun u hu => hpass u (List.mem_append_right _ hu)

end

/-- What a course ends with is the reply of a server. -/
theorem Ends.exists_answer (h : server.Ends method follows left url reply) :
    ∃ address, reply = Reply.ofAnswer method (server.answer address) := by
  induction h with
  | here hon =>
    obtain ⟨hreply, -⟩ := onward_ok hon
    exact ⟨_, (replyTo_ok hreply).2.2⟩
  | onward _ _ ih => exact ih

/-- A request for the head alone ends with a status or a fault of the transport. -/
theorem yields_headStatus (hserver : server.IsTransported) {client : Client} {address : Text} (hurl : Url.ofRequest address = .ok url)
    (hpass : server.IsPassable .head (server.headTrail client address)) :
    Yields Error.IsOfTransport (server.headStatus client address) := by
  rw [headTrail_of_ok hurl] at hpass
  rw [headStatus_of_ok hurl]
  refine Yields.bind (yields_course hserver (Url.gives_ofRequest address url hurl) hpass) fun reply hreply => Yields.map _ ?_
  obtain ⟨answered, rfl⟩ := (course_ok_iff.1 hreply).exists_answer
  exact yields_read hserver answered

end Server

end Prebuilt
