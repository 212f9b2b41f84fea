import Prebuilt.Http.Client
import Prebuilt.Proofs.Actions.Bounded
import Prebuilt.Proofs.Text.Quoting
/-!
What can go wrong with a request. An address may be none, the transport may fail, and a server may be out of order; nothing else
happens, whatever is answered.
-/
set_option autoImplicit false

namespace Prebuilt

/-- What a request can end with. -/
def Error.IsOfRequest (e : Error) : Prop := e.IsOfWork ∨ ∃ fault, e = .transport fault

variable {α : Type} {E : Error → Prop}

/-! ## Addresses -/

/-- A fault that is described in text that can be written down. -/
def UrlFault.IsPlain (fault : UrlFault) : Prop := fault.message.isString = true

theorem UrlFault.isPlain_control (c : CodePoint) (position : Nat) : (control c position).IsPlain := by
  refine (Text.isString_join _).trans ?_
  simp only [List.all_cons, List.all_nil, Text.isString_quoted, Text.isString_ofNat, Text.isString_chars, Bool.and_self]

theorem UrlFault.isPlain_fragment (c : CodePoint) (position : Nat) : (componentControl "fragment" c position).IsPlain := by
  refine (Text.isString_join _).trans ?_
  simp only [List.all_cons, List.all_nil, Text.isString_quoted, Text.isString_ofNat, Text.isString_chars, Bool.and_self]

namespace Url

section

variable (hE : ∀ fault : UrlFault, fault.IsPlain → E (.request fault)) (hencode : ∀ fault, E (.unencodable fault))

include hencode in
theorem yields_quote (isPart : CodePoint → Bool) (t : Text) : Yields E (quote isPart t) := by
  have hencoded (c : CodePoint) : Yields E (percentEncoded c) := by
    unfold percentEncoded
    split
    · exact yields_error (hencode _)
    · exact yields_ok _
  induction t with
  | nil => exact yields_ok _
  | cons c r ih =>
    unfold quote
    exact Yields.ite (fun _ => ih.bind fun _ _ => yields_ok _) fun _ => (hencoded c).bind fun _ _ => ih.bind fun _ _ => yields_ok _

include hE

/-- A fault that names a value shows it between quotes. -/
theorem yields_shown {fault : Text → UrlFault} {intro : String} (hmessage : ∀ t, (fault t).message = intro ++ t.quoted) (t : Text) :
    Yields E (.error (.request (fault t)) : Except Error α) := by
  refine yields_error (hE _ ?_)
  rw [UrlFault.IsPlain, hmessage, Text.isString_append, Text.isString_quoted, Bool.and_true]
  exact Text.isString_chars _

theorem yields_portNumber (port : Option Text) (scheme : Text) : Yields E (portNumber port scheme) := by
  unfold portNumber
  split
  · exact yields_ok _
  · exact yields_ok _
  · split
    · exact yields_shown hE (fun _ => rfl) _
    · exact yields_ok _

theorem yields_checkPath (path : Text) (hasScheme hasAuthority : Bool) : Yields E (Url.checkPath path hasScheme hasAuthority) :=
  Yields.ite (fun _ => yields_error (hE _ rfl)) fun _ => Yields.ite (fun _ => yields_error (hE _ rfl)) fun _ =>
    Yields.ite (fun _ => yields_error (hE _ rfl)) fun _ => yields_ok _

include hencode

theorem yields_encodeHost (host : Text) : Yields E (encodeHost host) := by
  refine Yields.ite (fun _ => yields_ok _) fun _ => Yields.ite (fun _ => ?_) fun _ => Yields.ite (fun _ => ?_) fun _ => ?_
  · exact Yields.ite (fun _ => yields_ok _) fun _ => yields_shown hE (fun _ => rfl) _
  · exact Yields.ite (fun _ => yields_ok _) fun _ => yields_shown hE (fun _ => rfl) _
  · exact Yields.ite (fun _ => yields_quote hencode _ _) fun _ => yields_shown hE (fun _ => rfl) _

theorem yields_ofParts (parts : Parts) (otherHost : Option Text) : Yields E (ofParts parts otherHost) := by
  have hoption (isPart : CodePoint → Bool) (t : Option Text) : Yields E (t.mapM (quote isPart)) := by
    cases t with
    | none => exact yields_ok _
    | some t => exact (yields_quote hencode _ t).map some
  unfold ofParts
  refine (yields_quote hencode _ _).bind fun _ _ => (yields_encodeHost hE hencode _).bind fun _ _ => ?_
  refine (yields_portNumber hE _ _).bind fun _ _ => (yields_checkPath hE _ _ _).bind fun _ _ => ?_
  exact (yields_quote hencode _ _).bind fun _ _ => (hoption _ _).bind fun _ _ => (hoption _ _).bind fun _ _ => yields_ok _

theorem yields_parse (t : Text) : Yields E (parse t) := by
  refine Yields.ite (fun _ => yields_error (hE _ rfl)) fun _ => ?_
  split
  · exact yields_error (hE _ (UrlFault.isPlain_control _ _))
  · exact yields_ofParts hE hencode _ _

theorem yields_ofRequest (t : Text) : Yields E (ofRequest t) :=
  (yields_parse hE hencode t).bind fun _ _ => Yields.ite (fun _ => yields_ofParts hE hencode _ _) fun _ => yields_ok _

theorem yields_withFragment (u next : Url) : Yields E (match u.fragment with
    | none => return next
    | some f =>
      if f.isEmpty || !((next.fragment.getD []).isEmpty) then return next
      else
        let f := unquote f
        match f.find? isControl with
        | some c => throw (.request (.componentControl "fragment" c (f.takeWhile (!isControl ·)).length))
        | none => ofParts { next.toParts with fragment := some f } none) := by
  cases u.fragment with
  | none => exact yields_ok _
  | some f =>
    refine Yields.ite (fun _ => yields_ok _) fun _ => ?_
    dsimp only
    cases (unquote f).find? isControl with
    | some c => exact yields_error (hE _ (UrlFault.isPlain_fragment _ _))
    | none => exact yields_ofParts hE hencode _ _

/-- A redirect is at fault with the address that it leads to, or with what it says. -/
theorem yields_redirect (htells : ∀ fault : UrlFault, fault.IsPlain → E (.transport (.badLocation fault.message)))
    (u : Url) (location : Text) : Yields E (u.redirect location) := by
  have hnext (next : Url) := Yields.ite (E := E) (c := next.isRelative = true)
    (fun _ => (yields_parse hE hencode (joinText u.render next.render)).bind fun next _ => yields_withFragment hE hencode u next)
    fun _ => yields_withFragment hE hencode u next
  have hparsed (next : Url) := Yields.ite (E := E) (c := (!next.scheme.isEmpty && next.host.isEmpty) = true)
    (fun _ => (yields_ofParts hE hencode next.toParts (some (bracketed u.host))).bind fun next _ => hnext next) fun _ => hnext next
  have hlocation := yields_parse hE hencode location
  have hplain : Yields (fun e => ∀ fault, e = .request fault → fault.IsPlain) (parse location) :=
    yields_parse (fun _ h _ he => Error.request.inj he ▸ h) (fun _ _ he => by cases he) location
  unfold redirect
  cases hparse : parse location with
  | ok next => exact hparsed next
  | error e =>
    cases e with
    | request fault => exact yields_error (htells fault (hplain _ hparse fault rfl))
    | _ => exact yields_error (hlocation _ hparse)

end

end Url

/-! ## Requests -/

theorem NamedFault.isOfRequest_toError (f : NamedFault) : Error.IsOfRequest f.toError := by
  unfold toError
  split
  · exact .inr ⟨_, rfl⟩
  · exact .inl (.inr rfl)

namespace Action

variable (hE : ∀ e, Error.IsOfRequest e → E e)

include hE

theorem bounded_refuseBroken (reply : Reply) : Bounded E (refuseBroken reply) := by
  unfold refuseBroken
  split
  · exact bounded_throw (hE _ (NamedFault.isOfRequest_toError _))
  · exact bounded_pure ()

theorem bounded_readContent (reply : Reply) : Bounded E (readContent reply) := by
  unfold readContent
  split
  · exact bounded_throw (hE _ (.inr ⟨_, rfl⟩))
  · exact (bounded_refuseBroken hE reply).bind fun _ => bounded_pure _

theorem bounded_exchange (client : Client) (method : Method) (url : Url) : Bounded E (client.exchange method url) := by
  have hscheme : Yields E (Client.checkScheme url.scheme) :=
    Yields.ite (fun _ => yields_error (hE _ (.inr ⟨_, rfl⟩))) fun _ =>
      Yields.ite (fun _ => yields_ok ()) fun _ => yields_error (hE _ (.inr ⟨_, rfl⟩))
  refine (bounded_ofExcept hscheme).bind fun _ => Bounded.bind (bounded_record (fun _ => rfl) fun _ => rfl) fun _ => bounded_get.bind fun m => ?_
  refine (bounded_intrudeAll (fun e he => hE e (.inl he)) _).bind fun _ => ?_
  split
  · exact bounded_throw (hE _ (NamedFault.isOfRequest_toError _))
  · exact bounded_pure _

theorem bounded_follow (client : Client) (method : Method) (left : Nat) (url : Url) :
    Bounded E (client.follow method left url) := by
  have hredirect (u : Url) (location : Text) : Yields E (u.redirect location) :=
    Url.yields_redirect (fun _ _ => hE _ (.inl (.inr rfl))) (fun _ => hE _ (.inl (.inr rfl))) (fun _ _ => hE _ (.inr ⟨_, rfl⟩)) u location
  induction left generalizing url with
  | zero =>
    unfold Client.follow
    refine (bounded_exchange hE client method url).bind fun reply => ?_
    split
    · exact bounded_pure _
    · refine (bounded_ofExcept (hredirect url _)).bind fun next => Bounded.ite (fun _ => bounded_pure _) fun _ => ?_
      exact (bounded_readContent hE reply).bind fun _ => bounded_throw (hE _ (.inr ⟨_, rfl⟩))
  | succ left ih =>
    unfold Client.follow
    refine (bounded_exchange hE client method url).bind fun reply => ?_
    split
    · exact bounded_pure _
    · refine (bounded_ofExcept (hredirect url _)).bind fun next => Bounded.ite (fun _ => bounded_pure _) fun _ => ?_
      exact (bounded_readContent hE reply).bind fun _ => ih next

theorem bounded_send (client : Client) (method : Method) (address : Text) : Bounded E (client.send method address) :=
  (bounded_ofExcept (Url.yields_ofRequest (fun _ _ => hE _ (.inl (.inr rfl))) (fun _ => hE _ (.inl (.inr rfl))) address)).bind fun _ =>
    bounded_follow hE client method _ _

end Action

end Prebuilt
