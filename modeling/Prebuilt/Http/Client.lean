import Prebuilt.Archive.Gzip
import Prebuilt.Http.Url
import Prebuilt.Machine
/-!
Requests over HTTP. A client sends a request, follows redirects if it is set up to, and gives the final answer with its
content decoded.
-/
set_option autoImplicit false

namespace Prebuilt

inductive Method where
  | get
  | head
  deriving DecidableEq, Repr

def Method.name : Method → Text
  | .get => "GET"
  | .head => "HEAD"

/-- The end of an exchange, before its content is read. -/
structure Reply where
  status : Int
  /-- Where the server sends the client instead. -/
  location : Option Text
  /-- The decoded content, unless it breaks the format that it announces. -/
  content : Option Bytes
  /-- The content arrives and then the connection fails. -/
  broken : Option NamedFault
  deriving DecidableEq, Repr

namespace Reply

/-- Formats that a content is wrapped in, the innermost first. -/
def encodings (a : Answer) : List Text :=
  match a.header? "Content-Encoding" with
  | none => []
  | some value => (Text.splitOn ',' value).map fun part => Text.lower (Text.strip part)

/-- Formats other than gzip are left as they are. -/
def unwrap (encodings : List Text) (body : Bytes) : Option Bytes :=
  encodings.foldr (fun (encoding : Text) content => if encoding = "gzip" then content.bind Gzip.content? else content)
    (some body)

def isRedirect (status : Int) : Bool := status ∈ [301, 302, 303, 307, 308]

def ofAnswer (method : Method) (a : Answer) : Reply :=
  let status := match method with
    | .get => a.status
    | .head => a.headStatus.getD a.status
  { status
    location := if isRedirect status then a.header? "Location" else none
    content := unwrap (encodings a) a.body
    broken := a.broken }

end Reply

namespace Action

def refuseBroken (reply : Reply) : Action Unit :=
  match reply.broken with
  | some fault => throw fault.toError
  | none => return ()

/-- The content, read to its end. -/
def readContent (reply : Reply) : Action Bytes :=
  match reply.content with
  | none => throw (.transport .badContent)
  | some content => do
    refuseBroken reply
    return content

end Action

namespace Client

/-- The name this program sends along with its requests. -/
def agentName : Text := "runwrap"

/-- A client of one's own, for as long as it takes. -/
def opened (timeout : Json) : Action Client := do
  let client : Client := ⟨true, timeout, agentName⟩
  Action.record fun j => { j with clients := j.clients ++ [client] }
  return client

/-- Only two schemes lead to a server. -/
def checkScheme (scheme : Text) : Except Error Unit :=
  if scheme.isEmpty then .error (.transport .missingScheme)
  else if scheme = "http" ∨ scheme = "https" then .ok ()
  else .error (.transport (.unsupportedScheme scheme))

/-- One request and the answer to it. -/
def exchange (client : Client) (method : Method) (url : Url) : Action Reply := do
  Action.ofExcept (checkScheme url.scheme)
  let request : Request := ⟨method.name, url.render, client.agent⟩
  Action.record fun j => { j with requests := j.requests ++ [request] }
  let answer := (← get).server.answer url.render
  Action.intrudeAll answer.meanwhile
  match answer.refused with
  | some fault => throw fault.toError
  | none => return Reply.ofAnswer method answer

/-- How many redirects are followed for one request. -/
def redirectLimit : Nat := 20

/-- The reply at the end of a chain of redirects, of which so many may still be followed. -/
def follow (client : Client) (method : Method) : Nat → Url → Action Reply
  | left, url => do
    let reply ← exchange client method url
    match reply.location with
    | none => return reply
    | some location =>
      let next ← Action.ofExcept (url.redirect location)
      if !client.followRedirects then return reply
      let _ ← Action.readContent reply
      match left with
      | 0 => throw (.transport .tooManyRedirects)
      | left + 1 => follow client method left next

/-- The reply to a request, its content not read yet. -/
def send (client : Client) (method : Method) (address : Text) : Action Reply := do
  follow client method redirectLimit (← Action.ofExcept (Url.ofRequest address))

/-- The status that a request for the head alone is answered with. -/
def headStatus (client : Client) (address : Text) : Action Int := do
  let reply ← send client .head address
  let _ ← Action.readContent reply
  return reply.status

end Client

end Prebuilt
