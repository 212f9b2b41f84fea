import Prebuilt.Error
/-!
The servers of a world: what each address answers, and what happens on the way.
-/
set_option autoImplicit false

namespace Prebuilt

/-- What somebody else does to a path in the file system. -/
inductive Intrusion where
  | file (mode : Nat) (content : Bytes)
  | directory (mode : Nat)
  | link (target : Text)
  | gone
  deriving DecidableEq, Repr

/-- Paths and what happens to them, in order. -/
abbrev Intrusions := List (Text × Intrusion)

/-- A fault by its name and text. -/
structure NamedFault where
  name : Text
  text : Text
  deriving DecidableEq, Repr

structure Answer where
  status : Int
  /-- The status for requests that ask for the head only, if it differs. -/
  headStatus : Option Int
  headers : Table Text
  body : Bytes
  /-- The request fails. -/
  refused : Option NamedFault
  /-- The body arrives and then the connection fails. -/
  broken : Option NamedFault
  /-- What another process does just before the answer. -/
  meanwhile : Intrusions
  deriving DecidableEq, Repr

abbrev Server := Table Answer

namespace Server

def notFound : Answer := ⟨404, none, [], [], none, none, []⟩

def answer (server : Server) (address : Text) : Answer := (Table.get? address server).getD notFound

end Server

/-- A header by its name, in whatever case it is written. -/
def Answer.header? (a : Answer) (name : Text) : Option Text :=
  (a.headers.find? fun (key, _) => Text.toLowerAscii key = Text.toLowerAscii name).map (·.2)

/-- Faults of the transport, by name; other faults of a client are none. -/
def transportNames : List Text :=
  ["HTTPError", "HTTPStatusError", "RequestError", "TransportError", "TimeoutException", "ConnectTimeout", "ReadTimeout",
    "WriteTimeout", "PoolTimeout", "NetworkError", "ConnectError", "ReadError", "WriteError", "CloseError",
    "ProtocolError", "LocalProtocolError", "RemoteProtocolError", "ProxyError", "UnsupportedProtocol", "DecodingError",
    "TooManyRedirects"]

def NamedFault.toError (f : NamedFault) : Error :=
  if f.name ∈ transportNames then .transport (.failed f.name f.text) else .client f.name f.text

end Prebuilt
