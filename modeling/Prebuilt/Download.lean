import Prebuilt.Archive.Extract
import Prebuilt.Http.Client
/-!
Downloading a file, and downloading an archive in order to unpack it. Every fault of the transport is reported as a failed
download.
-/
set_option autoImplicit false

namespace Prebuilt.Action

def downloading : Log.Origin := ⟨"runwrap_utils.py", "download_file"⟩

def extracting : Log.Origin := ⟨"runwrap_utils.py", "download_and_extract_archive"⟩

/-- The given client, or a new one. -/
def clientOr (given : Option Client) (timeout : Json) : Action Client :=
  match given with
  | some client => return client
  | none => Client.opened timeout

/-- Writes the content at an address to a file. A file that could be opened stays, however much of the content arrives. -/
def fetch (client : Client) (url target : Text) : Action Unit := do
  let reply ← client.send .get url
  if reply.status ≠ 200 then throw (.download (.status url reply.status))
  let location ← create target
  match reply.content with
  | none => throw (.transport .badContent)
  | some content =>
    write location content
    refuseBroken reply

/-- Downloads a file, through a client of its own unless one is given. -/
def downloadFile (given : Option Client) (timeout : Json) (url target : Text) : Action Unit := do
  makeDirectories (Path.parent target) true
  log Log.info downloading (Text.join ["Downloading file from ", url, " to ", target])
  let client ← clientOr given timeout
  catching (fetch client url target) fun
    | .transport fault => some (throw (.download (.transport url fault)))
    | _ => none

/-- The name an archive gets on disk: the end of its address. -/
def archiveName (url : Text) : Text :=
  let name := Text.afterLast '/' url
  if name.isEmpty then "archive" else name

/-- Downloads an archive to a directory of its own, which goes in any case, and unpacks it into the target. -/
def downloadArchive (given : Option Client) (timeout : Json) (url target type : Text) : Action Unit := do
  let directory ← makeTemporary (← get).temporary "runwrap-"
  let archive := Path.join directory (archiveName url)
  let work : Action Unit := do
    downloadFile given timeout url archive
    log Log.info extracting (Text.join ["Extracting ", archive, " to ", target])
    extractArchive archive target type
  ensure work (discard directory)

end Prebuilt.Action
