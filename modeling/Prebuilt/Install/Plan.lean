import Prebuilt.Json.Basic
import Prebuilt.Release
/-!
What is to be downloaded for a platform, and what has become of it.
-/
set_option autoImplicit false

namespace Prebuilt

inductive DownloadStatus where
  | pending
  | inProgress
  | completed
  | failed
  /-- A status that somebody else has made up. -/
  | other (name : Text)
  deriving DecidableEq, Repr

namespace DownloadStatus

def name : DownloadStatus → Text
  | .pending => "pending"
  | .inProgress => "in_progress"
  | .completed => "completed"
  | .failed => "failed"
  | .other name => name

def ofName (name : Text) : DownloadStatus :=
  let known : List DownloadStatus := [.pending, .inProgress, .completed, .failed]
  (known.find? (·.name = name)).getD (.other name)

end DownloadStatus

/-- One archive to download, where its content goes, and the binaries it has to hold. -/
structure Plan where
  key : Text
  dependency : Dependency
  destination : Text
  binaries : List Text
  /-- Replace what is installed even if it is current. -/
  force : Json
  status : DownloadStatus
  errorMessage : Option Text

namespace Plan

def isForced (p : Plan) : Bool := !p.force.isFalsy

def describe (p : Plan) : Text :=
  Text.join ["DownloadPlan(key=", p.key, ", status=", p.status.name, ", url=", p.dependency.url, ")"]

end Plan

/-- How far the dependency of a platform has come. -/
structure DependencyState where
  key : Text
  status : DownloadStatus
  path : Option Text
  errorMessage : Option Text
  deriving DecidableEq, Repr

namespace DependencyState

def isDownloaded (s : DependencyState) : Bool := s.status = .completed

def describe (s : DependencyState) : Text :=
  Text.join ["DependencyState(key=", s.key, ", status=", s.status.name, ", path=", s.path.getD "None", ")"]

end DependencyState

end Prebuilt
