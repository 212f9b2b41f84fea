import Prebuilt.CommandLine.Parser
import Prebuilt.Package
/-!
The two programs: one forwards its arguments to the wrapped tool, the other manages the installation.
-/
set_option autoImplicit false

namespace Prebuilt.Program

/-- How a program ends: at its command line, or after its work. -/
inductive Ending where
  | stopped (status : Int)
  | finished (status : Int)
  deriving DecidableEq, Repr

def Ending.status : Ending → Int
  | .stopped status => status
  | .finished status => status

def managerName : Text := "runwrap"

def publishedText (published : Bool) : Text := if published then "ok" else "missing"

def printPairs (pairs : List (Text × Text)) : Action Unit :=
  pairs.forM fun (key, value) => Action.print (Text.join [key, " ", value, "\n"])

/-- Carries out a command and gives the exit status. -/
def execute (invocation : CommandLine.Invocation) : Action Int := do
  let (version, wrapper) ← Package.bundled
  match invocation.command with
  | .install =>
    let path ← wrapper.install (.bool invocation.force)
    Action.print (path.toText ++ "\n")
    return 0
  | .verify =>
    let results ← wrapper.verifyUrls
    printPairs (results.map fun (key, published) => (key, publishedText published))
    return if results.all (·.2) then 0 else 1
  | .urls =>
    printPairs wrapper.config.urls
    return 0
  | .version =>
    Action.print (version ++ "\n")
    return 0

/-- Shows progress messages on the stream for diagnostics. -/
def beVerbose : Action Unit := modify fun m => { m with threshold := Log.info, verbose := true }

/-- The program that manages the installation. -/
def manage (arguments : List Text) : Action Ending := do
  match CommandLine.parse arguments with
  | .error stop =>
    Action.print stop.output
    Action.notify stop.notice
    return .stopped stop.status
  | .ok invocation =>
    if invocation.verbose then beVerbose
    return .finished (← Wrapper.reporting managerName (execute invocation))

/-- The program that forwards its arguments to the tool. -/
def forward (arguments : List Text) : Action Int :=
  Wrapper.reporting Release.binary do
    let (_, wrapper) ← Package.bundled
    wrapper.run Release.binary arguments

end Prebuilt.Program
