import Prebuilt.Machine
/-!
Marking a file as executable, moving something out of the way under a new name, and removing it for good.
-/
set_option autoImplicit false

namespace Prebuilt.Action

/-- Lets everybody execute what stands at the path. -/
def makeExecutable (path : Text) : Action Unit := do
  let (_, node) ← status path
  setMode path (node.mode ||| 0o111)

/-- The hidden sibling that a path is moved to. -/
def asidePath (path identifier : Text) : Text :=
  let path := Path.normalize path
  Path.join (Path.parent path) (Text.join [".", Path.base path, "-old-", identifier])

/-- Renames what stands at the path to a hidden sibling that nobody else uses, so that it can be removed at leisure. Gives
the new path, or none if nothing stands there. -/
def moveAside (path : Text) : Action (Option Text) := do
  let aside := asidePath path (← freshIdentifier)
  match ← attempt (rename path aside) with
  | .ok _ => return some aside
  | .error (.system e) => if e.errno = .noEntry then return none else throw (.system e)
  | .error e => throw e

/-- Removes what stands at the path, a directory with all beneath it; a link goes and what it leads to stays. -/
def removePath (path : Text) : Action Unit := do
  if (← isDirectory path) && !(← isLink path) then removeTree path
  else if ← hasEntry path then unlink path
  else return ()

/-- Removes what was moved aside, if anything was. -/
def removeAside (aside : Option Text) : Action Unit :=
  match aside with
  | some path => removePath path
  | none => return ()

end Prebuilt.Action
