import Prebuilt.Files.FilePath
import Prebuilt.Files.Requests
import Prebuilt.Table
/-!
Resolving a path: the path of the same thing without links and dots. Components that are not there are kept as they are;
a link that leads back to itself ends the search, and what follows it is kept too.
-/
set_option autoImplicit false

namespace Prebuilt

/-- Links met on the way, each with the path it leads to; none for one that is still being followed. -/
abbrev LinkTrail := Table (Option Text)

namespace FileSystem

/-- What stands at a path, if it is a link. -/
def linkTarget? (fs : FileSystem) (path : Text) : Option Text :=
  match fs.status path false with
  | .ok (_, .link target) => some target
  | _ => none

/-- The path one level up; two dots that cannot be taken back pile up. -/
def upward (path : Text) : Text :=
  if path.isEmpty then ".."
  else if Path.base path = ".." then Path.join (Path.join (Path.parent path) "..") ".."
  else Path.parent path

/-- The path so far with the components that follow, or the same with everything that is left after a loop. The number
bounds how many links are being followed within one another. -/
def resolveFrom (fs : FileSystem) (depth : Nat) (trail : LinkTrail) (path : Text) :
    List Text → Text × Bool × LinkTrail
  | [] => (path, true, trail)
  | part :: rest =>
    if part.isEmpty ∨ part = "." then resolveFrom fs depth trail path rest
    else if part = ".." then resolveFrom fs depth trail (upward path) rest
    else
      let next := Path.join path part
      match fs.linkTarget? next with
      | none => resolveFrom fs depth trail next rest
      | some target =>
        match Table.get? next trail with
        | some (some resolved) => resolveFrom fs depth trail resolved rest
        | some none => (Path.join next (Text.joinWith "/" rest), false, trail)
        | none =>
          match depth with
          | 0 => (Path.join next (Text.joinWith "/" rest), false, trail)
          | depth + 1 =>
            let origin : Text := if Path.isAbsolute target then "/" else path
            let (inner, complete, trail) :=
              resolveFrom fs depth ((next, none) :: trail) origin (Text.splitOn '/' target)
            if complete then resolveFrom fs (depth + 1) ((next, some inner) :: trail) inner rest
            else (Path.join inner (Text.joinWith "/" rest), false, trail)
  termination_by parts => (depth, parts.length)

/-- The text of the working directory. -/
def workingPath (fs : FileSystem) : Text := "/" ++ Text.joinWith "/" fs.workingDirectory

def absolute (fs : FileSystem) (path : Text) : Text :=
  Path.normalize (if Path.isAbsolute path then path else Path.join fs.workingPath path)

def resolvedText (fs : FileSystem) (path : Text) : Text :=
  let origin : Text := if Path.isAbsolute path then "/" else ""
  fs.absolute (fs.resolveFrom (2 * fs.nodes.length + 8) [] origin (Text.splitOn '/' path)).1

end FileSystem

end Prebuilt
