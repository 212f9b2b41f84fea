import Prebuilt.Files.Path
/-!
Paths as values: a root and components. Empty components and single dots are gone; `..` stays, since what it leads to
depends on links.
-/
set_option autoImplicit false

namespace Prebuilt

structure FilePath where
  /-- Empty for a relative path; a path that starts with exactly two slashes keeps them. -/
  root : Text
  parts : List Text
  deriving DecidableEq, Repr

namespace FilePath

def isPart (part : Text) : Bool := !part.isEmpty && part != "."

def ofText (path : Text) : FilePath := ⟨Path.leadingSlashes path, (Text.splitOn '/' path).filter isPart⟩

def toText (p : FilePath) : Text :=
  let path := p.root ++ Text.joinWith "/" p.parts
  if path.isEmpty then "." else path

def append (p next : FilePath) : FilePath := if next.root.isEmpty then ⟨p.root, p.parts ++ next.parts⟩ else next

instance : HDiv FilePath Text FilePath := ⟨fun p next => p.append (ofText next)⟩

/-- A path without components is its own parent. -/
def parent (p : FilePath) : FilePath := ⟨p.root, p.parts.dropLast⟩

/-- The last component, if there is one. -/
def name (p : FilePath) : Text := p.parts.getLast?.getD []

end FilePath

end Prebuilt
