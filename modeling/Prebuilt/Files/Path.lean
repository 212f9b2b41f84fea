import Prebuilt.Text.Basic
/-!
Paths as text: components between slashes. These functions look at the text alone and not at any file system.
-/
set_option autoImplicit false

namespace Prebuilt.Path

def isSlash (c : CodePoint) : Bool := c == '/'

def isAbsolute (path : Text) : Bool := path.head? == some (CodePoint.char '/')

def endsInSlash (path : Text) : Bool := path.getLast? == some (CodePoint.char '/')

/-- The second path seen from the first; an absolute one replaces it. -/
def join (path next : Text) : Text :=
  if isAbsolute next then next
  else if path.isEmpty || endsInSlash path then path ++ next
  else path ++ "/" ++ next

def dropEndSlashes (path : Text) : Text := (path.reverse.dropWhile isSlash).reverse

/-- The last component, empty after a closing slash. -/
def base (path : Text) : Text := Text.afterLast '/' path

/-- What stands before the last component, without closing slashes unless it holds nothing else. -/
def parent (path : Text) : Text :=
  let head := path.take (path.length - (base path).length)
  if head.all isSlash then head else dropEndSlashes head

/-- Two slashes at the start are kept, any other number of them is one. -/
def leadingSlashes (path : Text) : Text :=
  match path.takeWhile isSlash with
  | [] => ""
  | [_, _] => "//"
  | _ => "/"

/-- Components with the dots taken out: `..` removes the component before it, and stays where there is none; at the top
of an absolute path it has no effect. The components before are given last first. -/
def reduce (absolute : Bool) (done : List Text) : List Text → List Text
  | [] => done.reverse
  | part :: r =>
    if part.isEmpty ∨ part = "." then reduce absolute done r
    else if part = ".." then
      match done with
      | [] => if absolute then reduce absolute [] r else reduce absolute [part] r
      | last :: more => if last = ".." then reduce absolute (part :: done) r else reduce absolute more r
    else reduce absolute (part :: done) r

def normalize (path : Text) : Text :=
  let slashes := leadingSlashes path
  let parts := reduce (!slashes.isEmpty) [] (Text.splitOn '/' path)
  let path := slashes ++ Text.joinWith "/" parts
  if path.isEmpty then "." else path

end Prebuilt.Path
