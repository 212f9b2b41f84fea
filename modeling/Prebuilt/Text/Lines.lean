import Prebuilt.Text.Basic
/-!
Line ends. A text file may end its lines with a carriage return, a line feed, or both; read as text, each is one line feed.
-/
set_option autoImplicit false

namespace Prebuilt.Text

/-- The lines are unified from the first code point on; `done` is what came before, last code point first. -/
def unifyLineEndsFrom (done : Text) : Text → Text
  | .char '\r' :: .char '\n' :: r => unifyLineEndsFrom (.char '\n' :: done) r
  | .char '\r' :: r => unifyLineEndsFrom (.char '\n' :: done) r
  | c :: r => unifyLineEndsFrom (c :: done) r
  | [] => done.reverse

def unifyLineEnds (t : Text) : Text := unifyLineEndsFrom [] t

end Prebuilt.Text
