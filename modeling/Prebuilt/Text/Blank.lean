import Prebuilt.Text.Basic
/-!
Blanks: the white space of Unicode together with the four information separators U+001C to U+001F.
-/
set_option autoImplicit false

namespace Prebuilt

def CodePoint.isBlank (c : CodePoint) : Bool :=
  let n := c.value
  (9 ≤ n && n ≤ 13) || (28 ≤ n && n ≤ 32) || n == 0x85 || n == 0xA0 || n == 0x1680 ||
    (0x2000 ≤ n && n ≤ 0x200A) || n == 0x2028 || n == 0x2029 || n == 0x202F || n == 0x205F || n == 0x3000

/-- The text without the blanks at its two ends. -/
def Text.strip (t : Text) : Text := Text.stripWith CodePoint.isBlank t

end Prebuilt
