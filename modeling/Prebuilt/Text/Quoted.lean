import Prebuilt.Text.Printable
/-!
Quoted text, as messages show a value: between quotes, with escapes for what would not show.
-/
set_option autoImplicit false

namespace Prebuilt.Text

/-- The double quote is used only for a text that holds single quotes and no double one. -/
def quoteFor (t : Text) : Char :=
  if t.has '\'' && !t.has '"' then '"' else '\''

def quotedCodePoint (quote : Char) (c : CodePoint) : Text :=
  if c = quote ∨ c = '\\' then ['\\', c]
  else if c = '\n' then "\\n"
  else if c = '\r' then "\\r"
  else if c = '\t' then "\\t"
  else if c.isPrintable then [c]
  else if c.value < 0x100 then "\\x" ++ hex 2 c.value
  else if c.value < 0x10000 then "\\u" ++ hex 4 c.value
  else "\\U" ++ hex 8 c.value

def quoted (t : Text) : Text :=
  let quote := quoteFor t
  [CodePoint.char quote] ++ t.flatMap (quotedCodePoint quote) ++ [CodePoint.char quote]

/-- How text with lone surrogates is shown where only characters can be written. -/
def escapeLone (t : Text) : Text :=
  t.flatMap fun c => match c with
    | CodePoint.char d => [CodePoint.char d]
    | CodePoint.lone n => "\\u" ++ hex 4 (0xD800 + n.val)

end Prebuilt.Text
