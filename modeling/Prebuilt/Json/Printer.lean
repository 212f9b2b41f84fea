import Prebuilt.Json.Basic
import Prebuilt.Decimal.Shortest
/-!
JSON text on one line. A string escapes quotes, backslashes and control characters and nothing else.
-/
set_option autoImplicit false

namespace Prebuilt.Json

def escaped (c : CodePoint) : Text :=
  if c = '"' then "\\\""
  else if c = '\\' then "\\\\"
  else if c = '\n' then "\\n"
  else if c = '\r' then "\\r"
  else if c = '\t' then "\\t"
  else if c = '\x08' then "\\b"
  else if c = '\x0c' then "\\f"
  else if c.value < 32 then "\\u" ++ Text.hex 4 c.value
  else [c]

def stringText (t : Text) : Text := [CodePoint.char '"'] ++ t.flatMap escaped ++ [CodePoint.char '"']

mutual

def render : Json → Text
  | .null => "null"
  | .bool true => "true"
  | .bool false => "false"
  | .int n => Text.ofInt n
  | .float x => x.render .seconds
  | .text t => stringText t
  | .array items => "[" ++ renderItems items ++ "]"
  | .object fields => "\x7b" ++ renderFields fields ++ "\x7d"

def renderItems : List Json → Text
  | [] => []
  | [x] => x.render
  | x :: y :: r => x.render ++ ", " ++ renderItems (y :: r)

def renderFields : List (Text × Json) → Text
  | [] => []
  | [(k, x)] => stringText k ++ ": " ++ x.render
  | (k, x) :: f :: r => stringText k ++ ": " ++ x.render ++ ", " ++ renderFields (f :: r)

end

end Prebuilt.Json
