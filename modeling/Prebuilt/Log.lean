import Prebuilt.Error
import Prebuilt.Json.Printer
/-!
Progress messages. Each is one line of JSON that says how severe it is and which step it comes from.
-/
set_option autoImplicit false

namespace Prebuilt.Log

abbrev Level := Int

def debug : Level := 10
def info : Level := 20
def warning : Level := 30
def error : Level := 40
def critical : Level := 50

def levelName (level : Level) : Text :=
  if level = debug then "DEBUG"
  else if level = info then "INFO"
  else if level = warning then "WARNING"
  else if level = error then "ERROR"
  else if level = critical then "CRITICAL"
  else if level = 0 then "NOTSET"
  else "Level " ++ Text.ofInt level

/-- Where in the program a message comes from. -/
structure Origin where
  file : Text
  step : Text
  deriving DecidableEq, Repr

structure Line where
  level : Level
  origin : Origin
  message : Text
  deriving DecidableEq, Repr

/-- A threshold of zero stands for the usual one. -/
def effectiveThreshold (threshold : Level) : Level := if threshold = 0 then warning else threshold

def isEnabled (threshold level : Level) : Bool := 0 < level && effectiveThreshold threshold ≤ level

/-- The line for a message, if the threshold lets it through. Line feeds in a message become blanks, and a message with
lone surrogates cannot be written. -/
def line? (threshold level : Level) (origin : Origin) (message : Text) : Except Error (Option Line) :=
  if !isEnabled threshold level then .ok none
  else
    let message := Text.replaceChar '\n' ' ' message
    match Utf8.encode message with
    | .error fault => .error (.unloggable fault)
    | .ok _ => .ok (some ⟨level, origin, message⟩)

namespace Line

/-- The fields of a line in their order; time and number of the line that logs it come from outside. -/
def fields (l : Line) (time : Text) (number : Int) : Fields :=
  [("time", .text time), ("level", .text (levelName l.level)), ("caller_file", .text l.origin.file),
    ("caller_name", .text l.origin.step), ("caller_line", .int number), ("message", .text l.message)]

/-- The line as it is written. -/
def render (l : Line) (time : Text) (number : Int) : Text :=
  let pairs := (l.fields time number).map fun (key, value) => Text.join [Json.stringText key, ":", value.render]
  Text.join ["\x7b", Text.joinWith "," pairs, "\x7d"]

end Line

end Prebuilt.Log
