import Prebuilt.CommandLine.Topic
import Prebuilt.Table
import Prebuilt.Text.Digit
/-!
Reading the command line. Long options may be cut short as long as they stay unique, short ones may be joined behind one
dash, and after two dashes alone nothing is an option.
-/
set_option autoImplicit false

namespace Prebuilt.CommandLine

structure Invocation where
  verbose : Bool
  command : Command
  force : Bool
  deriving DecidableEq, Repr

/-- Why no command is carried out. -/
inductive Stop where
  /-- Somebody asked for help. -/
  | help (topic : Topic)
  | refused (topic : Topic) (reason : Text)
  deriving DecidableEq, Repr

namespace Stop

/-- The page asked for goes to the standard output. -/
def output : Stop → Text
  | help topic => topic.page
  | refused _ _ => []

/-- What is wrong goes to the stream for diagnostics. -/
def notice : Stop → Text
  | help _ => []
  | refused topic reason => Text.join [topic.usage, topic.title, ": error: ", reason, "\n"]

def status : Stop → Int
  | help _ => 0
  | refused _ _ => 2

end Stop

/-- One argument, as far as its spelling tells. -/
inductive Token where
  | word (t : Text)
  /-- Two dashes alone. -/
  | mark
  /-- An option in full, with what is attached to it. -/
  | flag (f : Flag) (name : Text) (attached : Option Text)
  | unknown (t : Text)
  deriving DecidableEq, Repr

namespace Token

/-- The argument a token was read from, unless it is an option. -/
def spelling : Token → Text
  | word t => t
  | mark => "--"
  | flag _ name _ => name
  | unknown t => t

end Token

/-- The spellings that a topic knows, with their options. -/
def spellings (topic : Topic) : List (Text × Flag) :=
  topic.flags.flatMap fun flag => flag.names.map fun name => (name, flag)

def isNumber (t : Text) : Bool :=
  let digits (t : Text) : Bool := !t.isEmpty && t.all CodePoint.isDigit
  match t with
  | .char '-' :: r =>
    let r := if r.getLast? = some '\n' then r.dropLast else r
    digits r || match Text.cut? '.' r with
      | some (whole, part) => whole.all CodePoint.isDigit && digits part
      | none => false
  | _ => false

/-- The options that an argument starting with a dash may stand for: of a long one a start is enough, and behind a short one
more may follow. -/
def candidates (topic : Topic) (t : Text) : List (Text × Flag × Option Text) :=
  let long := ("--" : Text).isPrefixOf t
  let (start, attached) := match Text.cut? '=' t with
    | some (start, value) => if long then (start, some value) else (t, none)
    | none => (t, none)
  (spellings topic).filterMap fun (name, flag) =>
    if !long && name = t.take 2 then some (name, flag, some (t.drop 2))
    else if start.isPrefixOf name then some (name, flag, attached)
    else none

def classify (topic : Topic) (t : Text) : Except Stop Token :=
  if t.head? ≠ some '-' ∨ t.length = 1 then .ok (.word t)
  else match Table.get? t (spellings topic) with
    | some flag => .ok (.flag flag t none)
    | none =>
      let exact := (Text.cut? '=' t).bind fun (name, value) =>
        (Table.get? name (spellings topic)).map fun flag => Token.flag flag name (some value)
      match exact, candidates topic t with
      | some token, _ => .ok token
      | none, [(name, flag, attached)] => .ok (.flag flag name attached)
      | none, [] => .ok (if isNumber t || t.has ' ' then .word t else .unknown t)
      | none, several =>
        .error (.refused topic
          (Text.join ["ambiguous option: ", t, " could match ", Text.joinWith ", " (several.map (·.1))]))

def tokens (topic : Topic) : List Text → Except Stop (List Token)
  | [] => .ok []
  | t :: r =>
    if t = "--" then .ok (.mark :: r.map .word)
    else do return (← classify topic t) :: (← tokens topic r)

/-- The options that are joined in one argument. What is attached to a short option is more of them; a long one takes
nothing. -/
def joinedWith (topic : Topic) (flag : Flag) (name : Text) : Text → Except Stop (List Flag)
  | [] => .ok [flag]
  | c :: r =>
    let next : Text := [CodePoint.char '-', c]
    match if ("--" : Text).isPrefixOf name then none else Table.get? next (spellings topic) with
    | none => .error (refusal topic flag (c :: r))
    | some more => (joinedWith topic more next r).map (flag :: ·)
where
  refusal (topic : Topic) (flag : Flag) (attached : Text) : Stop :=
    .refused topic
      (Text.join ["argument ", Text.joinWith "/" flag.names, ": ignored explicit argument ", attached.quoted])

def joined (topic : Topic) (flag : Flag) (name : Text) : Option Text → Except Stop (List Flag)
  | none => .ok [flag]
  | some [] => .error (joinedWith.refusal topic flag [])
  | some attached => joinedWith topic flag name attached

/-- What a row of tokens asks for, read from the left. -/
structure Reading where
  verbose : Bool
  force : Bool
  /-- Arguments that nobody asked for. -/
  extras : List Text
  deriving DecidableEq, Repr

def Reading.empty : Reading := ⟨false, false, []⟩

def apply (topic : Topic) (reading : Reading) : List Flag → Except Stop Reading
  | [] => .ok reading
  | .help :: _ => .error (.help topic)
  | .verbose :: r => apply topic { reading with verbose := true } r
  | .force :: r => apply topic { reading with force := true } r

def applyToken (topic : Topic) (reading : Reading) : Token → Except Stop Reading
  | .flag flag name attached => do apply topic reading (← joined topic flag name attached)
  | token => .ok { reading with extras := reading.extras ++ [token.spelling] }

/-- The arguments of a command: options only. -/
def readCommand (command : Command) (arguments : List Text) : Except Stop Reading := do
  (← tokens (.command command) arguments).foldlM (applyToken (.command command)) Reading.empty

def refuse {α : Type} (reason : Text) : Except Stop α := .error (.refused .program reason)

/-- The command of a name, and what the rest of the arguments makes of it. -/
def readNamed (reading : Reading) (name : Text) (arguments : List Text) : Except Stop Invocation :=
  match Command.ofName? name with
  | none =>
    let choices := Text.joinWith ", " (Command.all.map fun c => c.name.quoted)
    refuse (Text.join ["argument command: invalid choice: ", name.quoted, " (choose from ", choices, ")"])
  | some command => do
    let inner ← readCommand command arguments
    let extras := reading.extras ++ inner.extras
    if !extras.isEmpty then refuse ("unrecognized arguments: " ++ Text.joinWith " " extras)
    return ⟨reading.verbose, command, inner.force⟩

/-- Reads up to the command, each token beside the argument that it stands for. -/
def readProgram (reading : Reading) : List (Token × Text) → Except Stop Invocation
  | [] => refuse "the following arguments are required: command"
  | (.word t, _) :: r => readNamed reading t (r.map (·.2))
  | (.mark, t) :: (_, u) :: r => readNamed reading t (u :: r.map (·.2))
  | (token, _) :: r => do readProgram (← applyToken .program reading token) r

def parse (arguments : List Text) : Except Stop Invocation := do
  readProgram Reading.empty ((← tokens .program arguments).zip arguments)

end Prebuilt.CommandLine
