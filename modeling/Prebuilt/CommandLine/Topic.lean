import Prebuilt.Text.Quoted
/-!
What the command line can ask for: the commands with their options, the usage of each, and the help pages.
-/
set_option autoImplicit false

namespace Prebuilt.CommandLine

inductive Command where
  | install
  | verify
  | urls
  | version
  deriving DecidableEq, Repr

namespace Command

def all : List Command := [install, verify, urls, version]

def name : Command → Text
  | install => "install"
  | verify => "verify"
  | urls => "urls"
  | version => "version"

def ofName? (name : Text) : Option Command := all.find? (·.name = name)

def summary : Command → Text
  | install => "download the binary for this platform"
  | verify => "check that every release archive exists"
  | urls => "print the release archive URL of each platform"
  | version => "print the wrapped version"

end Command

/-- Options that take no value. -/
inductive Flag where
  | help
  | verbose
  | force
  deriving DecidableEq, Repr

namespace Flag

/-- The spellings of an option, the short one first. -/
def names : Flag → List Text
  | help => ["-h", "--help"]
  | verbose => ["-v", "--verbose"]
  | force => ["--force"]

def summary : Flag → Text
  | help => "show this help message and exit"
  | verbose => "log progress to stderr"
  | force => "download even if already installed"

end Flag

/-- What a part of the command line is about: the program as a whole or one of its commands. -/
inductive Topic where
  | program
  | command (c : Command)
  deriving DecidableEq, Repr

namespace Topic

def flags : Topic → List Flag
  | program => [.help, .verbose]
  | command .install => [.help, .force]
  | command _ => [.help]

def title : Topic → Text
  | program => "runwrap"
  | command c => "runwrap " ++ c.name

def choices : Text := Text.join ["\x7b", Text.joinWith "," (Command.all.map Command.name), "\x7d"]

def usage (t : Topic) : Text :=
  let flags := t.flags.map fun flag => Text.join ["[", flag.names.head?.getD [], "]"]
  let rest : List Text := match t with
    | program => [choices, "..."]
    | command _ => []
  Text.join ["usage: ", Text.joinWith " " ([t.title] ++ flags ++ rest), "\n"]

/-- A term and its summary, which stands in the column given. -/
def entry (column : Nat) (term summary : Text) : Text :=
  Text.join [term, List.replicate (column - term.length) (CodePoint.char ' '), summary, "\n"]

def flagEntry (column : Nat) (flag : Flag) : Text := entry column ("  " ++ Text.joinWith ", " flag.names) flag.summary

def page (t : Topic) : Text :=
  match t with
  | program =>
    Text.join [t.usage, "\nManage the native binary behind the \x60run\x60 console script.\n",
      "\npositional arguments:\n  ", choices, "\n",
      Text.join (Command.all.map fun c => entry 24 ("    " ++ c.name) c.summary),
      "\noptions:\n", Text.join (t.flags.map (flagEntry 24))]
  | command _ => Text.join [t.usage, "\noptions:\n", Text.join (t.flags.map (flagEntry 14))]

end Topic

end Prebuilt.CommandLine
