import Prebuilt.Error
import Prebuilt.Files.Resolve
/-!
Names with wildcards, and the search for them in a directory and all directories beneath it. A star stands for any text,
a question mark for one code point, and brackets for one of a set.
-/
set_option autoImplicit false

namespace Prebuilt.Glob

inductive Piece where
  | literal (c : CodePoint)
  | any
  | star
  /-- One of the members or of the ranges; none of them if negated. -/
  | set (negated : Bool) (members : Text) (ranges : List (CodePoint × CodePoint))
  deriving DecidableEq, Repr

def hasWildcard (pattern : Text) : Bool := pattern.has '*' || pattern.has '?' || pattern.has '['

/-- The text between brackets cut at the dashes that make ranges: a dash does if a code point stands before it that
belongs to no range yet, and one more follows. -/
def rangeChunks (fuel : Nat) (chunk : Text) (searchAfter : Nat) : List Text :=
  match fuel with
  | 0 => [chunk]
  | fuel + 1 =>
    let skipped := chunk.take searchAfter
    match Text.cut? '-' (chunk.drop searchAfter) with
    | none => [chunk]
    | some (before, rest) => (skipped ++ before) :: rangeChunks fuel rest 2

/-- A dash at the very end is a member. -/
def closeChunks (chunks : List Text) : List Text :=
  match chunks.reverse with
  | [] :: last :: more => ((last ++ "-") :: more).reverse
  | _ => chunks

/-- Takes out the ranges that run backwards, from the last one on. -/
def dropBackward : List Text → List Text
  | [] => []
  | chunk :: rest =>
    match dropBackward rest with
    | [] => [chunk]
    | next :: more =>
      match chunk.getLast?, next.head? with
      | some a, some b => if b.value < a.value then (chunk.dropLast ++ next.drop 1) :: more else chunk :: next :: more
      | _, _ => chunk :: next :: more

def rangesOf : List Text → List (CodePoint × CodePoint)
  | a :: b :: more =>
    match a.getLast?, b.head? with
    | some x, some y => (x, y) :: rangesOf (b :: more)
    | _, _ => rangesOf (b :: more)
  | _ => []

/-- What stands between brackets. An empty set matches nothing, its negation anything. -/
def setPiece (inside : Text) : Piece :=
  let startsNegated := inside.head? == some (CodePoint.char '!')
  let chunks :=
    if inside.has '-' then
      dropBackward (closeChunks (rangeChunks inside.length inside (if startsNegated then 2 else 1)))
    else [inside]
  let all := Text.join chunks
  match chunks with
  | first :: rest =>
    if all.head? == some (CodePoint.char '!') then
      if all.length = 1 then .any else .set true (all.drop 1) (rangesOf (first.drop 1 :: rest))
    else .set false all (rangesOf chunks)
  | [] => .set false [] []

/-- The text inside brackets and what follows them; a bracket at the very start is a member. -/
def bracketed? (t : Text) : Option (Text × Text) :=
  let lead := if t.head? == some (CodePoint.char '!') then 1 else 0
  let lead := if (t.drop lead).head? == some (CodePoint.char ']') then lead + 1 else lead
  (Text.cut? ']' (t.drop lead)).map fun (inside, rest) => (t.take lead ++ inside, rest)

def pieces (fuel : Nat) : Text → List Piece
  | [] => []
  | c :: r =>
    match fuel with
    | 0 => []
    | fuel + 1 =>
      if c = '*' then .star :: pieces fuel r
      else if c = '?' then .any :: pieces fuel r
      else if c = '[' then
        match bracketed? r with
        | none => .literal c :: pieces fuel r
        | some (inside, rest) => setPiece inside :: pieces fuel rest
      else .literal c :: pieces fuel r

def Piece.accepts (piece : Piece) (c : CodePoint) : Bool :=
  match piece with
  | .literal d => c == d
  | .any => true
  | .star => false
  | .set negated members ranges =>
    (members.has c || ranges.any fun (a, b) => a.value ≤ c.value && c.value ≤ b.value) != negated

def accepts : List Piece → Text → Bool
  | [], t => t.isEmpty
  | .star :: ps, [] => accepts ps []
  | .star :: ps, c :: r => accepts ps (c :: r) || accepts (.star :: ps) r
  | _ :: _, [] => false
  | p :: ps, c :: r => p.accepts c && accepts ps r
  termination_by ps t => (ps.length + t.length)

def matchesName (pattern name : Text) : Bool := accepts (pieces pattern.length pattern) name

end Prebuilt.Glob

namespace Prebuilt.FileSystem

/-- Errors that only say there is nothing at a path. -/
def meansAbsent (e : Errno) : Bool := e == .noEntry || e == .notDirectory || e == ⟨9⟩ || e == .tooManyLinks

/-- The node at a path, links followed; none if the path leads nowhere. -/
def node? (fs : FileSystem) (path : Text) : Except Error (Option Node) :=
  match fs.status path true with
  | .ok (_, node) => .ok (some node)
  | .error e => if meansAbsent e then .ok none else .error (.system ⟨e, some path, none⟩)

/-- The directories beneath a location, and the location itself, as components from it; links are not followed. -/
def directoriesBelow (fs : FileSystem) (location : Location) : List (List Name) :=
  [] :: fs.nodes.filterMap fun (l, node) =>
    if node.isDirectory && location.isPrefixOf l && l != location then some (l.drop location.length) else none

/-- Paths in the directory or beneath it whose last component fits the pattern, in the order of their components. -/
def search (fs : FileSystem) (directory : FilePath) (pattern : Text) : Except Error (List FilePath) := do
  let parts := (FilePath.ofText pattern).parts
  if parts != [("**" : Text)] && parts.any (·.includes "**") then throw (.value .recursivePattern)
  match fs.status directory.toText true with
  | .ok (location, .directory _) =>
    let directories := fs.directoriesBelow location
    let at_ (below : List Name) : FilePath := ⟨directory.root, directory.parts ++ below⟩
    let found ←
      if parts.isEmpty || parts = [("**" : Text)] then pure (directories.map at_)
      else if Glob.hasWildcard pattern then
        pure (directories.flatMap fun below =>
          ((fs.children (location ++ below)).filter (Glob.matchesName pattern)).map fun name => at_ (below ++ [name]))
      else
        directories.filterMapM fun below => do
          let candidate := at_ (below ++ [pattern])
          return if (← fs.node? candidate.toText).isSome then some candidate else none
    return found.mergeSort fun a b => le a.parts b.parts
  | .ok _ => return []
  | .error e => if meansAbsent e then return [] else throw (.system ⟨e, some directory.toText, none⟩)
where
  le : List Text → List Text → Bool
    | [], _ => true
    | _ :: _, [] => false
    | a :: s, b :: t => if a = b then le s t else Text.le a b

end Prebuilt.FileSystem
