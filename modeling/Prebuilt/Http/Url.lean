import Prebuilt.Error
import Prebuilt.Text.Case
/-!
Addresses of resources. Reading one lower-cases scheme and host, drops the scheme's usual port, takes dot segments out of
the path and percent-encodes what may not stand in a part; escapes that are there stay as they are.
-/
set_option autoImplicit false

namespace Prebuilt

structure Url where
  /-- Empty if the address is relative. -/
  scheme : Text
  user : Text
  host : Text
  port : Option Int
  path : Text
  query : Option Text
  fragment : Option Text
  deriving DecidableEq, Repr

namespace Url

/-- An address in its parts, before any part is judged. -/
structure Parts where
  scheme : Text
  authority : Text
  path : Text
  query : Option Text
  fragment : Option Text
  deriving DecidableEq, Repr

def lengthLimit : Nat := 65536

def isSchemePart (c : CodePoint) : Bool := c.isAsciiLetter || c.isAsciiDigit || c == '+' || c == '.' || c == '-'

/-- The scheme and what follows its colon. -/
def splitScheme (t : Text) : Text × Text :=
  let scheme := t.takeWhile isSchemePart
  match t.dropWhile isSchemePart with
  | .char ':' :: r =>
    match scheme with
    | [] => ([], r)
    | c :: _ => if c.isAsciiLetter then (scheme, r) else ([], t)
  | _ => ([], t)

/-- The text up to the first of the marks, and the text from there. -/
def upTo (marks : Text) (t : Text) : Text × Text := (t.takeWhile (!marks.has ·), t.dropWhile (!marks.has ·))

/-- What follows the mark if the text starts with it. -/
def after? (mark : CodePoint) : Text → Option Text
  | [] => none
  | c :: r => if c = mark then some r else none

def splitParts (t : Text) : Parts :=
  let (scheme, t) := splitScheme t
  let (authority, t) := match t with
    | .char '/' :: .char '/' :: r => upTo "/?#" r
    | t => ([], t)
  let (path, t) := upTo "?#" t
  let (query, t) := match after? '?' t with
    | some r => let (query, t) := upTo "#" r; (some query, t)
    | none => (none, t)
  ⟨scheme, authority, path, query, after? '#' t⟩

def isUnreserved (c : CodePoint) : Bool :=
  c.isAsciiLetter || c.isAsciiDigit || c == '-' || c == '.' || c == '_' || c == '~'

/-- Printable ASCII less the code points named. -/
def isAllowedBut (barred : Text) (c : CodePoint) : Bool := 32 ≤ c.value && c.value < 127 && !barred.has c

def isFragmentPart : CodePoint → Bool := isAllowedBut " \"<>\x60"
def isQueryPart : CodePoint → Bool := isAllowedBut " \"#<>"
def isPathPart : CodePoint → Bool := isAllowedBut " \"#<>?\x60\x7b\x7d"
def isUserPart : CodePoint → Bool := isAllowedBut " \"#<>?\x60\x7b\x7d/;=@[\\]^|"
def isHostPart (c : CodePoint) : Bool := isUnreserved c || Text.has "!$&'()*+,;=\"\x60\x7b\x7d%|\\" c

def percentEncoded (c : CodePoint) : Except Error Text :=
  match Utf8.encode [c] with
  | .error fault => .error (.unencodable fault)
  | .ok bytes => .ok (bytes.flatMap fun b => "%" ++ Text.toUpperAscii (Text.hex 2 b.toNat))

/-- Encodes all that is not allowed. An escape that is already there stands for itself. -/
def quote (isPart : CodePoint → Bool) : Text → Except Error Text
  | [] => .ok []
  | c :: r => do
    let isEscape := c == '%' && match r with
      | a :: b :: _ => a.hexDigit?.isSome && b.hexDigit?.isSome
      | _ => false
    let first ← if isEscape || isUnreserved c || isPart c then pure [c] else percentEncoded c
    return first ++ (← quote isPart r)

/-- The bytes that a text with escapes stands for, read as text; what is no UTF-8 becomes U+FFFD. -/
def unquote (t : Text) : Text := decodeLoose (bytesOf t)
where
  bytesOf : Text → Bytes
    | [] => []
    | c :: r =>
      match c, r with
      | .char '%', a :: b :: r' =>
        match a.hexDigit?, b.hexDigit? with
        | some x, some y => UInt8.ofNat (16 * x + y) :: bytesOf r'
        | _, _ => UInt8.ofNat '%'.toNat :: bytesOf (a :: b :: r')
      | .char d, r => String.utf8EncodeChar d ++ bytesOf r
      | .lone _, r => bytesOf r
  decodeLoose (bytes : Bytes) : Text :=
    (Utf8.decodeName bytes).map fun c => if c.isChar then c else .char '\uFFFD'

/-- Removes dot segments: a single dot is dropped, two dots take the segment before them along. -/
def normalizePath (path : Text) : Text :=
  let segments := Text.splitOn '/' path
  if segments.any fun s => s = "." ∨ s = ".." then Text.joinWith "/" (segments.foldl step []) else path
where
  step (done : List Text) (segment : Text) : List Text :=
    if segment = "." then done
    else if segment = ".." then if done = [] ∨ done = [[]] then done else done.dropLast
    else done ++ [segment]

/-- One of the four numbers of an IPv4 address: one to three digits, no leading zero, at most 255. -/
def isOctet (t : Text) : Bool :=
  !t.isEmpty && t.all CodePoint.isAsciiDigit && t.length ≤ 3 && (t.length = 1 || t.head? != some (CodePoint.char '0')) &&
    digitsValue t ≤ 255

def isIpv4 (t : Text) : Bool :=
  let parts := Text.splitOn '.' t
  parts.length = 4 && parts.all isOctet

/-- Four runs of digits with any one code point between them. -/
def looksLikeIpv4 (t : Text) : Bool := go 4 t t.length
where
  go (runs : Nat) (t : Text) (fuel : Nat) : Bool :=
    match runs, fuel with
    | 0, _ => false
    | _, 0 => false
    | 1, _ =>
      let t := if t.getLast? = some '\n' then t.dropLast else t
      !t.isEmpty && t.all CodePoint.isAsciiDigit
    | runs + 1, fuel + 1 =>
      let digits := (t.takeWhile CodePoint.isAsciiDigit).length
      (List.range (digits + 1)).any fun n => 0 < n && go runs (t.drop (n + 1)) fuel && n < t.length

def isHextet (t : Text) : Bool := !t.isEmpty && t.length ≤ 4 && t.all (·.hexDigit?.isSome)

/-- Eight groups of hexadecimal digits; two colons stand for one or more groups of zeros, and an IPv4 address may stand for
the last two groups. -/
def isIpv6 (t : Text) : Bool :=
  let groups := Text.splitOn ':' t
  let last := groups.getLast?.getD []
  let zeros : List Text := ["0", "0"]
  let groups := if isIpv4 last then groups.dropLast ++ zeros else groups
  let inner := (groups.drop 1).dropLast
  let gaps := (inner.filter (·.isEmpty)).length
  let first := groups.head?.getD []
  let last := groups.getLast?.getD []
  if groups.length < 3 ∨ 9 < groups.length then false
  else if 1 < gaps then false
  else if gaps = 1 then
    let firstOk := !first.isEmpty || (groups.drop 1).head? = some []
    let lastOk := !last.isEmpty || (groups.dropLast).getLast? = some []
    let present := groups.filter (!·.isEmpty)
    firstOk && lastOk && present.all isHextet && present.length < 8
  else groups.length = 8 && groups.all isHextet

/-- An IPv6 address; the zone that it is valid in may follow a percent sign. -/
def isZonedIpv6 (t : Text) : Bool :=
  match Text.cut? '%' t with
  | some (address, zone) => isIpv6 address && !zone.isEmpty && !zone.has '%'
  | none => isIpv6 t

def encodeHost (host : Text) : Except Error Text :=
  if host.isEmpty then .ok []
  else if looksLikeIpv4 host then if isIpv4 host then .ok host else .error (.request (.ipv4 host))
  else if host.head? = some '[' ∧ host.getLast? = some ']' ∧ 1 < host.length then
    let address := (host.drop 1).dropLast
    if isZonedIpv6 address then .ok address else .error (.request (.ipv6 host))
  else if host.all CodePoint.isAscii then quote isHostPart host.lower
  else .error (.request (.hostName host))

def defaultPorts : Table Int := [("ftp", 21), ("http", 80), ("https", 443), ("ws", 80), ("wss", 443)]

/-- A port is a whole number; the usual one of the scheme, as it is written, counts as none. -/
def portNumber (port : Option Text) (scheme : Text) : Except Error (Option Int) :=
  match port with
  | none => .ok none
  | some [] => .ok none
  | some t =>
    match wholeNumber? t with
    | none => .error (.request (.port t))
    | some n => .ok (if Table.get? scheme defaultPorts = some n then none else some n)

/-- User, host and port; a host in brackets may hold colons. -/
def splitAuthority (authority : Text) : Text × Text × Option Text :=
  let host := Text.afterLast '@' authority
  let user := if authority.has '@' then authority.take (authority.length - host.length - 1) else []
  let closing := host.length - (Text.afterLast ']' host).length
  let (name, rest) :=
    if host.head? = some '[' ∧ host.has ']' then (host.take closing, host.drop closing) else upTo ":" host
  (user, name, some ((after? ':' rest).getD rest))

def checkPath (path : Text) (hasScheme hasAuthority : Bool) : Except Error Unit :=
  if hasAuthority && !path.isEmpty && !("/" : Text).isPrefixOf path then .error (.request .relativePath)
  else if !hasScheme && !hasAuthority && ("//" : Text).isPrefixOf path then .error (.request .doubleSlashPath)
  else if !hasScheme && !hasAuthority && (":" : Text).isPrefixOf path then .error (.request .colonPath)
  else .ok ()

/-- The address from its parts; the host may be given apart from the authority. -/
def ofParts (parts : Parts) (otherHost : Option Text) : Except Error Url := do
  let (user, host, port) := splitAuthority parts.authority
  let user ← quote isUserPart user
  let host ← encodeHost (otherHost.getD host)
  let port ← portNumber port parts.scheme
  let scheme := Text.toLowerAscii parts.scheme
  let hasAuthority := !user.isEmpty || !host.isEmpty || port.isSome
  checkPath parts.path (!scheme.isEmpty) hasAuthority
  let path := if !scheme.isEmpty || hasAuthority then normalizePath parts.path else parts.path
  let path ← quote isPathPart path
  let query ← parts.query.mapM (quote isQueryPart)
  let fragment ← parts.fragment.mapM (quote isFragmentPart)
  return ⟨scheme, user, host, port, path, query, fragment⟩

def isControl (c : CodePoint) : Bool := c.isAscii && !c.isPrintable

def parse (t : Text) : Except Error Url :=
  if lengthLimit < t.length then .error (.request .tooLong)
  else match t.find? isControl with
    | some c => .error (.request (.control c (t.takeWhile (!isControl ·)).length))
    | none => ofParts (splitParts t) none

/-- An IPv6 address stands between brackets. -/
def bracketed (host : Text) : Text := if host.has ':' then Text.join ["[", host, "]"] else host

def authority (u : Url) : Text :=
  (if u.user.isEmpty then [] else u.user ++ [CodePoint.char '@']) ++ bracketed u.host ++
    (match u.port with
      | some n => ":" ++ Text.ofInt n
      | none => [])

def render (u : Url) : Text :=
  Text.join [if u.scheme.isEmpty then [] else u.scheme ++ ":", if u.authority.isEmpty then [] else "//" ++ u.authority,
    u.path,
    match u.query with
      | some q => "?" ++ q
      | none => [],
    match u.fragment with
      | some f => "#" ++ f
      | none => []]

/-- An address that names neither scheme nor host, or only one of them. -/
def isRelative (u : Url) : Bool := u.scheme.isEmpty || u.host.isEmpty

def toParts (u : Url) : Parts := ⟨u.scheme, u.authority, u.path, u.query, u.fragment⟩

/-- The address that a request goes to: a relative one is put beneath the root of nowhere. -/
def ofRequest (t : Text) : Except Error Url := do
  let u ← parse t
  if u.isRelative then
    ofParts ⟨[], [], "/" ++ u.path.dropWhile (· == CodePoint.char '/'), u.query, none⟩ none
  else return u

/-- Address parts for the reference rules: parameters are split off the last segment, empty parts count as missing. -/
structure Reference where
  scheme : Text
  authority : Text
  path : Text
  parameters : Text
  query : Text
  fragment : Text

def Reference.ofText (t defaultScheme : Text) : Reference :=
  let (scheme, t) := match t.dropWhile isSchemePart with
    | .char ':' :: r =>
      if (t.takeWhile isSchemePart).isEmpty then (defaultScheme, t) else (Text.toLowerAscii (t.takeWhile isSchemePart), r)
    | _ => (defaultScheme, t)
  let (authority, t) := match t with
    | .char '/' :: .char '/' :: r => upTo "/?#" r
    | t => ([], t)
  let (t, fragment) := upTo "#" t
  let (path, query) := upTo "?" t
  let segment := if path.has '/' then Text.afterLast '/' path else path
  let kept := (segment.takeWhile (· != CodePoint.char ';')).length
  let cut := if segment.has ';' then path.length - segment.length + kept else path.length
  ⟨scheme, authority, path.take cut, path.drop (cut + 1), query.drop 1, fragment.drop 1⟩

def Reference.render (r : Reference) : Text :=
  let path := if r.parameters.isEmpty then r.path else r.path ++ ";" ++ r.parameters
  let path := if !r.authority.isEmpty && !path.isEmpty && !("/" : Text).isPrefixOf path then "/" ++ path else path
  Text.join [if r.scheme.isEmpty then [] else r.scheme ++ ":",
    if r.authority.isEmpty then [] else "//" ++ r.authority,
    path,
    if r.query.isEmpty then [] else "?" ++ r.query,
    if r.fragment.isEmpty then [] else "#" ++ r.fragment]

/-- Segments without the ones between the first and the last that are empty. -/
def dropInnerEmpty (segments : List Text) : List Text :=
  match segments with
  | [] => []
  | first :: rest => first :: (rest.dropLast.filter (!·.isEmpty) ++ rest.drop (rest.length - 1))

def mergeStep (done : List Text) (segment : Text) : List Text :=
  if segment = ".." then done.dropLast else if segment = "." then done else done ++ [segment]

/-- The path of a reference seen from the path of its base. -/
def mergePath (base path : Text) : Text :=
  let segments :=
    if ("/" : Text).isPrefixOf path then Text.splitOn '/' path
    else
      let before := Text.splitOn '/' base
      let before := if before.getLast? = some [] then before else before.dropLast
      dropInnerEmpty (before ++ Text.splitOn '/' path)
  let resolved := segments.foldl mergeStep []
  let last := segments.getLast?.getD []
  let resolved := if last = "." ∨ last = ".." then resolved ++ [[]] else resolved
  let path := Text.joinWith "/" resolved
  if path.isEmpty then "/" else path

/-- The address that a reference found at `base` stands for. -/
def joinText (base reference : Text) : Text :=
  if reference.isEmpty then base
  else
    let b := Reference.ofText base []
    let r := Reference.ofText reference b.scheme
    if r.scheme ≠ b.scheme then reference
    else if !r.authority.isEmpty then r.render
    else
      let r := { r with authority := b.authority }
      if r.path.isEmpty && r.parameters.isEmpty then
        { r with path := b.path, parameters := b.parameters, query := if r.query.isEmpty then b.query else r.query }.render
      else { r with path := mergePath b.path r.path }.render

/-- Where a redirect from `u` leads. -/
def redirect (u : Url) (location : Text) : Except Error Url := do
  let next ← match parse location with
    | .ok next => pure next
    | .error (.request fault) => throw (.transport (.badLocation fault.message))
    | .error e => throw e
  let next ←
    if !next.scheme.isEmpty && next.host.isEmpty then
      ofParts next.toParts (some (bracketed u.host))
    else pure next
  let next ← if next.isRelative then parse (joinText u.render next.render) else pure next
  match u.fragment with
  | none => return next
  | some f =>
    if f.isEmpty || !((next.fragment.getD []).isEmpty) then return next
    else
      let f := unquote f
      match f.find? isControl with
      | some c => throw (.request (.componentControl "fragment" c (f.takeWhile (!isControl ·)).length))
      | none => ofParts { next.toParts with fragment := some f } none

end Url

end Prebuilt
