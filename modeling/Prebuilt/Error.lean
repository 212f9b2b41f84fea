import Prebuilt.Files.Errno
import Prebuilt.Json.Parser
import Prebuilt.Text.Utf8
import Prebuilt.Validation
/-!
Everything that can go wrong, by cause. The wording of each cause stands in one function, `Error.message`.

The errors this library reports for its own purposes are `configuration`, `unsupportedPlatform` and `download`; the
others come from the layers below and are either turned into one of these three or passed on as they are.
-/
set_option autoImplicit false

namespace Prebuilt

/-- Faults in the transport of an answer over HTTP. -/
inductive TransportFault where
  /-- A fault of the connection, by its name and text. -/
  | failed (name text : Text)
  | tooManyRedirects
  | missingScheme
  | unsupportedScheme (scheme : Text)
  | badLocation (reason : Text)
  | badContent
  deriving DecidableEq, Repr

def TransportFault.name : TransportFault → Text
  | .failed name _ => name
  | .tooManyRedirects => "TooManyRedirects"
  | .missingScheme => "UnsupportedProtocol"
  | .unsupportedScheme _ => "UnsupportedProtocol"
  | .badLocation _ => "RemoteProtocolError"
  | .badContent => "DecodingError"

/-- What stands for the text of a broken compressed stream, whose wording belongs to the decoder. -/
def brokenStreamText : Text := "<ZLIB>"

def TransportFault.message : TransportFault → Text
  | .failed _ text => text
  | .tooManyRedirects => "Exceeded maximum allowed redirects."
  | .missingScheme => "Request URL is missing an 'http://' or 'https://' protocol."
  | .unsupportedScheme scheme => Text.join ["Request URL has an unsupported protocol '", scheme, "://'."]
  | .badLocation reason => Text.join ["Invalid URL in location header: ", reason, "."]
  | .badContent => brokenStreamText

inductive UrlFault where
  | tooLong
  | control (c : CodePoint) (position : Nat)
  | componentControl (component : Text) (c : CodePoint) (position : Nat)
  | port (text : Text)
  | ipv4 (host : Text)
  | ipv6 (host : Text)
  | hostName (host : Text)
  | relativePath
  | doubleSlashPath
  | colonPath
  deriving DecidableEq, Repr

def UrlFault.message : UrlFault → Text
  | .tooLong => "URL too long"
  | .control c position =>
    Text.join ["Invalid non-printable ASCII character in URL, ", Text.quoted [c], " at position ", Text.ofNat position, "."]
  | .componentControl component c position =>
    Text.join ["Invalid non-printable ASCII character in URL ", component, " component, ", Text.quoted [c],
      " at position ", Text.ofNat position, "."]
  | .port text => "Invalid port: " ++ text.quoted
  | .ipv4 host => "Invalid IPv4 address: " ++ host.quoted
  | .ipv6 host => "Invalid IPv6 address: " ++ host.quoted
  | .hostName host => "Invalid IDNA hostname: " ++ host.quoted
  | .relativePath => "For absolute URLs, path must be empty or begin with '/'"
  | .doubleSlashPath => "Relative URLs cannot have a path starting with '//'"
  | .colonPath => "Relative URLs cannot have a path starting with ':'"

/-- Faults of a gzip file that its decoder reports as a failed read. -/
inductive GzipFault where
  | magic (first : Bytes)
  | method
  | checksum (stored computed : Nat)
  | length
  deriving DecidableEq, Repr

/-- Bytes as messages show them: between quotes, with escapes for all that is no printable ASCII. -/
def quotedBytes (bytes : Bytes) : Text :=
  let t : Text := bytes.map fun b => CodePoint.ofValue b.toNat
  let quote := Text.quoteFor t
  let escape (c : CodePoint) : Text :=
    if c.isAscii then Text.quotedCodePoint quote c else "\\x" ++ Text.hex 2 c.value
  "b" ++ [CodePoint.char quote] ++ t.flatMap escape ++ [CodePoint.char quote]

def GzipFault.message : GzipFault → Text
  | .magic first => Text.join ["Not a gzipped file (", quotedBytes first, ")"]
  | .method => "Unknown compression method"
  | .checksum stored computed =>
    Text.join ["CRC check failed 0x", Text.hex 1 stored, " != 0x", Text.hex 1 computed]
  | .length => "Incorrect length of data produced"

inductive TarFault where
  | empty
  | notGzip
  | truncatedHeader
  | badChecksum
  | badHeader
  /-- After a header that announces another one: nothing, or the mark of the end. -/
  | noSecondHeader
  | endMarkAfterHeader
  | brokenStream
  | endOfData
  deriving DecidableEq, Repr

def TarFault.message : TarFault → Text
  | .empty => "empty file"
  | .notGzip => "not a gzip file"
  | .truncatedHeader => "truncated header"
  | .badChecksum => "bad checksum"
  | .badHeader => "invalid header"
  | .noSecondHeader => "empty header"
  | .endMarkAfterHeader => "end of file header"
  | .brokenStream => "zlib error: " ++ brokenStreamText
  | .endOfData => "unexpected end of data"

inductive ZipFault where
  | notZip
  | badDirectoryOffset
  | truncatedDirectory
  | directoryMagic
  | localMagic
  | truncatedLocal
  | nameMismatch (directory : Text) (shown : Text)
  | checksum (name : Text)
  | overlap (name : Text)
  | extraField (id size : Nat)
  | zip64Field (what : Text)
  | manyDisks
  deriving DecidableEq, Repr

def ZipFault.message : ZipFault → Text
  | .notZip => "File is not a zip file"
  | .badDirectoryOffset => "Bad offset for central directory"
  | .truncatedDirectory => "Truncated central directory"
  | .directoryMagic => "Bad magic number for central directory"
  | .localMagic => "Bad magic number for file header"
  | .truncatedLocal => "Truncated file header"
  | .nameMismatch directory shown =>
    Text.join ["File name in directory ", directory.quoted, " and header ", shown, " differ."]
  | .checksum name => "Bad CRC-32 for file " ++ name.quoted
  | .overlap name => Text.join ["Overlapped entries: ", name.quoted, " (possible zip bomb)"]
  | .extraField id size =>
    Text.join ["Corrupt extra field ", Text.hex 4 id, " (size=", Text.ofNat size, ")"]
  | .zip64Field what => Text.join ["Corrupt zip64 extra field. ", what, " not found."]
  | .manyDisks => "zipfiles that span multiple disks are not supported"

inductive ConfigurationFault where
  | notWrapped (binary : Text)
  | badTimeout (given : Text)
  | unreadable (path : Text) (cause : SystemError)
  | malformed (path : Text) (reason : Text)
  | notAnObject (path : Text)
  | invalidMetadata (path : Text) (issues : List Issue)
  | invalidWrapper (issues : List Issue)
  | unexpectedArguments (names : List Text)
  deriving DecidableEq, Repr

/-- What stands for the list of issues, which goes with the error itself. -/
def issuesText : Text := "<VALIDATION>"

def ConfigurationFault.message : ConfigurationFault → Text
  | .notWrapped binary => binary.quoted ++ " is not one of the wrapped binaries"
  | .badTimeout given => "RUNWRAP_TIMEOUT must be a number of seconds, got " ++ given.quoted
  | .unreadable path cause => Text.join ["Cannot read package metadata ", path, ": ", cause.message]
  | .malformed path reason => Text.join ["Malformed package metadata ", path, ": ", reason]
  | .notAnObject path => Text.join ["Package metadata ", path, " is not a JSON object"]
  | .invalidMetadata path _ => Text.join ["Invalid package metadata ", path, ": ", issuesText]
  | .invalidWrapper _ => "Invalid wrapper configuration: " ++ issuesText
  | .unexpectedArguments names =>
    "Unexpected arguments with a BinaryWrapConfig: " ++ Text.joinWith ", " (Text.sorted names)

def ConfigurationFault.issues : ConfigurationFault → List Issue
  | .invalidMetadata _ issues => issues
  | .invalidWrapper issues => issues
  | _ => []

inductive DownloadFault where
  | unrecognisedArchive (url : Text)
  | unsupportedArchive (archiveType : Text)
  | status (url : Text) (code : Int)
  | transport (url : Text) (cause : TransportFault)
  | extraction (path : Text) (reason : Text)
  | escapingMember (name : Text)
  | missingBinary (name : Text)
  | verification (key : Text)
  | notPlaced (key : Text) (destination : Text)
  | notExecuted (executable : Text) (cause : SystemError)
  /-- The messages of the downloads that failed. -/
  | failed (messages : Text)
  deriving DecidableEq, Repr

def DownloadFault.message : DownloadFault → Text
  | .unrecognisedArchive url => "Unrecognised archive type for " ++ url
  | .unsupportedArchive archiveType => "Unsupported archive type: " ++ archiveType
  | .status url code => Text.join ["Error downloading file ", url, ": HTTP status ", Text.ofInt code]
  | .transport url cause => Text.join ["Error downloading file ", url, ": ", cause.message]
  | .extraction path reason => Text.join ["Error extracting ", path, ": ", reason]
  | .escapingMember name => "Archive member escapes extraction directory: " ++ name
  | .missingBinary name => "Archive does not contain the binary " ++ name.quoted
  | .verification key => "Download verification failed for " ++ key
  | .notPlaced key destination => Text.join ["Could not move ", key, " into place at ", destination]
  | .notExecuted executable cause => Text.join ["Could not execute ", executable, ": ", cause.message]
  | .failed messages => if messages.isEmpty then "Download failed" else messages

/-- A value that is of the right kind and still impossible. -/
inductive ValueFault where
  | embeddedNull
  | recursivePattern
  | tooManyDigits (count : Nat)
  | pairLength (index length : Nat)
  /-- Shown as messages show it. -/
  | notANumber (shown : Text)
  | negativeLength
  | noTime
  | noLineEnd
  | positionTooLarge
  deriving DecidableEq, Repr

def ValueFault.message : ValueFault → Text
  | .embeddedNull => "embedded null byte"
  | .recursivePattern => "Invalid pattern: '**' can only be an entire path component"
  | .tooManyDigits count =>
    Text.join ["Exceeds the limit (4300 digits) for integer string conversion: value has ", Text.ofNat count,
      " digits; use sys.set_int_max_str_digits() to increase the limit"]
  | .pairLength index length =>
    Text.join ["dictionary update sequence element #", Text.ofNat index, " has length ", Text.ofNat length,
      "; 2 is required"]
  | .notANumber shown => "invalid literal for int() with base 10: " ++ shown.take 200
  | .noLineEnd => "not enough values to unpack (expected 2, got 1)"
  | .negativeLength => "read length must be non-negative or -1"
  | .noTime => "Invalid value NaN (not a number)"
  | .positionTooLarge => "cannot fit 'int' into an offset-sized integer"

/-- A value of the wrong kind; `kind` is the name of the kind it has. -/
inductive KindFault where
  | notIterable (kind : Text)
  | notSequence (index : Nat)
  | unhashable (kind : Text)
  | keysNotText
  | notPath (kind : Text)
  | givenTwice
  deriving DecidableEq, Repr

def KindFault.message : KindFault → Text
  | .notIterable kind => Text.join ["'", kind, "' object is not iterable"]
  | .notSequence index =>
    Text.join ["cannot convert dictionary update sequence element #", Text.ofNat index, " to a sequence"]
  | .unhashable kind => Text.join ["unhashable type: '", kind, "'"]
  | .keysNotText => "keywords must be strings"
  | .notPath kind => "expected str, bytes or os.PathLike object, not " ++ kind
  | .givenTwice => "binwrap() got multiple values for argument 'config'"

inductive Error where
  | configuration (fault : ConfigurationFault)
  | unsupportedPlatform (key : Text)
  | download (fault : DownloadFault)
  | invalid (issues : List Issue)
  | system (fault : SystemError)
  | transport (fault : TransportFault)
  /-- The request is impossible, before any transport. -/
  | request (fault : UrlFault)
  /-- A fault of the client that is none of transport, by its name and text. -/
  | client (name text : Text)
  | gzip (fault : GzipFault)
  | tar (fault : TarFault)
  | zip (fault : ZipFault)
  /-- A compressed stream stops too early. -/
  | truncatedStream (text : Text)
  /-- A compressed stream is no such stream. -/
  | corruptStream
  /-- A link in an archive to a member that is not there. -/
  | missingLink (name : Text)
  | undecodable (fault : Utf8.DecodeError)
  | unencodable (fault : Utf8.EncodeError)
  /-- A log line that cannot be written. -/
  | unloggable (fault : Utf8.EncodeError)
  | value (fault : ValueFault)
  | kind (fault : KindFault)
  | symlinkLoop (path : Text)
  | encrypted (member : Text)
  | notSupported (text : Text)
  | tooLarge (text : Text)
  | outOfMemory
  | tooDeep (inObject : Bool)
  /-- A member of an archive without a name. -/
  | emptyName
  /-- Links in an archive that lead to one another. -/
  | linkCycle
  deriving DecidableEq, Repr

namespace Error

def message : Error → Text
  | .configuration fault => fault.message
  | .unsupportedPlatform key => "No binaries are available for your platform: " ++ key
  | .download fault => fault.message
  | .invalid _ => []
  | .system fault => fault.message
  | .transport fault => fault.message
  | .request fault => fault.message
  | .client _ text => text
  | .gzip fault => fault.message
  | .tar fault => fault.message
  | .zip fault => fault.message
  | .truncatedStream text => text
  | .corruptStream => []
  | .missingLink name => Text.quoted (Text.join ["linkname ", name.quoted, " not found"])
  | .undecodable fault => fault.message
  | .unencodable fault => fault.message
  | .unloggable fault => "Error serializing to JSON: UnicodeEncodeError: " ++ fault.message
  | .value fault => fault.message
  | .kind fault => fault.message
  | .symlinkLoop path => "Symlink loop from " ++ path.quoted
  | .encrypted member => Text.join ["File ", member, " is encrypted, password required for extraction"]
  | .notSupported text => text
  | .tooLarge text => text
  | .outOfMemory => []
  | .tooDeep inObject =>
    Text.join ["maximum recursion depth exceeded while decoding a JSON ", if inObject then "object" else "array",
      " from a unicode string"]
  | .emptyName => "string index out of range"
  | .linkCycle => "maximum recursion depth exceeded"

/-- What the library itself reports: a caller that handles these handles every failure it promises. -/
def isReported : Error → Bool
  | .configuration _ => true
  | .unsupportedPlatform _ => true
  | .download _ => true
  | _ => false

/-- Failed requests to the operating system, a failed read of a gzip file among them. -/
def isSystem : Error → Bool
  | .system _ => true
  | .gzip _ => true
  | _ => false

/-- What extraction reports as a fault of the archive. -/
def isArchiveFault : Error → Bool
  | .tar _ => true
  | .zip _ => true
  | e => e.isSystem

/-- What ends one download and lets the others go on. -/
def isDownloadFailure : Error → Bool
  | .download _ => true
  | e => e.isSystem

end Error

end Prebuilt
