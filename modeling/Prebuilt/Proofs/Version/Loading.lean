import Prebuilt.Proofs.Actions.Looking
import Prebuilt.Proofs.Json.Limits
import Prebuilt.Proofs.Version.Publishing
/-!
How loading a metadata file ends: with a version that passed the check or with a fault of the configuration, unless the path cannot be
handed to the system, the bytes are no text, or the text goes beyond a limit of the parser.
-/
set_option autoImplicit false

namespace Prebuilt

open Version Action

variable {m : Machine} {shown file text : Text}

/-- The metadata file that a fault is about. -/
def ConfigurationFault.metadataFile? : ConfigurationFault → Option Text
  | .unreadable path _ => some path
  | .malformed path _ => some path
  | .notAnObject path => some path
  | .invalidMetadata path _ => some path
  | _ => none

namespace Metadata

/-- What may become of a text: metadata, or a fault. Faults that are not of the configuration have their reason in the text. -/
inductive TextEnding (shown text : Text) : Except Error Metadata → Prop
  | accepted {metadata : Metadata} (h : isSemantic metadata.version = true) : TextEnding shown text (.ok metadata)
  | refused {fault : ConfigurationFault} (h : fault.metadataFile? = some shown) : TextEnding shown text (.error (.configuration fault))
  | tooDeep {inObject : Bool} (h : Json.depthLimit < text.countP Json.isOpening) : TextEnding shown text (.error (.tooDeep inObject))
  | tooManyDigits {count : Nat} (hlimit : Json.digitLimit < count) (h : Json.HasDigits text count) :
    TextEnding shown text (.error (.value (.tooManyDigits count)))

theorem ofBytes_undecodable {bytes : Bytes} {fault : Utf8.DecodeError} (h : Utf8.decode bytes = .error fault) :
    ofBytes shown bytes = .error (.undecodable fault) := by
  rw [ofBytes, h]

theorem ofBytes_ends {bytes : Bytes} (h : Utf8.decode bytes = .ok text) :
    TextEnding shown text.unifyLineEnds (ofBytes shown bytes) := by
  cases hresult : ofBytes shown bytes with
  | ok metadata => exact .accepted (ofBytes_ok hresult)
  | error e =>
    rw [ofBytes, h] at hresult
    dsimp only at hresult
    split at hresult
    · cases hresult
      exact .refused rfl
    · rename_i hparse
      cases hresult
      exact .tooDeep (Json.parse_error hparse)
    · rename_i hparse
      cases hresult
      exact .tooManyDigits (Json.parse_error hparse).1 (Json.parse_error hparse).2
    · split at hresult <;> cases hresult
      exact .refused rfl
    · cases hresult
      exact .refused rfl

end Metadata

namespace Package

/-- How loading ends, stage by stage. -/
inductive LoadEnding (m : Machine) (shown file : Text) : Except Error Metadata → Prop
  | unsendable {e : Error} (hsend : ¬IsSendable file) (h : (∃ fault, e = .unencodable fault) ∨ e = .value .embeddedNull) :
    LoadEnding m shown file (.error e)
  | unreadable {e : Errno} (hsend : IsSendable file) (hread : m.files.read file = .error e) :
    LoadEnding m shown file (.error (.configuration (.unreadable shown ⟨e, some file, none⟩)))
  | undecodable {bytes : Bytes} {fault : Utf8.DecodeError} (hsend : IsSendable file) (hread : m.files.read file = .ok bytes)
    (h : Utf8.decode bytes = .error fault) : LoadEnding m shown file (.error (.undecodable fault))
  | ofText {bytes : Bytes} {text : Text} {result : Except Error Metadata} (hsend : IsSendable file)
    (hread : m.files.read file = .ok bytes) (hdecode : Utf8.decode bytes = .ok text)
    (h : Metadata.TextEnding shown text.unifyLineEnds result) : LoadEnding m shown file result

/-- What is made of the outcome of reading the file. -/
def ofRead (shown : Text) : Except Error Bytes → Except Error Metadata
  | .ok bytes => Metadata.ofBytes shown bytes
  | .error (.system e) => .error (.configuration (.unreadable shown e))
  | .error e => .error e

theorem exec_load {outcome : Except Error Bytes} (h : exec (readFile file) m = (outcome, m)) :
    exec (load shown file) m = (ofRead shown outcome, m) := by
  have hattempt : exec (attempt (readFile file)) m = (.ok outcome, m) := by rw [exec_attempt, h]
  rw [load, exec_bind_of_ok hattempt]
  cases outcome with
  | ok bytes => exact exec_ofExcept _
  | error e => cases e <;> rfl

theorem exec_load_ends (m : Machine) (shown file : Text) :
    ∃ result, exec (load shown file) m = (result, m) ∧ LoadEnding m shown file result := by
  by_cases hsend : IsSendable file
  · cases hread : m.files.read file with
    | error e => exact ⟨_, exec_load (exec_ask_of_error hsend hread), .unreadable hsend hread⟩
    | ok bytes =>
      refine ⟨Metadata.ofBytes shown bytes, exec_load (exec_ask_of_ok hsend hread), ?_⟩
      cases hdecode : Utf8.decode bytes with
      | error fault =>
        rw [Metadata.ofBytes_undecodable hdecode]
        exact .undecodable hsend hread hdecode
      | ok text => exact .ofText hsend hread hdecode (Metadata.ofBytes_ends hdecode)
  · obtain ⟨e, he, hcheck⟩ := checkPath_of_not_isSendable hsend
    have hread : exec (readFile file) m = (.error e, m) := by rw [readFile, ask, exec_bind_of_error (hcheck m)]
    refine ⟨.error e, ?_, .unsendable hsend he⟩
    rw [exec_load hread]
    rcases he with ⟨fault, rfl⟩ | rfl <;> rfl

/-- Loading leaves the machine as it is and ends in one of these ways, for a file that is named and for the package's own. -/
theorem load_ends (m : Machine) (path : Text) :
    (∃ result, exec (loadAt path) m = (result, m) ∧ exec (versionAt path) m = (result.map Metadata.version, m) ∧
      LoadEnding m (FilePath.ofText path).toText (FilePath.ofText path).toText result) ∧
    ∃ result, exec loadBundled m = (result, m) ∧ LoadEnding m (Path.join m.package metadataName) m.metadataFile result := by
  refine ⟨?_, exec_load_ends m _ _⟩
  obtain ⟨result, hload, hends⟩ := exec_load_ends m (FilePath.ofText path).toText (FilePath.ofText path).toText
  refine ⟨result, hload, ?_, hends⟩
  have hmap : versionAt path = Metadata.version <$> loadAt path := (map_eq_pure_bind _ _).symm
  rw [hmap, exec_map]
  exact congrArg (fun r => (r.1.map Metadata.version, r.2)) hload

/-- A machine whose metadata file is not text. -/
def blurred : Machine := serving [] ⟨[(["package.json"], .file 0 0o644 [0xff])], 1, []⟩

/-- What is no text is not a fault of the configuration. -/
theorem load_undecoded : ∃ (m : Machine) (path : Text), (∀ metadata, (exec (loadAt path) m).1 ≠ .ok metadata) ∧
    (∀ fault, (exec (loadAt path) m).1 ≠ .error (.configuration fault)) ∧
    ∀ fault, (exec (versionAt path) m).1 ≠ .error (.configuration fault) := by
  have hload : exec (loadAt "/package.json") blurred = (.error (.undecodable ⟨0, 1, 0xff, .startByte⟩), blurred) := by cbv
  have hversion : exec (versionAt "/package.json") blurred = (.error (.undecodable ⟨0, 1, 0xff, .startByte⟩), blurred) := by cbv
  refine ⟨blurred, "/package.json", fun _ h => ?_, fun _ h => ?_, fun _ h => ?_⟩
  · rw [hload] at h
    cases h
  · rw [hload] at h
    cases h
  · rw [hversion] at h
    cases h

end Package

end Prebuilt
