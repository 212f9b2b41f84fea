import Prebuilt.Program
import Prebuilt.Proofs.Version.Loading
import Prebuilt.Proofs.Version.Publishing
import Prebuilt.Proofs.Wrapper.Discreet
/-!
The program that manages the installation shows its progress if it is told to, and does the same as without. Whether it shows its
progress or not, its exit status and its standard output agree: an installation prints where it is, or nothing and says why on
the other stream, and a check of the addresses prints a line for each and fails if one of them is missing.
-/
set_option autoImplicit false

namespace Prebuilt

open Action

variable {m m' : Machine} {metadata : Metadata} {version : Text}

/-! ## The release that comes with the package -/

namespace Package

/-- The wrapper for a release that unpacks beside the package. -/
def released (version directory : Text) : Wrapper := ⟨Release.binary, WrapConfig.ofVersion version directory, none, none, none⟩

theorem exec_bundled (m : Machine) : ∃ result, exec loadBundled m = (result, m) ∧
    exec bundled m = (result.map fun metadata => (metadata.version, released metadata.version m.package), m) := by
  obtain ⟨result, hload, -⟩ := exec_load_ends m (Path.join m.package metadataName) m.metadataFile
  have hbundled : exec loadBundled m = (result, m) := hload
  refine ⟨result, hbundled, ?_⟩
  cases result with
  | error e => exact exec_bind_of_error hbundled
  | ok metadata => exact exec_bind_of_ok hbundled

theorem isWritable_released (hversion : Version.isSemantic version = true) {directory : Text} (hdirectory : directory.isString = true) :
    (released version directory).IsWritable where
  urls entry hentry := by
    obtain ⟨key, url⟩ := entry
    obtain ⟨name, hname, hurl⟩ := Release.mem_urls hentry
    have hplatforms : ∀ platform ∈ Release.platforms, platform.1.isString = true ∧ platform.2.isString = true := by decide
    obtain ⟨hkey, hname⟩ := hplatforms _ hname
    refine ⟨hkey, ?_⟩
    have hhost : Release.host.isString = true := by decide
    rw [hurl]
    simp only [Text.isString_append, isString_of_isSemantic hversion, hname, hhost]
    rfl
  directory := hdirectory
  settings := nofun

theorem discreet_loadBundled : Discreet loadBundled := by
  have hload (shown file : Text) : Discreet (load shown file) := by
    refine (composes_discreet.ask file _).attempt.bind fun result => ?_
    split
    · exact composes_discreet.ofExcept _
    · exact composes_discreet.throw _
    · exact composes_discreet.throw _
  refine discreet_get_bind (fun _ _ _ => hload _ _) fun m m' h => ?_
  rw [h.same (·.package) fun _ => rfl, h.same (·.metadataFile) fun _ => rfl]

theorem discreet_bundled : Discreet bundled := by
  refine discreet_loadBundled.bind fun metadata => Discreet.bind ?_ fun _ => composes_discreet.pure _
  exact discreet_get_bind (fun _ _ _ => composes_discreet.pure _) fun m m' h => by rw [h.same (·.package) fun _ => rfl]

end Package

/-! ## What is printed in the course of the work -/

namespace Wrapper

/-- An installation prints nothing, and gives the destination. -/
theorem install_ending (w : Wrapper) (force : Json) (m : Machine) : ∃ r m', exec (w.install force) m = (r, m') ∧
    m'.journal.output = m.journal.output ∧ ∀ path, r = .ok path → ∃ settings, w.settingsOn m = .ok settings ∧
      (⟨w.config, settings, w.keyOn m.host, [], []⟩ : Installation).destination = .ok path := by
  obtain ⟨m₁, hsettings, hm₁⟩ := w.exec_currentSettings m
  have houtput : m₁.journal.output = m.journal.output := by rw [hm₁]
  cases hon : w.settingsOn m with
  | error e =>
    rw [hon] at hsettings
    have hinstallation : exec w.installation m = (.error e, m₁) := exec_bind_of_error hsettings
    exact ⟨.error e, m₁, exec_install_error hinstallation force, houtput, nofun⟩
  | ok settings =>
    rw [hon] at hsettings
    obtain ⟨r, j, m', hwork, honward, hending⟩ := work_ending w force (i := ⟨w.config, settings, w.keyOn m.host, [], []⟩) rfl rfl m₁
    refine ⟨r, m', ?_, honward.output.trans houtput, fun path hr => ⟨settings, rfl, ?_⟩⟩
    · rw [exec_install (exec_installation hsettings), hwork]
    · rw [hr] at hending
      exact hending.of_ok.2

theorem bounded_verifyEntry (client : Client) (entry : Text × Text) : Bounded (fun _ => True) (verifyEntry client entry) := by
  have hstatus : Bounded (fun _ => True) (client.headStatus entry.2) :=
    (bounded_send (fun _ _ => trivial) client .head entry.2).bind fun reply =>
      (bounded_readContent (fun _ _ => trivial) reply).bind fun _ => bounded_pure _
  have hpublished : Bounded (fun _ => True) (isPublished client entry.2) := by
    refine hstatus.attempt_bind (fun _ => bounded_pure _) fun e _ => ?_
    cases e with
    | transport fault => exact (bounded_log (fun _ _ => trivial) _ _ _).bind fun _ => bounded_pure _
    | _ => exact bounded_throw trivial
  exact hpublished.bind fun _ => (bounded_log (fun _ _ => trivial) _ _ _).bind fun _ => bounded_pure _

theorem keys_verifyEntries {client : Client} {entries : List (Text × Text)} {results : List (Text × Bool)}
    (h : exec (entries.mapM (verifyEntry client)) m = (.ok results, m')) : results.map (·.1) = entries.map (·.1) := by
  induction entries generalizing m results with
  | nil =>
    cases h
    rfl
  | cons entry rest ih =>
    rw [List.mapM_cons] at h
    obtain ⟨result, m₁, hfirst, h⟩ := bind_ok.1 h
    obtain ⟨others, m₂, hrest, h⟩ := bind_ok.1 h
    cases h
    obtain ⟨published, m₃, -, hfirst⟩ := bind_ok.1 hfirst
    obtain ⟨_, m₄, -, hfirst⟩ := bind_ok.1 hfirst
    cases hfirst
    rw [List.map_cons, List.map_cons, ih hrest]

/-- The addresses are asked about in their order, and nothing is printed. -/
theorem verifyUrls_ending (w : Wrapper) (m : Machine) : ∃ r m', exec w.verifyUrls m = (r, m') ∧ m'.journal.output = m.journal.output ∧
    ∀ results, r = .ok results → results.map (·.1) = w.config.urls.map (·.1) := by
  obtain ⟨m₁, hworld, hrun⟩ := w.exec_verifyUrls m
  have houtput : m₁.journal.output = m.journal.output := by rw [hworld]
  cases hclient : w.verifier m with
  | error e =>
    rw [hclient] at hrun
    exact ⟨_, _, hrun, houtput, nofun⟩
  | ok client =>
    rw [hclient] at hrun
    have hall := Bounded.mapM fun entry (_ : entry ∈ w.config.urls) => bounded_verifyEntry client entry
    exact ⟨_, _, hrun, (hall m₁).1.output.trans houtput, fun results hresults => keys_verifyEntries (Prod.ext hresults rfl)⟩

end Wrapper

namespace Program

variable {invocation : CommandLine.Invocation} {arguments : List Text}

/-! ## Printing -/

/-- The line for an entry of a table. -/
def line (entry : Text × Text) : Text := Text.join [entry.1, " ", entry.2, "\n"]

/-- The machine once this was printed. -/
def printed (m : Machine) (t : Text) : Machine := { m with journal := { m.journal with output := m.journal.output ++ t } }

theorem exec_printPairs (entries : List (Text × Text)) (m : Machine) :
    exec (printPairs entries) m = (.ok (), printed m (Text.join (entries.map line))) := by
  induction entries generalizing m with
  | nil => simp [printPairs, printed, Text.join]
  | cons entry rest ih =>
    have hfirst : exec (print (line entry)) m = (.ok (), printed m (line entry)) := rfl
    refine (exec_bind_of_ok hfirst).trans ((ih _).trans ?_)
    simp [printed, Text.join]

theorem discreet_print (t : Text) : Discreet (print t) := discreet_record fun _ => rfl

theorem discreet_notify (t : Text) : Discreet (notify t) := fun _ _ h => ⟨rfl, h.of_noted rfl rfl⟩

/-! ## Two runs -/

theorem discreet_execute (invocation : CommandLine.Invocation) : Discreet (execute invocation) := by
  refine Package.discreet_bundled.bind_of fun bundle m m₁ hm hrun => ?_
  obtain ⟨result, hload, hbundled⟩ := Package.exec_bundled m
  cases result with
  | error e => cases hrun.symm.trans hbundled
  | ok metadata =>
    cases hrun.symm.trans hbundled
    obtain ⟨bytes, hbytes⟩ := Package.load_ok hload
    have hwrapper := Package.isWritable_released (Metadata.ofBytes_ok hbytes) hm.package
    have hpairs (entries : List (Text × Text)) : Discreet (printPairs entries) := composes_discreet.forM fun _ => discreet_print _
    dsimp only
    cases invocation.command with
    | install =>
      exact (Wrapper.discreet_install hwrapper _).bind fun path => (discreet_print _).bind fun _ => composes_discreet.pure 0
    | verify =>
      exact (Wrapper.discreet_verifyUrls hwrapper).bind fun results => (hpairs _).bind fun _ => composes_discreet.pure _
    | urls => exact (hpairs _).bind fun _ => composes_discreet.pure 0
    | version => exact (discreet_print _).bind fun _ => composes_discreet.pure 0

theorem discreet_reporting {name : Text} {work : Action Int} (h : Discreet work) : Discreet (Wrapper.reporting name work) := by
  refine composes_discreet.catching h fun e action he => ?_
  split at he
  · cases he
    exact (discreet_notify _).bind fun _ => composes_discreet.pure 1
  · cases he

/-- The machine that shows progress. -/
def loud (m : Machine) : Machine := { m with threshold := Log.info, verbose := true }

theorem exec_manage {verbose : Bool} (h : CommandLine.parse arguments = .ok { invocation with verbose }) (m : Machine) :
    exec (manage arguments) m =
      ((exec (Wrapper.reporting managerName (execute invocation)) (if verbose then loud m else m)).1.map Ending.finished,
        (exec (Wrapper.reporting managerName (execute invocation)) (if verbose then loud m else m)).2) := by
  have hrun (k : Machine) : exec (do return Ending.finished (← Wrapper.reporting managerName (execute invocation))) k =
      ((exec (Wrapper.reporting managerName (execute invocation)) k).1.map Ending.finished,
        (exec (Wrapper.reporting managerName (execute invocation)) k).2) := exec_map Ending.finished _
  rw [manage, h]
  cases verbose with
  | false => exact hrun m
  | true => exact hrun (loud m)

/-! ## Exit status and output -/

/-- Where the release that comes with the package is installed on the machine. -/
def IsDestination (m : Machine) (path : FilePath) : Prop := ∃ (metadata : Metadata) (settings : Settings), (exec Package.loadBundled m).1 = .ok metadata ∧
  Settings.ofEnvironment m.environment = .ok settings ∧
    (⟨WrapConfig.ofVersion metadata.version m.package, settings, m.host.key, [], []⟩ : Installation).destination = .ok path

theorem IsDestination.of_alike {path : FilePath} (h : m.Alike m') (hpath : IsDestination m' path) : IsDestination m path := by
  obtain ⟨metadata, settings, hload, hsettings, hpath⟩ := hpath
  refine ⟨metadata, settings, ?_, ?_, ?_⟩
  · rw [(Package.discreet_loadBundled m m' h).1, hload]
  · rw [h.same (·.environment) fun _ => rfl, hsettings]
  · rw [h.same (·.package) fun _ => rfl, h.same (·.host) fun _ => rfl, hpath]

theorem execute_install (h : invocation.command = .install) (hfresh : m.settings = []) : ∃ r m', exec (execute invocation) m = (r, m') ∧
    ((∃ e, r = .error e ∧ m'.journal.output = m.journal.output) ∨
      ∃ path, r = .ok 0 ∧ m'.journal.output = m.journal.output ++ (path.toText ++ "\n") ∧ IsDestination m path) := by
  obtain ⟨result, hload, hbundled⟩ := Package.exec_bundled m
  rw [execute]
  cases result with
  | error e => exact ⟨_, m, exec_bind_of_error hbundled, .inl ⟨e, rfl, rfl⟩⟩
  | ok metadata =>
    obtain ⟨r, m', hinstall, houtput, hending⟩ :=
      (Package.released metadata.version m.package).install_ending (.bool invocation.force) m
    rw [exec_bind_of_ok hbundled, h]
    cases r with
    | error e => exact ⟨_, m', exec_bind_of_error hinstall, .inl ⟨e, rfl, houtput⟩⟩
    | ok path =>
      obtain ⟨settings, hsettings, hdestination⟩ := hending path rfl
      have hread : Settings.ofEnvironment m.environment = .ok settings := by
        rw [← hsettings, Wrapper.settingsOn, hfresh]
        rfl
      refine ⟨.ok 0, printed m' (path.toText ++ "\n"), exec_bind_of_ok hinstall, .inr ⟨path, rfl, ?_, metadata, settings, ?_, hread, hdestination⟩⟩
      · rw [← houtput]
        rfl
      · rw [hload]

theorem execute_verify (h : invocation.command = .verify) : ∃ r m', exec (execute invocation) m = (r, m') ∧
    ((∃ e, r = .error e ∧ m'.journal.output = m.journal.output) ∨
      ∃ (metadata : Metadata) (results : List (Text × Bool)), r = .ok (if results.all (·.2) then 0 else 1) ∧ (exec Package.loadBundled m).1 = .ok metadata ∧
        results.map (·.1) = (Release.urls metadata.version).map (·.1) ∧
          m'.journal.output = m.journal.output ++ Text.join (results.map fun (key, published) => line (key, publishedText published))) := by
  obtain ⟨result, hload, hbundled⟩ := Package.exec_bundled m
  rw [execute]
  cases result with
  | error e => exact ⟨_, m, exec_bind_of_error hbundled, .inl ⟨e, rfl, rfl⟩⟩
  | ok metadata =>
    obtain ⟨r, m', hverify, houtput, hending⟩ := (Package.released metadata.version m.package).verifyUrls_ending m
    rw [exec_bind_of_ok hbundled, h]
    cases r with
    | error e => exact ⟨_, m', exec_bind_of_error hverify, .inl ⟨e, rfl, houtput⟩⟩
    | ok results =>
      refine ⟨_, _, (exec_bind_of_ok hverify).trans (exec_bind_of_ok (exec_printPairs _ m')), .inr ⟨metadata, results, rfl, ?_, ?_, ?_⟩⟩
      · rw [hload]
      · exact hending results rfl
      · rw [← houtput, List.map_map]
        rfl

/-- An installation that went well prints where it is. One that did not prints nothing and says why. -/
structure ShowsInstall (m : Machine) (work : Except Error Int) (r : Except Error Ending × Machine) : Prop where
  done : r.1 = .ok (.finished 0) → ∃ path, IsDestination m path ∧ r.2.journal.output = path.toText ++ "\n"
  failed : r.1 = .ok (.finished 1) → r.2.journal.output = [] ∧ ∃ e notices, work = .error e ∧ e.isReported = true ∧
    r.2.journal.notices = notices ++ [.text (Text.join [managerName, ": ", e.message, "\n"])]
  status : ∀ ending, r.1 = .ok ending → ending = .finished 0 ∨ ending = .finished 1

/-- A check of the addresses that is gone through prints a line for each platform in the order of the table, and its exit status is 1
if one of the archives is missing. -/
structure ShowsVerify (m : Machine) (work : Except Error Int) (r : Except Error Ending × Machine) : Prop where
  completed : ∀ status, work = .ok status → r.1 = .ok (.finished status) ∧ (status = 0 ∨ status = 1) ∧
    ∃ (metadata : Metadata) (results : List (Text × Bool)), (exec Package.loadBundled m).1 = .ok metadata ∧ results.map (·.1) = (Release.urls metadata.version).map (·.1) ∧
      r.2.journal.output = Text.join (results.map fun (key, published) => line (key, publishedText published)) ∧
        (status = 1 ↔ ∃ key, (key, false) ∈ results)

/-- The outcomes differ in nothing but what was written to the stream for diagnostics. -/
structure SameButNotices (r r' : Except Error Ending × Machine) : Prop where
  result : r.1 = r'.1
  output : r.2.journal.output = r'.2.journal.output
  requests : r.2.journal.requests = r'.2.journal.requests
  files : r.2.files = r'.2.files

/-- A process that has just begun, where the directories that it may be told to use can be written down. -/
structure IsFresh (m : Machine) : Prop where
  settings : m.settings = []
  threshold : Log.effectiveThreshold m.threshold = Log.warning
  journal : m.journal = .empty
  temporary : m.temporary.isString = true
  package : m.package.isString = true
  environment : ∀ t, Table.get? Settings.directoryVariable m.environment = some t → t.isString = true

/-- Whether a fresh machine is told to show its progress makes it no other. -/
theorem IsFresh.alike (h : IsFresh m) (verbose : Bool) : m.Alike (if verbose then loud m else m) := by
  have hwarns : Log.isEnabled m.threshold Log.warning = true := by
    rw [Log.isEnabled, h.threshold]
    rfl
  have hsettings : ∀ entry ∈ m.settings, entry.2.IsWritable := fun _ hentry => absurd (h.settings ▸ hentry) List.not_mem_nil
  have hwritable : m.IsWritable := ⟨h.temporary, h.package, h.environment, hsettings⟩
  cases verbose with
  | true => exact ⟨rfl, hwarns, rfl, hwritable⟩
  | false => exact ⟨rfl, hwarns, hwarns, hwritable⟩

theorem sameButNotices (h : IsFresh m) {arguments' : List Text} {verbose verbose' : Bool}
    (hparse : CommandLine.parse arguments = .ok { invocation with verbose })
    (hparse' : CommandLine.parse arguments' = .ok { invocation with verbose := verbose' }) :
    SameButNotices (exec (manage arguments) m) (exec (manage arguments') m) := by
  have hwork : Discreet (Wrapper.reporting managerName (execute invocation)) := discreet_reporting (discreet_execute invocation)
  obtain ⟨hresult, hmachine⟩ := hwork m _ (h.alike verbose)
  obtain ⟨hresult', hmachine'⟩ := hwork m _ (h.alike verbose')
  have hsame {β : Type} (look : Machine → β) (hlook : ∀ k, look k.hushed = look k) :=
    (hmachine.same look hlook).symm.trans (hmachine'.same look hlook)
  rw [exec_manage hparse, exec_manage hparse']
  exact ⟨congrArg (Except.map Ending.finished) (hresult.symm.trans hresult'), hsame (·.journal.output) fun _ => rfl,
    hsame (·.journal.requests) fun _ => rfl, hsame (·.files) fun _ => rfl⟩

theorem showsInstall (h : IsFresh m) {verbose : Bool} (hparse : CommandLine.parse arguments = .ok { invocation with verbose })
    (hcommand : invocation.command = .install) :
    ShowsInstall m (exec (execute invocation) m).1 (exec (manage arguments) m) := by
  rw [exec_manage hparse, Wrapper.exec_reporting]
  have halike := h.alike verbose
  generalize (if verbose then loud m else m) = k at halike
  have hsettings : k.settings = [] := (halike.same (·.settings) fun _ => rfl).symm.trans h.settings
  have hsilent : k.journal.output = [] := by
    rw [← halike.same (·.journal.output) fun _ => rfl, h.journal]
    rfl
  obtain ⟨r, m', hrun, hending⟩ := execute_install hcommand hsettings
  rw [(discreet_execute invocation m k halike).1, hrun]
  rcases hending with ⟨e, rfl, houtput⟩ | ⟨path, rfl, houtput, hpath⟩
  · cases hreported : e.isReported with
    | true =>
      simp only [Wrapper.shown, hreported, if_true]
      refine ⟨fun hdone => ?_, fun _ => ⟨houtput.trans hsilent, e, m'.journal.notices, rfl, hreported, rfl⟩, fun _ hstatus => ?_⟩
      · cases hdone
      · exact .inr (Except.ok.inj hstatus).symm
    | false =>
      simp only [Wrapper.shown, hreported, Bool.false_eq_true, if_false]
      refine ⟨fun hdone => ?_, fun hfailed => ?_, fun _ hstatus => ?_⟩
      · cases hdone
      · cases hfailed
      · cases hstatus
  · rw [hsilent] at houtput
    refine ⟨fun _ => ⟨path, hpath.of_alike halike, houtput⟩, fun hfailed => ?_, fun _ hstatus => .inl (Except.ok.inj hstatus).symm⟩
    cases hfailed

theorem showsVerify (h : IsFresh m) {verbose : Bool} (hparse : CommandLine.parse arguments = .ok { invocation with verbose })
    (hcommand : invocation.command = .verify) :
    ShowsVerify m (exec (execute invocation) m).1 (exec (manage arguments) m) := by
  rw [exec_manage hparse, Wrapper.exec_reporting]
  have halike := h.alike verbose
  generalize (if verbose then loud m else m) = k at halike
  have hsilent : k.journal.output = [] := by
    rw [← halike.same (·.journal.output) fun _ => rfl, h.journal]
    rfl
  obtain ⟨r, m', hrun, hending⟩ := execute_verify (m := k) hcommand
  rw [(discreet_execute invocation m k halike).1, hrun]
  refine ⟨fun status hstatus => ?_⟩
  rcases hending with ⟨e, rfl, -⟩ | ⟨metadata, results, rfl, hload, hkeys, houtput⟩
  · cases hstatus
  · rw [hsilent] at houtput
    rw [← (Package.discreet_loadBundled m k halike).1] at hload
    cases hall : results.all (·.2) with
    | true =>
      rw [hall] at hstatus
      cases hstatus
      have hpublished := List.all_eq_true.1 hall
      refine ⟨rfl, .inl rfl, metadata, results, hload, hkeys, houtput, nofun, fun ⟨key, hkey⟩ => ?_⟩
      exact nomatch hpublished _ hkey
    | false =>
      rw [hall] at hstatus
      cases hstatus
      refine ⟨rfl, .inr rfl, metadata, results, hload, hkeys, houtput, fun _ => ?_, fun _ => rfl⟩
      obtain ⟨⟨key, published⟩, hentry, hmissing⟩ := List.all_eq_false.1 hall
      rw [Bool.not_eq_true] at hmissing
      exact ⟨key, hmissing ▸ hentry⟩

/-- The commands of the program. -/
def commands : List (List Text) := [["install"], ["install", "--force"], ["verify"], ["urls"], ["version"]]

theorem parse_commands : ∀ c ∈ commands, ∃ quiet, CommandLine.parse c = .ok quiet ∧
    CommandLine.parse ("-v" :: c) = .ok { quiet with verbose := true } := by
  simp only [commands, List.forall_mem_cons]
  exact ⟨⟨_, rfl, rfl⟩, ⟨_, rfl, rfl⟩, ⟨_, rfl, rfl⟩, ⟨_, rfl, rfl⟩, ⟨_, rfl, rfl⟩, nofun⟩

/-- A machine with a package of its own, where no address answers. -/
def packaged : Machine := { Package.shelf "1.2.3".toUTF8.toList with metadataFile := "/package.json" }

end Program

end Prebuilt
