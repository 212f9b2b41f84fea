import Prebuilt.Proofs.Install.Outcome
/-!
Recognising an installation. Whatever stands at the destination, the check for a current installation comes to an answer, and
with it planning does; unless the marker is a file that is no text, or the path of something is too long to ask about.
-/
set_option autoImplicit false

namespace Prebuilt

open FileSystem Action

variable {i : Installation} {m : Machine} {path url binary : Text} {dependency : Dependency} {destination : FilePath} {force : Json}

/-! ## Questions that have an answer -/

namespace FileSystem

variable {fs : FileSystem} {links : Nat} {d : Location} {parts : List Text} {e : Errno}

/-- A way down that leads to nothing ends where something is missing, or where a name is too long. -/
theorem walk_target_error (h : fs.walk .target links d parts = .error e) : meansAbsent e = true ∨ e = .nameTooLong := by
  fun_induction FileSystem.walk fs .target links d parts <;> simp_all [meansAbsent, Errno.noEntry, Errno.notDirectory,
    Errno.tooManyLinks, Errno.nameTooLong]

theorem status_target_error (h : fs.status path true = .error e) : meansAbsent e = true ∨ e = .nameTooLong := by
  have hstart (h : fs.start path = .error e) : meansAbsent e = true ∨ e = .nameTooLong := by
    unfold FileSystem.start at h
    split at h
    · cases h
      exact .inl rfl
    · split at h
      · cases h
        exact .inr rfl
      · split at h
        · cases h
        · split at h <;> cases h
          exact .inl rfl
  unfold FileSystem.status FileSystem.place at h
  rw [if_pos rfl] at h
  cases hd : fs.start path with
  | error e' =>
    simp only [hd, bind, Except.bind, Except.error.injEq] at h
    exact hstart (h ▸ hd)
  | ok d =>
    simp only [hd, bind, Except.bind] at h
    split at h
    · rename_i hwalk
      cases h
      exact walk_target_error hwalk
    · cases h
    · cases h
      exact .inl rfl

/-- What stands at a path can be told, unless the path is too long. -/
theorem node?_of_status (h : fs.status path true ≠ .error .nameTooLong) : ∃ node, fs.node? path = .ok node := by
  unfold FileSystem.node?
  cases hstatus : fs.status path true with
  | ok found => exact ⟨_, rfl⟩
  | error e =>
    rcases status_target_error hstatus with habsent | rfl
    · simp only [habsent, if_true]
      exact ⟨_, rfl⟩
    · exact absurd hstatus h

end FileSystem

namespace Action

/-- Whether a file stands at a path can be told, unless the path is too long. -/
theorem isFile_decides (h : m.files.status path true ≠ .error .nameTooLong) :
    ∃ b, exec (isFile path) m = (.ok b, m) ∧ (b = true ↔ Shows m.files path) := by
  obtain ⟨node, hnode⟩ := node?_of_status h
  rcases isFile_cases path m with ⟨e, he⟩ | ⟨he, hshows⟩ | ⟨he, hlacks⟩
  · exfalso
    rw [isFile, exec_bind_of_ok (exec_attempt _)] at he
    obtain ⟨r, hr⟩ := exec_checkPath path
    rw [hr] at he
    cases r with
    | error fault => cases he
    | ok _ =>
      simp only [exec_bind_of_ok exec_files, hnode] at he
      cases he
  · exact ⟨true, he, by simpa using hshows⟩
  · exact ⟨false, he, by simpa using fun hshows => hshows.not_lacks hlacks⟩

/-- Checks that each come to an answer do so together. -/
theorem allM_decides {α : Type} {f : α → Action Bool} {P : α → Prop} {items : List α}
    (hf : ∀ a ∈ items, ∃ b, exec (f a) m = (.ok b, m) ∧ (b = true ↔ P a)) :
    ∃ b, exec (items.allM f) m = (.ok b, m) ∧ (b = true ↔ ∀ a ∈ items, P a) := by
  induction items with
  | nil => exact ⟨true, rfl, by simp⟩
  | cons a rest ih =>
    obtain ⟨⟨first, hfirst, ha⟩, hrest⟩ := List.forall_mem_cons.1 hf
    obtain ⟨b, hb, hall⟩ := ih hrest
    rw [List.allM, exec_bind_of_ok hfirst, List.forall_mem_cons, ← ha, ← hall]
    cases first with
    | true => exact ⟨b, hb, by simp⟩
    | false => exact ⟨false, rfl, by simp⟩

end Action

/-! ## What the check looks for -/

namespace Installation

/-- The marker is readable text, and but for blanks at its ends the text is the address. -/
def IsMarked (i : Installation) (fs : FileSystem) (url : Text) : Prop := ∃ destination bytes text, i.destination = .ok destination ∧
  fs.read (destination / markerName).toText = .ok bytes ∧ Utf8.decode bytes = .ok text ∧ text.unifyLineEnds.strip = url

/-- A file that may be executed stands at the path of the binary, links followed. -/
def IsRunnable (i : Installation) (fs : FileSystem) (binary : Text) : Prop := ∃ path l number mode content,
  i.binaryPath binary = .ok path ∧ IsSendable path.toText ∧ fs.status path.toText true = .ok (l, .file number mode content) ∧
    mode &&& 0o111 ≠ 0

/-- The marker can be asked for, and it is text if it can be read at all. -/
structure IsLegible (destination : FilePath) (fs : FileSystem) : Prop where
  sendable : IsSendable (destination / markerName).toText
  decodes : ∀ bytes, fs.read (destination / markerName).toText = .ok bytes → ∃ text, Utf8.decode bytes = .ok text

theorem marker?_decides (hdestination : i.destination = .ok destination) (hlegible : IsLegible destination m.files) :
    ∃ marker : Option Text, exec i.marker? m = (.ok marker, m) ∧ ∀ url, i.IsMarked m.files url ↔ ∃ text, marker = some text ∧ text.strip = url := by
  have hmarker : exec i.marker? m = exec (catching (some <$> readText (destination / markerName).toText)
      fun e => if e.isSystem then some (return none) else none) m := by
    rw [marker?, exec_bind_of_ok (by rw [exec_ofExcept, hdestination])]
  rw [hmarker, exec_catching, exec_map, readText, readFile, exec_bind]
  cases hread : m.files.read (destination / markerName).toText with
  | error e =>
    rw [exec_ask_of_error hlegible.sendable hread]
    refine ⟨none, rfl, fun url => ⟨?_, by simp⟩⟩
    rintro ⟨destination', bytes, text, hdestination', hread', -⟩
    cases hdestination.symm.trans hdestination'
    cases hread.symm.trans hread'
  | ok bytes =>
    obtain ⟨text, htext⟩ := hlegible.decodes bytes hread
    rw [exec_ask_of_ok hlegible.sendable hread]
    simp only [htext]
    refine ⟨some text.unifyLineEnds, rfl, fun url => ⟨?_, ?_⟩⟩
    · rintro ⟨destination', bytes', text', hdestination', hread', htext', hurl⟩
      cases hdestination.symm.trans hdestination'
      cases hread.symm.trans hread'
      cases htext.symm.trans htext'
      exact ⟨_, rfl, hurl⟩
    · rintro ⟨_, htext', hurl⟩
      exact ⟨destination, bytes, text, hdestination, hread, htext, Option.some.inj htext' ▸ hurl⟩

theorem IsMarked.unique {fs : FileSystem} {url' : Text} (h : i.IsMarked fs url) (h' : i.IsMarked fs url') : url = url' := by
  obtain ⟨destination, bytes, text, hdestination, hread, htext, rfl⟩ := h
  obtain ⟨destination', bytes', text', hdestination', hread', htext', rfl⟩ := h'
  cases hdestination.symm.trans hdestination'
  cases hread.symm.trans hread'
  cases htext.symm.trans htext'
  rfl

/-- Under another address nothing is installed. -/
theorem isInstalled_of_not_isMarked {dependency : Dependency} (hdestination : i.destination = .ok destination)
    (hlegible : IsLegible destination m.files) (hnot : ¬ i.IsMarked m.files dependency.url) :
    (exec (i.isInstalled dependency) m).1 = .ok false := by
  obtain ⟨marker, hmarker, hmarked⟩ := marker?_decides hdestination hlegible
  rw [isInstalled, exec_bind_of_ok hmarker]
  cases marker with
  | none => rfl
  | some text =>
    have hne : text.strip ≠ dependency.url := fun he => hnot ((hmarked _).2 ⟨text, rfl, he⟩)
    simp only [hne, if_false]
    rfl

theorem hasBinary_decides {path : FilePath} (hpath : i.binaryPath binary = .ok path)
    (hlong : m.files.status path.toText true ≠ .error .nameTooLong) :
    ∃ b, exec (i.hasBinary binary) m = (.ok b, m) ∧ (b = true ↔ i.IsRunnable m.files binary) := by
  have hrunnable : i.IsRunnable m.files binary ↔ Shows m.files path.toText ∧ m.files.mayExecute path.toText = true := by
    constructor
    · rintro ⟨path', l, number, mode, content, hpath', hsend, hstatus, hmode⟩
      cases hpath.symm.trans hpath'
      refine ⟨⟨hsend, .file number mode content, ?_, rfl⟩, ?_⟩
      · rw [FileSystem.node?, hstatus]
      · rw [FileSystem.mayExecute, hstatus]
        simpa [Node.mode] using hmode
    · rintro ⟨⟨hsend, node, hnode, hfile⟩, hmay⟩
      obtain ⟨l, hstatus⟩ := node?_some hnode
      cases node with
      | file number mode content =>
        rw [FileSystem.mayExecute, hstatus] at hmay
        exact ⟨path, l, number, mode, content, hpath, hsend, hstatus, by simpa [Node.mode] using hmay⟩
      | directory mode => cases hfile
      | link target => cases hfile
      | special number mode => cases hfile
  obtain ⟨b, hb, hshows⟩ := isFile_decides hlong
  rw [hrunnable, ← hshows]
  have hrun : exec (i.hasBinary binary) m = exec (do
      if ← isFile path.toText then return (← files).mayExecute path.toText else return false) m := by
    rw [hasBinary, exec_bind_of_ok (by rw [exec_ofExcept, hpath])]
  rw [hrun, exec_bind_of_ok hb]
  cases b with
  | true => exact ⟨m.files.mayExecute path.toText, rfl, by simp⟩
  | false => exact ⟨false, rfl, by simp⟩

/-- The check says yes where the marker holds the address and each binary may be run, and no in every other case. -/
theorem exec_isInstalled_decides (dependency : Dependency) (hdestination : i.destination = .ok destination) (hlegible : IsLegible destination m.files)
    (hlong : ∀ binary ∈ i.config.binaries, m.files.status (destination / i.binaryName binary).toText true ≠ .error .nameTooLong) :
    ∃ current, exec (i.isInstalled dependency) m = (.ok current, m) ∧
      (current = true ↔ i.IsMarked m.files dependency.url ∧ ∀ binary ∈ i.config.binaries, i.IsRunnable m.files binary) := by
  have hpath (binary : Text) : i.binaryPath binary = .ok (destination / i.binaryName binary) := by
    rw [binaryPath, hdestination]
    rfl
  obtain ⟨marker, hmarker, hmarked⟩ := marker?_decides hdestination hlegible
  obtain ⟨all, hall, hrunnable⟩ := allM_decides fun binary hbinary => hasBinary_decides (hpath binary) (hlong binary hbinary)
  rw [isInstalled, exec_bind_of_ok hmarker, hmarked, ← hrunnable]
  cases marker with
  | none => exact ⟨false, rfl, by simp⟩
  | some text =>
    by_cases hstrip : text.strip = dependency.url
    · simp only [hstrip, if_true]
      exact ⟨all, hall, by simp [hstrip]⟩
    · simp only [hstrip, if_false]
      exact ⟨false, rfl, by simp [hstrip]⟩

theorem hostDependency_of_get? {fields : Fields} (hconfig : WrapConfig.ofFields fields = .ok i.config)
    (hkey : Table.get? i.key i.config.urls = some url) : ∃ dependency, i.hostDependency = .ok dependency ∧ dependency.url = url := by
  obtain ⟨type, htype⟩ := ((WrapConfig.isValid_of_fields hconfig).entry (Table.mem_of_get? hkey)).2
  refine ⟨⟨i.key, url, type⟩, ?_, rfl⟩
  simp only [hostDependency, WrapConfig.dependency?, hkey, Dependency.ofUrl, htype]
  rfl

/-- A caller, or the settings, want a new download in any case. -/
def IsForced (i : Installation) (force : Json) : Prop := force.isFalsy = false ∨ i.settings.forceDownload.isFalsy = false

/-- The check for a current installation decides every file system, and a plan is made exactly where one is forced or the check
says no; as long as the marker, if it can be read, is text, and nothing that is asked about has too long a path. -/
theorem isInstalled_decides {fields : Fields} (hconfig : WrapConfig.ofFields fields = .ok i.config)
    (hkey : Table.get? i.key i.config.urls = some url)
    (hdirectory : i.settings.installDirectory.isFalsy = true ∨ ∃ t, i.settings.installDirectory = .text t)
    (hlegible : ∀ destination, i.destination = .ok destination → IsLegible destination m.files)
    (hlong : ∀ binary ∈ i.config.binaries, ∀ path, i.binaryPath binary = .ok path →
      m.files.status path.toText true ≠ .error .nameTooLong) (force : Json) :
    ∃ dependency current i', i.hostDependency = .ok dependency ∧ dependency.url = url ∧
      exec (i.isInstalled dependency) m = (.ok current, m) ∧
      (current = true ↔ i.IsMarked m.files url ∧ ∀ binary ∈ i.config.binaries, i.IsRunnable m.files binary) ∧
      Installing.exec (Installing.plan force) i m = ((.ok (), i'), m) ∧ (i'.pending ≠ [] ↔ i.IsForced force ∨ current = false) := by
  obtain ⟨dependency, hdependency, rfl⟩ := hostDependency_of_get? hconfig hkey
  obtain ⟨destination, hdestination⟩ : ∃ destination, i.destination = .ok destination := by
    rw [Installation.destination, directory]
    rcases hdirectory with hfalsy | ⟨t, ht⟩
    · exact ⟨_, by rw [if_pos hfalsy]; rfl⟩
    · cases hfalsy : i.settings.installDirectory.isFalsy with
      | true => exact ⟨_, by rw [if_pos rfl]; rfl⟩
      | false => exact ⟨_, by rw [if_neg (by simp), ht]; rfl⟩
  obtain ⟨current, hcurrent, hiff⟩ := exec_isInstalled_decides dependency hdestination (hlegible _ hdestination)
    fun binary hbinary => hlong binary hbinary _ (by rw [binaryPath, hdestination]; rfl)
  obtain ⟨given, hgiven⟩ : ∃ given, (if force.isFalsy then i.settings.forceDownload else force) = given := ⟨_, rfl⟩
  have hforced : i.IsForced force ↔ given.isFalsy = false := by
    rw [IsForced, ← hgiven]
    cases hfalsy : force.isFalsy with
    | true => simp
    | false => simp [hfalsy]
  have hasked : if given.isFalsy then (exec (i.isInstalled dependency) m).1 = .ok (given.isFalsy && current)
      else (given.isFalsy && current) = false := by
    cases given.isFalsy with
    | true => simpa using congrArg Prod.fst hcurrent
    | false => simp
  have hplan := Installing.exec_plan hdependency hdestination hgiven hasked
  refine ⟨dependency, current, _, hdependency, rfl, hcurrent, hiff, hplan, ?_⟩
  rw [hforced]
  cases given.isFalsy with
  | true => cases current <;> simp [pending, settled, planned, putState]
  | false => simp [pending, planned, putState]

/-- An installation of one binary with this marker. -/
def markedFiles (marker : Bytes) : FileSystem :=
  ⟨[(["unpacked_bin"], .directory 0o755), (["unpacked_bin", "linux-x64"], .directory 0o755),
    (["unpacked_bin", "linux-x64", ".source-url"], .file 0 0o644 marker),
    (["unpacked_bin", "linux-x64", "run"], .file 1 0o755 [35, 33])], 2, []⟩

/-- Nobody forces a download, and the marker holds another address. -/
theorem isInstalled_decides_stale : ∃ dependency current i',
    (hosted ["run"] "https://h/run.tar").hostDependency = .ok dependency ∧ dependency.url = "https://h/run.tar" ∧
      exec ((hosted ["run"] "https://h/run.tar").isInstalled dependency) (serving [] (markedFiles [120])) =
        (.ok current, serving [] (markedFiles [120])) ∧
      (current = true ↔ (hosted ["run"] "https://h/run.tar").IsMarked (markedFiles [120]) "https://h/run.tar" ∧
        ∀ binary ∈ (["run"] : List Text), (hosted ["run"] "https://h/run.tar").IsRunnable (markedFiles [120]) binary) ∧
      Installing.exec (Installing.plan .null) (hosted ["run"] "https://h/run.tar") (serving [] (markedFiles [120])) =
        ((.ok (), i'), serving [] (markedFiles [120])) ∧
      (i'.pending ≠ [] ↔ (hosted ["run"] "https://h/run.tar").IsForced .null ∨ current = false) := by
  have hconfig : WrapConfig.ofFields [("dirname", .text "/"), ("binaries", .array [.text "run"]),
    ("urls", .object [("linux-x64", .text "https://h/run.tar")])] = .ok (hosted ["run"] "https://h/run.tar").config := rfl
  refine isInstalled_decides (m := serving [] (markedFiles [120])) hconfig rfl (.inl rfl) ?_ ?_ .null
  · intro destination hdestination
    obtain rfl : destination = ⟨"/", ["unpacked_bin", "linux-x64"]⟩ :=
      Except.ok.inj (hdestination.symm.trans (destination_hosted _ _))
    have hmarker : ((⟨"/", ["unpacked_bin", "linux-x64"]⟩ : FilePath) / markerName).toText =
        "/unpacked_bin/linux-x64/.source-url" := by decide
    have hread : (markedFiles [120]).read "/unpacked_bin/linux-x64/.source-url" = .ok [120] := by cbv
    refine ⟨⟨"/unpacked_bin/linux-x64/.source-url".toUTF8.toList, by rw [hmarker]; cbv, by cbv⟩, fun bytes hbytes => ?_⟩
    rw [hmarker, show (serving [] (markedFiles [120])).files = markedFiles [120] from rfl, hread] at hbytes
    cases hbytes
    exact ⟨"x", by cbv⟩
  · intro binary hbinary path hpath
    obtain rfl := List.mem_singleton.1 hbinary
    cases hpath
    cbv
    simp

/-- A marker that is no text is an error of the check and of planning, so nothing is ever installed over it without force. -/
theorem isInstalled_undecided : ∃ fault : Error, fault = .undecodable ⟨0, 1, 0xff, .startByte⟩ ∧
    (hosted ["run"] "https://h/run.tar").hostDependency = .ok ⟨"linux-x64", "https://h/run.tar", "tar"⟩ ∧
    exec ((hosted ["run"] "https://h/run.tar").isInstalled ⟨"linux-x64", "https://h/run.tar", "tar"⟩)
      (serving [] (markedFiles [0xff])) = (.error fault, serving [] (markedFiles [0xff])) ∧
    Installing.exec (Installing.plan .null) (hosted ["run"] "https://h/run.tar") (serving [] (markedFiles [0xff])) =
      ((.error fault, hosted ["run"] "https://h/run.tar"), serving [] (markedFiles [0xff])) := by
  refine ⟨_, rfl, rfl, ?_, ?_⟩
  · cbv
  · cbv

end Installation

end Prebuilt
