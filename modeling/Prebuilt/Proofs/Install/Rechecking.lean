import Prebuilt.Proofs.Files.Retaining
import Prebuilt.Proofs.Install.Entering
import Prebuilt.Proofs.Install.Recognising
/-!
Checking again for an installation. The check says yes exactly where the marker holds the address and each binary may be run;
so it keeps saying yes as long as directories stay directories and nothing else that is there changes.
-/
set_option autoImplicit false

namespace Prebuilt

open FileSystem Action

variable {fs fs' : FileSystem} {m m' : Machine} {i : Installation} {path url text binary : Text} {dependency : Dependency}
  {destination : FilePath}

namespace FileSystem

theorem Retains.read {bytes : Bytes} (h : fs.Retains fs') (hread : fs.read path = .ok bytes) : fs'.read path = .ok bytes := by
  unfold FileSystem.read at hread ⊢
  cases hstatus : fs.status path true with
  | error e => simp [hstatus] at hread
  | ok found =>
    obtain ⟨l, node⟩ := found
    have hnode : node.isDirectory = false := by
      cases node with
      | directory mode => simp [hstatus] at hread
      | _ => rfl
    rw [h.status hstatus hnode]
    rwa [hstatus] at hread

end FileSystem

namespace Action

theorem readText_ok (h : exec (readText path) m = (.ok text, m')) : IsSendable path ∧ m' = m ∧ ∃ bytes raw,
    m.files.read path = .ok bytes ∧ Utf8.decode bytes = .ok raw ∧ raw.unifyLineEnds = text := by
  obtain ⟨bytes, m₁, hread, htext⟩ := bind_ok.1 h
  obtain ⟨rfl, hbytes⟩ := ask_ok hread
  have hsend : IsSendable path := by
    rcases isSendable_or path with hsend | ⟨e, -, he⟩
    · exact hsend
    · cases (exec_bind_of_error (he m₁)).symm.trans hread
  cases hdecode : Utf8.decode bytes with
  | error fault =>
    simp only [hdecode] at htext
    cases htext
  | ok raw =>
    simp only [hdecode] at htext
    cases htext
    exact ⟨hsend, rfl, bytes, raw, hbytes, hdecode, rfl⟩

end Action

namespace Installation

/-- A marker that was read. -/
theorem marker?_some (h : exec i.marker? m = (.ok (some text), m')) : ∃ destination, i.destination = .ok destination ∧
    IsSendable (destination / markerName).toText ∧ (i.IsMarked m.files url ↔ text.strip = url) := by
  obtain ⟨destination, m₁, hgiven, h⟩ := bind_ok.1 h
  rw [exec_ofExcept] at hgiven
  obtain ⟨hdestination, rfl⟩ := Prod.mk.inj hgiven
  rw [exec_catching, exec_map] at h
  rcases hread : exec (readText (destination / markerName).toText) m with ⟨r, m₂⟩
  rw [hread] at h
  cases r with
  | error e =>
    simp only [Except.map] at h
    by_cases hsystem : e.isSystem = true
    · rw [if_pos hsystem] at h
      cases h
    · rw [if_neg hsystem] at h
      cases h
  | ok t =>
    cases h
    obtain ⟨hsend, -, bytes, raw, hbytes, hraw, rfl⟩ := readText_ok hread
    refine ⟨destination, hdestination, hsend, ?_, fun hurl => ⟨destination, bytes, raw, hdestination, hbytes, hraw, hurl⟩⟩
    rintro ⟨destination', bytes', raw', hdestination', hbytes', hraw', hurl⟩
    cases hdestination.symm.trans hdestination'
    cases hbytes.symm.trans hbytes'
    cases hraw.symm.trans hraw'
    exact hurl

theorem hasBinary_true (h : exec (i.hasBinary binary) m = (.ok true, m')) : i.IsRunnable m.files binary := by
  obtain ⟨path, m₁, hgiven, h⟩ := bind_ok.1 h
  rw [exec_ofExcept] at hgiven
  obtain ⟨hpath, rfl⟩ := Prod.mk.inj hgiven
  obtain ⟨there, m₁, hthere, h⟩ := bind_ok.1 h
  have hlook := exec_isFile path.toText m
  rw [hthere] at hlook
  obtain rfl : m₁ = m := hlook
  cases there with
  | false => cases h
  | true =>
    have hshows := isFile_true hthere
    have hlong : m₁.files.status path.toText true ≠ .error .nameTooLong := by
      obtain ⟨-, node, hnode, -⟩ := hshows
      obtain ⟨l, hstatus⟩ := node?_some hnode
      rw [hstatus]
      exact fun h => by cases h
    obtain ⟨b, hb, hrunnable⟩ := hasBinary_decides hpath hlong
    have hrun : exec (i.hasBinary binary) m₁ = (.ok (m₁.files.mayExecute path.toText), m₁) := by
      rw [hasBinary, exec_bind_of_ok (by rw [exec_ofExcept, hpath]), exec_bind_of_ok hthere]
      rfl
    have hmay : m₁.files.mayExecute path.toText = true := congrArg (fun r => r.1.toOption.getD false) h
    refine hrunnable.1 ?_
    rw [hrun, hmay] at hb
    exact (Except.ok.inj (Prod.mk.inj hb).1).symm

/-- Where the check says yes. -/
theorem isInstalled_true_iff : (exec (i.isInstalled dependency) m).1 = .ok true ↔
    (∃ destination, i.destination = .ok destination ∧ IsSendable (destination / markerName).toText) ∧
      i.IsMarked m.files dependency.url ∧ ∀ binary ∈ i.config.binaries, i.IsRunnable m.files binary := by
  constructor
  · intro h
    have hrun : exec (i.isInstalled dependency) m = (.ok true, m) := Prod.ext h (i.exec_isInstalled dependency m)
    obtain ⟨marker, m₁, hmarker, hrun⟩ := bind_ok.1 hrun
    cases marker with
    | none => cases hrun
    | some text =>
      have hlook := i.looks_marker?.still m
      rw [hmarker] at hlook
      obtain rfl : m₁ = m := hlook
      obtain ⟨destination, hdestination, hsend, hmarked⟩ := marker?_some hmarker
      by_cases hstrip : text.strip = dependency.url
      · simp only [hstrip, if_true] at hrun
        have hstill (binary : Text) : Keeps (· = m₁) (i.hasBinary binary) := fun m₂ hm₂ => by
          rw [(i.looks_hasBinary binary).still m₂, hm₂]
        refine ⟨⟨destination, hdestination, hsend⟩, hmarked.2 hstrip, fun binary hmem => ?_⟩
        obtain ⟨m₂, m₃, rfl, hthere⟩ := allM_true (fun binary _ => hstill binary) rfl hrun binary hmem
        exact hasBinary_true hthere
      · simp only [hstrip, if_false] at hrun
        cases hrun
  · rintro ⟨⟨destination, hdestination, hsend⟩, hmarked, hrunnable⟩
    have hlegible : IsLegible destination m.files := by
      refine ⟨hsend, fun bytes hbytes => ?_⟩
      obtain ⟨destination', bytes', raw, hdestination', hbytes', hraw, -⟩ := hmarked
      cases hdestination.symm.trans hdestination'
      cases hbytes.symm.trans hbytes'
      exact ⟨raw, hraw⟩
    have hlong : ∀ binary ∈ i.config.binaries,
        m.files.status (destination / i.binaryName binary).toText true ≠ .error .nameTooLong := by
      intro binary hbinary
      obtain ⟨path, l, number, mode, content, hpath, -, hstatus, -⟩ := hrunnable binary hbinary
      rw [binaryPath, hdestination] at hpath
      obtain rfl : destination / i.binaryName binary = path := Except.ok.inj hpath
      rw [hstatus]
      exact fun h => by cases h
    obtain ⟨current, hrun, hcurrent⟩ := exec_isInstalled_decides dependency hdestination hlegible hlong
    rw [hrun, hcurrent.2 ⟨hmarked, hrunnable⟩]

theorem IsMarked.retained (h : fs.Retains fs') (hmarked : i.IsMarked fs url) : i.IsMarked fs' url := by
  obtain ⟨destination, bytes, raw, hdestination, hbytes, hraw, hurl⟩ := hmarked
  exact ⟨destination, bytes, raw, hdestination, h.read hbytes, hraw, hurl⟩

theorem IsRunnable.retained (h : fs.Retains fs') (hrunnable : i.IsRunnable fs binary) : i.IsRunnable fs' binary := by
  obtain ⟨path, l, number, mode, content, hpath, hsend, hstatus, hmode⟩ := hrunnable
  exact ⟨path, l, number, mode, content, hpath, hsend, h.status hstatus rfl, hmode⟩

/-- What was found installed is found again. -/
theorem isInstalled_retained (h : m.files.Retains m'.files) (hinstalled : (exec (i.isInstalled dependency) m).1 = .ok true) :
    (exec (i.isInstalled dependency) m').1 = .ok true := by
  obtain ⟨hdestination, hmarked, hrunnable⟩ := isInstalled_true_iff.1 hinstalled
  exact isInstalled_true_iff.2 ⟨hdestination, hmarked.retained h, fun binary hbinary => (hrunnable binary hbinary).retained h⟩

/-! ## What the answer depends on -/

theorem binaryPath_eq (hdestination : i.destination = .ok destination) (binary : Text) :
    i.binaryPath binary = .ok (destination / i.binaryName binary) := by
  rw [binaryPath, hdestination]
  rfl

theorem hasBinary_congr (hpath : i.binaryPath binary = .ok destination)
    (hstatus : m.files.status destination.toText true = m'.files.status destination.toText true) :
    (exec (i.hasBinary binary) m).1 = (exec (i.hasBinary binary) m').1 := by
  have hrun (m : Machine) : exec (i.hasBinary binary) m = exec (do
      if ← isFile destination.toText then return (← files).mayExecute destination.toText else return false) m := by
    rw [hasBinary, exec_bind_of_ok (by rw [exec_ofExcept, hpath])]
  have hmay : m.files.mayExecute destination.toText = m'.files.mayExecute destination.toText := by
    rw [FileSystem.mayExecute, FileSystem.mayExecute, hstatus]
  have hthere : (exec (isFile destination.toText) m).1 = (exec (isFile destination.toText) m').1 := by
    obtain ⟨r, hr⟩ := exec_checkPath destination.toText
    rw [isFile, exec_bind_of_ok (exec_attempt _), exec_bind_of_ok (exec_attempt _), hr, hr]
    cases r with
    | error e => rfl
    | ok _ =>
      simp only [exec_bind_of_ok exec_files, FileSystem.node?, hstatus]
      rw [exec_bind, exec_bind, exec_ofExcept, exec_ofExcept]
      split <;> simp_all
  rw [hrun, hrun, exec_bind, exec_bind, (looks_isFile _).exec_eq m, (looks_isFile _).exec_eq m', hthere]
  rcases (exec (isFile destination.toText) m').1 with e | _ | _
  · rfl
  · rfl
  · exact congrArg Except.ok hmay

theorem marker?_congr (hdestination : i.destination = .ok destination)
    (hstatus : m.files.status (destination / markerName).toText true = m'.files.status (destination / markerName).toText true) :
    (exec i.marker? m).1 = (exec i.marker? m').1 := by
  have hread : m.files.read (destination / markerName).toText = m'.files.read (destination / markerName).toText := by
    rw [FileSystem.read, FileSystem.read, hstatus]
  have hrun (m : Machine) : exec i.marker? m = exec (catching (some <$> readText (destination / markerName).toText)
      fun e => if e.isSystem then some (return none) else none) m := by
    rw [marker?, exec_bind_of_ok (by rw [exec_ofExcept, hdestination])]
  have htext : (exec (readText (destination / markerName).toText) m).1 = (exec (readText (destination / markerName).toText) m').1 := by
    have hlooks : Looks (readFile (destination / markerName).toText) := looks_ask _ _
    have hask : (exec (readFile (destination / markerName).toText) m).1 = (exec (readFile (destination / markerName).toText) m').1 := by
      obtain ⟨r, hr⟩ := exec_checkPath (destination / markerName).toText
      rw [readFile, ask, exec_bind, exec_bind, hr, hr]
      cases r with
      | error e => rfl
      | ok _ =>
        simp only [exec_bind_of_ok exec_files, hread]
        cases m'.files.read (destination / markerName).toText <;> rfl
    rw [readText, exec_bind, exec_bind, hlooks.exec_eq m, hlooks.exec_eq m', hask]
    rcases (exec (readFile (destination / markerName).toText) m').1 with e | bytes
    · rfl
    · dsimp only
      split <;> rfl
  rw [hrun, hrun, exec_catching, exec_catching, exec_map, exec_map, htext]
  rcases (exec (readText (destination / markerName).toText) m').1 with e | text
  · simp only [Except.map]
    cases e.isSystem <;> rfl
  · rfl

/-- The answer of the check depends on the marker and on the binaries. -/
theorem isInstalled_congr (hdestination : i.destination = .ok destination)
    (hmarker : m.files.status (destination / markerName).toText true = m'.files.status (destination / markerName).toText true)
    (hbinaries : ∀ binary ∈ i.config.binaries,
      m.files.status (destination / i.binaryName binary).toText true = m'.files.status (destination / i.binaryName binary).toText true) :
    (exec (i.isInstalled dependency) m).1 = (exec (i.isInstalled dependency) m').1 := by
  have hall : (exec (i.config.binaries.allM i.hasBinary) m).1 = (exec (i.config.binaries.allM i.hasBinary) m').1 := by
    generalize i.config.binaries = binaries at hbinaries
    induction binaries with
    | nil => rfl
    | cons binary rest ih =>
      obtain ⟨hfirst, hrest⟩ := List.forall_mem_cons.1 hbinaries
      rw [List.allM, exec_bind, exec_bind, (i.looks_hasBinary binary).exec_eq m, (i.looks_hasBinary binary).exec_eq m',
        hasBinary_congr (binaryPath_eq hdestination binary) hfirst]
      rcases (exec (i.hasBinary binary) m').1 with e | _ | _
      · rfl
      · rfl
      · exact ih hrest
  rw [isInstalled, exec_bind, exec_bind, i.looks_marker?.exec_eq m, i.looks_marker?.exec_eq m', marker?_congr hdestination hmarker]
  rcases (exec i.marker? m').1 with e | _ | text
  · rfl
  · rfl
  · dsimp only
    split
    · exact hall
    · rfl

/-- What the check says does not depend on what is beside the destination, if no link leads out of it. -/
theorem isInstalled_in_destination {d : Location} (hhome : m.files.Home destination d) (hhome' : m'.files.Home destination d)
    (hname : IsComponent destination.name) (hsame : ∀ l, child d destination.name <+: l → m.files.get? l = m'.files.get? l)
    (hlinks : ∀ l, child d destination.name <+: l → ¬ m.files.IsLink l) (hdestination : i.destination = .ok destination)
    (hbinaries : ∀ binary ∈ i.config.binaries, IsComponent (i.binaryName binary)) :
    (exec (i.isInstalled dependency) m).1 = (exec (i.isInstalled dependency) m').1 := by
  have hstatus {name : Text} (hcomponent : IsComponent name) :
      m.files.status (destination / name).toText true = m'.files.status (destination / name).toText true := by
    rw [div_eq_under_one _ hcomponent]
    exact hhome.status_congr hhome' hname hcomponent hsame hlinks
  have hmarker : IsComponent markerName := ⟨⟨by decide, by decide⟩, by decide⟩
  exact isInstalled_congr hdestination (hstatus hmarker) fun binary hbinary => hstatus (hbinaries binary hbinary)

end Installation

end Prebuilt
