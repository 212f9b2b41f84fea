import Prebuilt.Proofs.Install.Entering
import Prebuilt.Proofs.Install.Marking
import Prebuilt.Proofs.Install.Preferring
import Prebuilt.Proofs.Install.Rechecking
import Prebuilt.Proofs.Install.Serving
import Prebuilt.Proofs.Wrapper.Reusing
import Prebuilt.Proofs.Wrapper.Running
/-!
Finding again what was installed. The check for a current installation reads the marker that the download wrote, and looks for each
binary under the name that it has on the platform; the download takes a binary under either of its names. Where the archive
has every binary under the platform's name, what was installed is found.
-/
set_option autoImplicit false

namespace Prebuilt

open FileSystem Action FilePath

variable {m m' m₁ m₂ : Machine} {w : Wrapper} {i j : Installation} {plan : Plan} {p path : FilePath} {d s : Location}
  {name url type binary : Text} {node : Node} {unpacked : Tree} {binaries : List Text} {content : Bytes} {force : Json}
  {dependency : Dependency} {fs base : FileSystem}

/-! ## Entries of the destination -/

theorem FileSystem.HasNoLinks.of_sameLinks (hlinks : base.SameLinks fs) (hcwd : fs.workingDirectory = base.workingDirectory)
    (h : base.HasNoLinks p) : fs.HasNoLinks p := fun d hd l hl hlink =>
  h d (hd.of_sameLinks hlinks.symm hcwd.symm) l hl (hlinks.isLink_iff.2 hlink)

theorem Machine.Spared.sameLinks (h : m.Spared p m') : m.files.SameLinks m'.files := fun l _ => (h.kept l).link_iff

/-- A directory with files and directories only, at the end of a path that can be handed to the system. -/
structure FileSystem.Furnished (fs : FileSystem) (p : FilePath) (d : Location) : Prop where
  sound : fs.Sound
  home : fs.Home p d
  isDir : fs.IsDir (child d p.name)
  plain : ∀ l node, child d p.name <+: l → fs.get? l = some node → Links.none.Allows node
  sendable : IsSendable p.toText

namespace FileSystem.Furnished

variable (h : fs.Furnished p d) (hname : IsPlatformName p.name)

include h

theorem noLink {l : Location} (hl : child d p.name <+: l) : ¬ fs.IsLink l := fun ⟨_, htarget⟩ => h.plain l _ hl htarget

include hname

/-- What stands in the directory is found at its path, if that is not too long. -/
theorem status (hcomponent : IsComponent name) (hroom : byteLength (p / name).toText < pathLimit)
    (hg : fs.get? (child (child d p.name) name) = some node) :
    fs.status (p / name).toText true = .ok (child (child d p.name) name, node) := by
  have hentry : IsEntryName (Name.canonical name) := h.sound.named (child (child d p.name) name) (by simp [hg]) _ (by simp [child])
  rw [div_eq_under_one _ hcomponent] at hroom ⊢
  exact h.home.status_entry hname.component hname.short h.isDir hcomponent (Name.byteLength_canonical name ▸ hentry.short) hroom hg
    (h.noLink (List.prefix_append ..))

theorem isSendable (hcomponent : IsComponent name) (hsend : IsSendable name) : IsSendable (p / name).toText :=
  isSendable_div h.home.tidy hname.component h.sendable hcomponent hsend

/-- The marker of the tree that was built there is read as what was written. -/
theorem read_marker (hroom : byteLength (p / Installation.markerName).toText < pathLimit)
    (hbuilt : Tree.Built url binaries unpacked (fs.tree (child d p.name))) : ∃ bytes, Utf8.encode (url ++ "\n") = .ok bytes ∧
      fs.read (p / Installation.markerName).toText = .ok bytes ∧ IsSendable (p / Installation.markerName).toText := by
  obtain @⟨prepared, number, mode, bytes, -, -, hencode, -, -, htree⟩ := hbuilt
  have hg : fs.get? (child (child d p.name) Installation.markerName) = some (.file number mode bytes) := by
    refine (congrFun htree [Installation.markerName]).trans ?_
    rw [Tree.put, if_pos rfl]
  have hcomponent : IsComponent Installation.markerName := ⟨⟨by decide, by decide⟩, by decide⟩
  refine ⟨bytes, hencode, by rw [FileSystem.read, h.status hname hcomponent hroom hg], h.isSendable hname hcomponent ?_⟩
  exact ⟨[46, 115, 111, 117, 114, 99, 101, 45, 117, 114, 108], by decide, by decide⟩

end FileSystem.Furnished

namespace Machine.Renewed

variable (h : m.Renewed plan plan.path d m') (hname : IsPlatformName plan.path.name)

include h

theorem furnished : m'.files.Furnished plan.path d := ⟨h.sound, h.home, h.isDir, h.plain, h.sendable⟩

variable (hbuilt : Tree.Built plan.dependency.url binaries unpacked (m'.files.tree (child d plan.path.name)))

include hname hbuilt

theorem isMarked (hdestination : i.destination = .ok plan.path) (htype : archiveType plan.dependency.url = .ok type) :
    i.IsMarked m'.files plan.dependency.url := by
  obtain ⟨bytes, hencode, hread, -⟩ := h.furnished.read_marker hname h.brief.marker hbuilt
  exact ⟨plan.path, bytes, _, hdestination, hread, Utf8.decode_encode hencode, strip_marker htype h.web⟩

/-- A binary that is found under the platform's name stands there: a file, not empty, that everybody may execute. -/
theorem serves (hmarker : Installation.markerName ∉ binaries) (hbinaries : plan.binaries = binaries) (hbinary : binary ∈ binaries)
    (hships : unpacked.Ships binaries binary name) : ∃ number mode content,
      m'.files.status (plan.path / name).toText true = .ok (child (child d plan.path.name) name, .file number mode content) ∧
        IsSendable (plan.path / name).toText ∧ content ≠ [] ∧ mode &&& 0o111 = 0o111 := by
  obtain ⟨before, found, after, node, hnames, hbefore, hhas, hg, hsize, hmode⟩ := hbuilt.offers hmarker hbinary
  obtain rfl : found = name := hbuilt.finds_eq hmarker hbinary hships ⟨before, after, hnames, hbefore, hhas⟩
  obtain ⟨other, hfinds, hroom⟩ := h.brief.binary binary (hbinaries ▸ hbinary) fun he => hmarker (he ▸ hbinary)
  obtain rfl : other = found := hbuilt.finds_eq hmarker hbinary hships hfinds
  obtain ⟨same, hsame, hfile⟩ := hhas.isFile
  cases hg.symm.trans hsame
  have hstatus := h.furnished.status hname hhas.component hroom hg
  cases node with
  | file number mode content =>
    refine ⟨number, mode, content, hstatus, h.furnished.isSendable hname hhas.component hhas.sendable_name, ?_, hmode⟩
    rintro rfl
    exact hsize rfl
  | _ => cases hfile

end Machine.Renewed

namespace Wrapper

/-- What is left once all was downloaded, or not, only tells the log about it. -/
theorem work_rest (done : Bool) (i : Installation) (m : Machine) : ∃ r j m', Installing.exec (do
      if !done then throw (.download (.failed (failureMessages (← get))))
      let summary := (← get).summary
      Installing.act (log Log.info installing (Text.join ["Download summary: ", Text.ofNat summary.completed, " completed, ",
        Text.ofNat summary.failed, " failed, ", Text.ofNat summary.pending, " pending"]))
      Installing.ofExcept (← get).destination : Installing FilePath) i m = ((r, j), m') ∧ m.Noted m' ∧
    ∀ path, r = .ok path → done = true := by
  cases done with
  | false => exact ⟨_, _, m, rfl, m.noted_refl, nofun⟩
  | true =>
    simp only [Bool.not_true, Bool.false_eq_true, if_false]
    rw [Installing.exec_bind_of_ok Installing.exec_get]
    rcases hlog : Action.exec (log Log.info installing (Text.join ["Download summary: ", Text.ofNat i.summary.completed, " completed, ",
      Text.ofNat i.summary.failed, " failed, ", Text.ofNat i.summary.pending, " pending"])) m with ⟨r, m'⟩
    have hnoted : m.Noted m' := (noted_log _ _ _).after m.noted_refl hlog
    cases r with
    | error e => exact ⟨_, _, m', Installing.exec_bind_of_error (by rw [Installing.exec_act, hlog]), hnoted, fun _ _ => trivial⟩
    | ok _ =>
      rw [Installing.exec_bind_of_ok (by rw [Installing.exec_act, hlog]), Installing.exec_bind_of_ok Installing.exec_get,
        Installing.exec_ofExcept]
      exact ⟨_, _, m', rfl, hnoted, fun _ _ => trivial⟩

/-- Work either plans nothing, or it carries out one plan; all else that it does is told in the log. If it ends well, there was a current
installation, or the plan was carried out well. -/
theorem work_cases (w : Wrapper) (force : Json) (i : Installation) (m : Machine) :
    ∃ r j m', Installing.exec (w.work force) i m = ((r, j), m') ∧
      (m.Noted m' ∧ (∀ path, r = .ok path → ∃ dependency, i.hostDependency = .ok dependency ∧
          (exec (i.isInstalled dependency) m).1 = .ok true) ∨
        ∃ plan r' j' m₂, i.Plans force plan ∧ Installing.exec (Installing.download w.client plan) (i.planned plan) m = ((r', j'), m₂) ∧
          m₂.Noted m' ∧ ∀ path, r = .ok path → r' = .ok true) := by
  obtain ⟨r, i₁, hplan, hending⟩ := Installing.plan_ending force i m
  cases r with
  | error e => exact ⟨_, _, m, Installing.exec_bind_of_error hplan, .inl ⟨m.noted_refl, nofun⟩⟩
  | ok _ =>
  cases hending with
  | @settled dependency destination hdependency _ hinstalled =>
    obtain ⟨m₁, hnothing, hm₁⟩ := Installing.downloadAll_noted (i := i.settled destination.toText) (m := m) w.client rfl
    obtain ⟨r, j, m', hrest, hm', -⟩ := work_rest true (i.settled destination.toText) m₁
    refine ⟨r, j, m', ?_, .inl ⟨hm₁.trans hm', fun _ _ => ⟨dependency, hdependency, hinstalled⟩⟩⟩
    exact (Installing.exec_bind_of_ok hplan).trans ((Installing.exec_bind_of_ok hnothing).trans hrest)
  | @planned dependency destination given hdependency hdestination =>
    generalize hmade : Plan.mk i.key dependency destination.toText i.config.binaries given .pending none = plan at hplan
    have hpending : (i.planned plan).pending = [plan] := by
      rw [← hmade]
      rfl
    have hplans : i.Plans force plan := by
      obtain ⟨-, -, -, -, ⟨-, -, -, hnone⟩ | ⟨plan', hplans, hone⟩⟩ := Installing.plan_ok hplan
      · rw [Installation.pending, hnone] at hpending
        cases hpending
      · obtain rfl : plan = plan' := congrArg Prod.snd (List.cons.inj hone).1
        exact hplans
    rcases hdownload : Installing.exec (Installing.download w.client plan) (i.planned plan) m with ⟨⟨r', j'⟩, m₂⟩
    have hsame : Installing.exec (Installing.downloadAll w.client) (i.planned plan) m =
        Installing.exec (Installing.download w.client plan) (i.planned plan) m := Installing.exec_downloadAll_one hpending
    rw [← hsame] at hdownload
    cases r' with
    | error e =>
      refine ⟨_, _, m₂, (Installing.exec_bind_of_ok hplan).trans (Installing.exec_bind_of_error hdownload), .inr ?_⟩
      exact ⟨plan, _, _, m₂, hplans, hsame ▸ hdownload, m₂.noted_refl, nofun⟩
    | ok done =>
      obtain ⟨r, j, m', hrest, hm', hdone⟩ := work_rest done j' m₂
      refine ⟨r, j, m', ?_, .inr ⟨plan, _, _, m₂, hplans, hsame ▸ hdownload, hm', fun path hpath => by rw [hdone path hpath]⟩⟩
      exact (Installing.exec_bind_of_ok hplan).trans ((Installing.exec_bind_of_ok hdownload).trans hrest)

/-- Work that ends well has found a current installation, or it has carried out a plan. -/
theorem work_ok (hplans : i.plans = []) (hstates : i.states = []) (h : Installing.exec (w.work force) i m = ((.ok path, j), m')) :
    i.destination = .ok path ∧
      ((∃ dependency, i.hostDependency = .ok dependency ∧ (exec (i.isInstalled dependency) m).1 = .ok true ∧ m.Noted m') ∨
        ∃ plan j' m₂, i.Plans force plan ∧ m₂.Noted m' ∧
          Installing.exec (Installing.download w.client plan) (i.planned plan) m = ((.ok true, j'), m₂)) := by
  obtain ⟨r, j', m₀, hwork, -, hending⟩ := work_ending w force hplans hstates m
  cases h.symm.trans hwork
  refine ⟨hending.of_ok.2, ?_⟩
  obtain ⟨r, j', m₀, hwork, hcases⟩ := work_cases w force i m
  cases h.symm.trans hwork
  rcases hcases with ⟨hnoted, hthere⟩ | ⟨plan, r', j', m₂, hmine, hdownload, hnoted, hwell⟩
  · obtain ⟨dependency, hdependency, hinstalled⟩ := hthere path rfl
    exact .inl ⟨dependency, hdependency, hinstalled, hnoted⟩
  · obtain rfl := hwell path rfl
    exact .inr ⟨plan, j', m₂, hmine, hnoted, hdownload⟩

theorem installation_again (h : exec w.installation m = (.ok i, m₁)) (hsettings : m'.settings = m₁.settings) (hhost : m'.host = m₁.host) :
    exec w.installation m' = (.ok i, m') := by
  obtain ⟨settings, hread, rfl⟩ := installation_ok h
  obtain ⟨hstill, hagain⟩ := currentSettings_ok hread
  have hsame : m'.host = m.host := by rw [hhost, hstill]
  rw [← hsame]
  exact exec_installation (hagain m' hsettings)

/-- The installation is found, each of its binaries is a file in the destination that may be executed, and installing again any number
of times changes nothing. -/
structure Stands (w : Wrapper) (i : Installation) (dependency : Dependency) (path : FilePath) (m : Machine) : Prop where
  installed : (exec (i.isInstalled dependency) m).1 = .ok true
  holds : ∀ binary ∈ i.config.binaries, ∃ d number mode content, m.files.LiesIn path d ∧
    m.files.status (path / i.binaryName binary).toText true =
        .ok (child (child d path.name) (i.binaryName binary), .file number mode content) ∧ mode &&& 0o111 ≠ 0
  again : ∀ n, ∃ m', exec (w.installs (.bool false) n) m = (.ok (List.replicate n
    (path, { i with states := [(i.key, ⟨i.key, .completed, some path.toText, none⟩)] })), m') ∧ m.Idle m'

theorem stands (hinstallation : exec w.installation m = (.ok i, m)) (hdependency : i.hostDependency = .ok dependency)
    (hdestination : i.destination = .ok path) (hsettings : i.settings.forceDownload.isFalsy = true) (htidy : path.Tidy)
    (hkey : IsComponent path.name) (hbinaries : ∀ binary ∈ i.config.binaries, IsComponent (i.binaryName binary))
    (hroot : m.files.Rooted) (hlinks : m.files.HasNoLinks path) (hinstalled : (exec (i.isInstalled dependency) m).1 = .ok true) :
    Stands w i dependency path m where
  installed := hinstalled
  holds binary hbinary := by
    obtain ⟨-, -, hrunnable⟩ := Installation.isInstalled_true_iff.1 hinstalled
    obtain ⟨binaryPath, l, number, mode, content, hpath, -, hfound, hmode⟩ := hrunnable binary hbinary
    cases (Installation.binaryPath_eq hdestination binary).symm.trans hpath
    have hcomponent := hbinaries binary hbinary
    have hunder := hfound
    rw [div_eq_under_one _ hcomponent] at hunder
    obtain ⟨d, hlies, -, rfl, -⟩ := status_entry_ok htidy hroot hkey hcomponent hlinks hunder
    exact ⟨d, number, mode, content, hlies, hfound, hmode⟩
  again := installs_current hinstallation hdependency hdestination rfl hsettings hinstalled

end Wrapper

/-- Whatever a plan did, no link is at its destination or beneath. -/
theorem Performed.unlinked (hlinks : m.files.HasNoLinks plan.path) (h : Performed i m plan m') :
    m'.files.Rooted ∧ m'.files.HasNoLinks plan.path := by
  cases h with
  | current hspared => exact ⟨hspared.sound.rooted, hlinks.of_sameLinks hspared.sameLinks hspared.cwd⟩
  | @renewed d hrenewed =>
    refine ⟨hrenewed.sound.rooted, ?_⟩
    rintro d' hd' l hl ⟨target, htarget⟩
    obtain rfl := hd'.unique hrenewed.home.liesIn
    exact hrenewed.plain _ _ hl htarget

/-- The names of the binaries are taken as they are: on the platform each of them is the name of a file, none is a pattern, and none is
the marker's. -/
structure Installation.HasPlainBinaries (i : Installation) : Prop where
  component : ∀ binary ∈ i.config.binaries, IsComponent (i.binaryName binary)
  wild : ∀ binary ∈ i.config.binaries, Glob.hasWildcard binary = false
  marker : Installation.markerName ∉ i.config.binaries

/-- Where there is a destination, a plan can be made. -/
theorem Installation.exists_plans (force : Json) (hdependency : i.hostDependency = .ok dependency) (hdestination : i.destination = .ok path) :
    ∃ plan, i.Plans force plan := by
  obtain ⟨dir, hdir⟩ : ∃ dir, i.directory = .ok dir := by
    cases hdir : i.directory with
    | ok dir => exact ⟨dir, rfl⟩
    | error e =>
      rw [Installation.destination, hdir] at hdestination
      cases hdestination
  exact ⟨⟨i.key, dependency, (dir / i.key).toText, i.config.binaries, if force.isFalsy then i.settings.forceDownload else force, .pending,
    none⟩, rfl, hdependency, ⟨dir, hdir, rfl⟩, rfl, rfl⟩

theorem Installation.Plans.destination_eq (hplans : i.Plans force plan) (hconfig : i.config.IsValid) : i.destination = .ok plan.path := by
  obtain ⟨hkey, -⟩ := hconfig.of_dependency hplans.dependency?
  have hcomponent := (isPlatformName_of_isKnownKey hkey).component
  obtain ⟨dir, hdir, hpath, -⟩ := hplans.path hcomponent
  rw [Installation.destination, hdir, hpath, ← div_eq_under_one _ hcomponent]
  rfl

namespace Wrapper

section Performed

variable (hplans : i.Plans force plan) (hvalid : i.config.IsValid) (hplain : i.HasPlainBinaries) (hlinks : m.files.HasNoLinks plan.path)

include hplans hvalid hplain hlinks

/-- An installation that was left alone is found as it was before. -/
theorem isInstalled_left (hspared : m.Spared plan.path m') (hsame : ∀ l, ¬ s <+: l → m₁.files.get? l = m'.files.get? l)
    (hinstalled : (exec (i.isInstalled plan.dependency) m₁).1 = .ok true) (hhome : m'.files.Home plan.path d)
    (hext : m'.files.Extends m₁.files) (hsiblings : Siblings (child d plan.path.name) s) :
    (exec (i.isInstalled plan.dependency) m').1 = .ok true := by
  have hname : IsPlatformName plan.path.name := by
    obtain ⟨hsame, hkey⟩ := hplans.name hvalid
    exact hsame ▸ isPlatformName_of_isKnownKey hkey
  have hsame : ∀ l, child d plan.path.name <+: l → m₁.files.get? l = m'.files.get? l := fun l hl => hsame l (hsiblings.disjoint hl)
  have hno := hlinks.of_sameLinks hspared.sameLinks hspared.cwd
  refine (Installation.isInstalled_in_destination (hhome.of_extends hext) hhome hname.component hsame ?_ (hplans.destination_eq hvalid)
    hplain.component).symm.trans hinstalled
  rintro l hl ⟨target, htarget⟩
  exact hno d hhome.liesIn l hl ⟨target, hsame l hl ▸ htarget⟩

/-- What is in the destination of a plan that was carried out is found there. -/
theorem isInstalled_performed (h : Performed (i.planned plan) m plan m') :
    (∀ l, Kept plan.path.parent.toText m.files m'.files l) ∧ (exec (i.isInstalled plan.dependency) m').1 = .ok true ∨
      ∃ d content unpacked, m.server.Delivers plan.dependency.url content ∧ Unpacked plan.dependency.archiveType content unpacked ∧
        Tree.Built plan.dependency.url i.config.binaries unpacked (m'.files.tree (child d plan.path.name)) ∧ m'.files.Home plan.path d ∧
          ((∀ binary ∈ i.config.binaries, unpacked.Ships i.config.binaries binary (i.binaryName binary)) →
            (exec (i.isInstalled plan.dependency) m').1 = .ok true ∧ ∀ binary ∈ i.config.binaries, ∃ number mode content,
              m'.files.status (plan.path / i.binaryName binary).toText true =
                  .ok (child (child d plan.path.name) (i.binaryName binary), .file number mode content) ∧
                content ≠ [] ∧ mode &&& 0o111 = 0o111) := by
  have hdestination := hplans.destination_eq hvalid
  have hname : IsPlatformName plan.path.name := by
    obtain ⟨hsame, hkey⟩ := hplans.name hvalid
    exact hsame ▸ isPlatformName_of_isKnownKey hkey
  cases h with
  | current hspared _ _ hsame hinstalled _ hhome hext hsiblings =>
    exact .inl ⟨hspared.kept, isInstalled_left hplans hvalid hplain hlinks hspared hsame hinstalled hhome hext hsiblings⟩
  | @renewed d hrenewed =>
    obtain ⟨content, unpacked, hdelivers, hunpacked, hbuilt⟩ := hrenewed.tree fun binary hbinary name =>
      hasWildcard_of_mem_binaryNames (hplain.wild binary (hplans.binaries ▸ hbinary))
    refine .inr ⟨d, content, unpacked, hdelivers, hunpacked, hplans.binaries ▸ hbuilt, hrenewed.home, fun hships => ?_⟩
    have hserves (binary : Text) (hbinary : binary ∈ i.config.binaries) :=
      hrenewed.serves hname (hplans.binaries ▸ hbuilt) hplain.marker hplans.binaries hbinary (hships binary hbinary)
    obtain ⟨-, -, -, hsend⟩ := hrenewed.furnished.read_marker hname hrenewed.brief.marker hbuilt
    have hmarked := hrenewed.isMarked hname hbuilt hdestination (hvalid.of_dependency hplans.dependency?).2
    refine ⟨Installation.isInstalled_true_iff.2 ⟨⟨_, hdestination, hsend⟩, hmarked, fun binary hbinary => ?_⟩, fun binary hbinary => ?_⟩
    · obtain ⟨number, mode, content, hstatus, hsend, -, hmode⟩ := hserves binary hbinary
      refine ⟨_, _, number, mode, content, Installation.binaryPath_eq hdestination binary, hsend, hstatus, ?_⟩
      rw [hmode]
      decide
    · obtain ⟨number, mode, content, hstatus, -, hcontent, hmode⟩ := hserves binary hbinary
      exact ⟨number, mode, content, hstatus, hcontent, hmode⟩

end Performed

/-- A wrapper for one binary, which has a client. -/
def shipping (binary : Text) : Wrapper := { wrapping [binary] "https://h/run.tar" with client := some servedClient }

theorem exec_installation_shipping (binary : Text) (m : Machine) :
    exec (shipping binary).installation m = (.ok (hosted [binary] "https://h/run.tar"), m) := rfl

theorem ship_install (h : IsShipped binary name content) : ∃ m',
    exec ((shipping binary).install (.bool true)) (serving content emptyFiles) = (.ok ⟨"/", ["unpacked_bin", "linux-x64"]⟩, m') ∧
      m'.files = parcelInstalled name := by
  have hdownload : Installing.exec (Installing.downloadAll (shipping binary).client)
      ((hosted [binary] "https://h/run.tar").planned (hostedPlan [binary] "https://h/run.tar")) (serving content emptyFiles) = _ :=
    (Installing.exec_downloadAll_one rfl).trans (ship_download h)
  obtain ⟨m', hwork, hnoted⟩ := exec_work_done (exec_plan_hosted rfl _) hdownload rfl (destination_hosted [binary] "https://h/run.tar")
  refine ⟨m', ?_, hnoted.files⟩
  rw [exec_install (exec_installation_shipping ..), hwork]

theorem alone_of_plans {plan : Plan} {force : Json} (h : IsShipped binary name content) (hdown : Path.Downward name)
    (hrelative : Path.isAbsolute name = false) (hplans : (hosted [binary] "https://h/run.tar").Plans force plan) :
    plan.Alone (serving content emptyFiles) := by
  obtain ⟨key, dependency, destination, binaries, given, status, message⟩ := plan
  obtain ⟨-, hdependency, ⟨dir, hdir, hdestination⟩, -, -⟩ := hplans
  cases hdir
  cases (hostDependency_hosted rfl).symm.trans hdependency
  have htext : (ofText "/" / ("unpacked_bin" : Text) / ("linux-x64" : Text)).toText = "/unpacked_bin/linux-x64" := by decide
  obtain rfl : destination = "/unpacked_bin/linux-x64" := hdestination.trans htext
  obtain ⟨hsound, hthere, hserver, hraces, hdirect, hfree, hordinary⟩ := h.alone hdown hrelative
  exact ⟨hsound, hthere, hserver, hraces, hdirect, hfree, hordinary⟩

theorem hasPlainBinaries_hosted : (hosted ["run"] "https://h/run.tar").HasPlainBinaries where
  component binary hbinary := by
    obtain rfl := List.mem_singleton.1 hbinary
    exact ⟨⟨by decide, by decide⟩, by decide⟩
  wild := by decide
  marker := by decide

theorem hasNoLinks_emptyFiles (p : FilePath) : emptyFiles.HasNoLinks p := by
  rintro d - l hl ⟨target, htarget⟩
  have hne : l ≠ [] := fun h => child_ne_nil (List.prefix_nil.1 (h ▸ hl))
  cases (get?_emptyFiles hne).symm.trans htarget

end Wrapper
end Prebuilt
