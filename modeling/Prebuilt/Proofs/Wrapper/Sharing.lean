import Prebuilt.Proofs.Install.Vacancy
import Prebuilt.Proofs.Wrapper.Releasing
/-!
Releases that share a directory. Wrappers of different versions install to the same place, one after the other, and each call may fail.
At any time nothing stands there, or what was made of one archive that was served for one of them; its marker tells whose it is, as no
two versions have an address in common.
-/
set_option autoImplicit false

namespace Prebuilt

open FileSystem Action FilePath

variable {m m' m₀ m₁ m₂ : Machine} {w : Wrapper} {i j : Installation} {plan : Plan} {p : FilePath} {d l : Location} {force : Json}
  {version root key url : Text} {dependency : Dependency} {fs fs' : FileSystem}

/-! ## Calls -/

/-- A wrapper for a release is called to install, and this is what the server answers meanwhile. -/
structure Call where
  wrapper : Wrapper
  version : Text
  force : Json
  server : Server

namespace Call

def before (c : Call) (m : Machine) : Machine := { m with server := c.server }

/-- What the call leaves, however it ends. -/
def after (m : Machine) (c : Call) : Machine := (exec (c.wrapper.install c.force) (c.before m)).2

/-- The call is for the release of an accepted version. The server sees to nothing but its answers, and its archives have only files and
directories, under names that lead down. -/
structure Suits (c : Call) (root key : Text) (m : Machine) : Prop where
  releases : c.wrapper.Releases c.version root key m
  server : c.server.Undisturbed
  ordinary : ∀ url content, (key, url) ∈ Release.urls c.version → c.server.Delivers url content →
    IsOrdinary m.files (Release.destinationIn root key).toText "tar.gz" content

end Call

/-- One call after the other. -/
def Machine.through (m : Machine) (calls : List Call) : Machine := calls.foldl Call.after m

/-- There is no directory to install in yet, and nobody else is at work. -/
structure Machine.IsBlank (m : Machine) (root : Text) : Prop where
  sound : m.files.Sound
  there : m.files.IsDir m.files.workingDirectory
  races : m.races = []
  free : m.files.IsFree (Release.directoryIn root) Installation.unpackedName

/-! ## What stands at the destination -/

/-- What stands at the destination was made of one archive, which the server gave in one of the calls for the address in the marker. -/
structure Occupied (calls : List Call) (key url : Text) (fs : FileSystem) (p : FilePath) (d : Location) : Prop where
  furnished : fs.Furnished p d
  direct : fs.IsDirect p
  room : byteLength (p / Installation.markerName).toText < pathLimit
  web : Url.IsWeb url
  content : ∃ c ∈ calls, (key, url) ∈ Release.urls c.version ∧ ∃ content unpacked, c.server.Delivers url content ∧
    Unpacked "tar.gz" content unpacked ∧ Tree.Built url [Release.binary] unpacked (fs.tree (child d p.name))

theorem FileSystem.Furnished.congr (h : fs.Furnished p d) (hsound : fs'.Sound) (hext : fs.Extends fs')
    (hsame : ∀ l, child d p.name <+: l → fs'.get? l = fs.get? l) : fs'.Furnished p d where
  sound := hsound
  home := h.home.of_extends hext
  isDir := hext.dir _ h.isDir
  plain l node hl hg := h.plain l node hl (hsame l hl ▸ hg)
  sendable := h.sendable

namespace Occupied

variable {calls more : List Call} (h : Occupied calls key url fs p d)

include h

theorem mono (hcalls : calls ⊆ more) : Occupied more key url fs p d where
  furnished := h.furnished
  direct := h.direct
  room := h.room
  web := h.web
  content := by
    obtain ⟨c, hc, hcontent⟩ := h.content
    exact ⟨c, hcalls hc, hcontent⟩

theorem congr (hsound : fs'.Sound) (hext : fs.Extends fs') (hlinks : fs.SameLinks fs')
    (hcwd : fs'.workingDirectory = fs.workingDirectory) (hsame : ∀ l, child d p.name <+: l → fs'.get? l = fs.get? l) :
    Occupied calls key url fs' p d where
  furnished := h.furnished.congr hsound hext hsame
  direct := h.direct.of_sameLinks hlinks hcwd
  room := h.room
  web := h.web
  content := by
    have htree : fs'.tree (child d p.name) = fs.tree (child d p.name) := funext fun l => hsame _ (List.prefix_append ..)
    rw [htree]
    exact h.content

/-- The address of the archive is what the marker says. -/
theorem isMarked (hname : IsPlatformName p.name) (hdestination : i.destination = .ok p) : i.IsMarked fs url ∧ Installation.IsLegible p fs := by
  obtain ⟨c, -, hurl, content, unpacked, -, -, hbuilt⟩ := h.content
  obtain ⟨bytes, hencode, hread, hsend⟩ := h.furnished.read_marker hname h.room hbuilt
  have hmem : (key, url) ∈ (WrapConfig.ofVersion c.version []).urls := hurl
  have htype := archiveType_ok_iff.2 (WrapConfig.mem_urls_ofVersion hmem).2
  refine ⟨⟨p, bytes, _, hdestination, hread, Utf8.decode_encode hencode, strip_marker htype h.web⟩, hsend, fun bytes' hread' => ?_⟩
  cases hread.symm.trans hread'
  exact ⟨_, Utf8.decode_encode hencode⟩

end Occupied

/-- Where there is an installation of another address, a download is planned. -/
theorem Occupied.planned {calls : List Call} (h : Occupied calls key url m.files (Release.destinationIn root key) d)
    (hkey : key ∈ Table.keys Release.platforms) (hrelease : i.IsRelease version root key) (hother : (key, url) ∉ Release.urls version)
    (force : Json) : ∃ i' plan, Installing.exec (Installing.plan force) i m = ((.ok (), i'), m) ∧ i'.pending = [plan] ∧
      (key, plan.dependency.url) ∈ Release.urls version := by
  have hname := Release.isPlatformName hkey
  obtain ⟨dependency, hdependency⟩ := hrelease.supported hkey
  obtain ⟨hurl, -⟩ := hrelease.of_hostDependency hdependency
  obtain ⟨hmarked, hlegible⟩ := h.isMarked ((Release.name_destinationIn hname.component).symm ▸ hname) hrelease.destination
  have hnot : ¬ i.IsMarked m.files dependency.url := fun hmarked' => hother (hmarked.unique hmarked' ▸ hurl)
  have hcurrent (given : Json) : if given.isFalsy then (exec (i.isInstalled dependency) m).1 = .ok false else false = false := by
    split
    · exact Installation.isInstalled_of_not_isMarked hrelease.destination hlegible hnot
    · rfl
  exact ⟨_, _, Installing.exec_plan hdependency hrelease.destination rfl (hcurrent _), rfl, hurl⟩

/-! ## What calls leave in place -/

theorem Machine.Spared.extends (h : m.Spared p m') : m.files.Extends m'.files where
  dir l hl := (h.kept l).isDir hl
  link _ _ := (h.kept _).link_iff.1
  cwd _ := h.cwd

/-- After some calls nothing stands at the destination, or what was made of one archive; nothing else is in the directory. -/
structure Shared (m₀ : Machine) (root key : Text) (calls : List Call) (m : Machine) : Prop where
  races : m.races = []
  admits : m₀.Admits m
  sound : m.files.Sound
  links : m₀.files.SameLinks m.files
  cwd : m.files.workingDirectory = m₀.files.workingDirectory
  there : m.files.IsDir m.files.workingDirectory
  away : ∀ d, m.files.LiesIn (Release.destinationIn root key) d → ¬ child d key <+: m.files.workingDirectory
  clean : ∀ d, m.files.LiesIn (Release.destinationIn root key) d → ∀ l, d <+: l → l ≠ d → ¬ child d key <+: l → m.files.get? l = none
  content : ∀ d, m.files.LiesIn (Release.destinationIn root key) d →
    m.files.get? (child d key) = none ∨ ∃ url, Occupied calls key url m.files (Release.destinationIn root key) d

/-- Where there is no directory to install in, there is nothing. -/
theorem Machine.IsBlank.shared (h : m.IsBlank root) (hname : IsComponent key) : Shared m root key [] m := by
  have hvacant : ∀ d, m.files.LiesIn (Release.destinationIn root key) d → m.files.Vacant d := by
    rintro d ⟨n, hleads⟩
    have htidy := Release.tidy_directoryIn root
    have hdirectory : IsComponent Installation.unpackedName := ⟨⟨by decide, by decide⟩, by decide⟩
    have hparts : (Release.destinationIn root key).parts.dropLast = (Release.directoryIn root).parts := by
      rw [Release.destinationIn_eq hname, under, List.dropLast_concat]
    have horigin : m.files.origin (Release.destinationIn root key).toText = m.files.origin (Release.directoryIn root).toText := by
      rw [Release.destinationIn_eq hname, origin, origin, htidy.isAbsolute_under (by simpa using hname.isStep)]
    have hlast : (Release.directoryIn root).parts = (Release.directoryIn root).parts.dropLast ++ [Installation.unpackedName] := by
      rw [Release.directoryIn_eq, under, List.dropLast_concat]
    rw [hparts, horigin, hlast] at hleads
    obtain ⟨e, n₁, n₂, habove, hstep, -⟩ := hleads.split
    have hnone := h.free e ⟨n₁, habove⟩
    refine vacant_of_none h.sound.rooted ?_
    rcases (Follows.single hdirectory.isName hstep).2 with ⟨rfl, -, -⟩ | ⟨target, k, htarget, -⟩
    · exact hnone
    · cases hnone.symm.trans htarget
  refine ⟨h.races, m.admits_refl, h.sound, fun _ _ => Iff.rfl, rfl, h.there, fun d hd hin => ?_, fun d hd l hl _ _ => hvacant d hd l hl,
    fun d hd => .inl (hvacant d hd _ (List.prefix_append ..))⟩
  exact h.there.get?_ne_none (hvacant d hd _ ((List.prefix_append ..).trans hin))

namespace Shared

variable {calls more : List Call}

theorem mono (h : Shared m₀ root key calls m) (hcalls : calls ⊆ more) : Shared m₀ root key more m :=
  { h with content := fun d hd => (h.content d hd).imp_right fun ⟨url, hurl⟩ => ⟨url, hurl.mono hcalls⟩ }

theorem of_files (h : Shared m₀ root key calls m) (hfiles : m'.files = m.files) (hraces : m'.races = m.races) (hadmits : m.Admits m') :
    Shared m₀ root key calls m' where
  races := hraces.trans h.races
  admits := h.admits.trans hadmits
  sound := hfiles ▸ h.sound
  links := hfiles ▸ h.links
  cwd := hfiles ▸ h.cwd
  there := hfiles ▸ h.there
  away := hfiles ▸ h.away
  clean := hfiles ▸ h.clean
  content := hfiles ▸ h.content

section

variable (h : Shared m₀ root key calls m) (hname : IsComponent key)

include h hname

/-- No link is in the directory. -/
theorem unlinked (hd : m.files.LiesIn (Release.destinationIn root key) d) (hl : d <+: l) (hne : l ≠ d) : ¬ m.files.IsLink l := by
  rintro ⟨target, htarget⟩
  by_cases hbelow : child d key <+: l
  · rcases h.content d hd with hnone | ⟨url, hoccupied⟩
    · cases (vacant_of_none h.sound.rooted hnone l hbelow).symm.trans htarget
    · exact hoccupied.furnished.noLink (by rwa [Release.name_destinationIn hname]) ⟨target, htarget⟩
  · cases (h.clean d hd l hl hne hbelow).symm.trans htarget

/-- What is new above the destination is not in the directory. -/
theorem beneath (hdown : Path.Downward root) (hd : m.files.LiesIn (Release.destinationIn root key) d)
    (hkept : Kept (Release.destinationIn root key).parent.toText m.files fs l) (hl : d <+: l) (hne : l ≠ d) :
    fs.get? l = m.files.get? l :=
  hkept.beneath hd (Release.tidy_destinationIn root key) (Release.downward_destinationIn hname hdown)
    (fun _ hl hne => h.unlinked hname hd hl hne) hl hne

/-- Where nothing changes but above the destination, all stays as it is. -/
theorem spared (hdown : Path.Downward root) (hm : m.Spared (Release.destinationIn root key) m') : Shared m₀ root key calls m' := by
  have hlies {d : Location} (hd : m'.files.LiesIn (Release.destinationIn root key) d) : m.files.LiesIn (Release.destinationIn root key) d :=
    hd.of_sameLinks hm.sameLinks.symm hm.cwd.symm
  have hbeneath {d l : Location} (hd : m'.files.LiesIn (Release.destinationIn root key) d) (hl : d <+: l) (hne : l ≠ d) :
      m'.files.get? l = m.files.get? l := h.beneath hname hdown (hlies hd) (hm.kept l) hl hne
  have hdestination (d : Location) : d <+: child d key ∧ child d key ≠ d := ⟨List.prefix_append .., by simp [child]⟩
  exact {
    races := by rw [hm.world, h.races]
    admits := h.admits.trans (Machine.admits_of_same (by rw [hm.world]) (by rw [hm.world]) (by rw [hm.world]))
    sound := hm.sound
    links := h.links.trans hm.sameLinks
    cwd := hm.cwd.trans h.cwd
    there := hm.cwd.symm ▸ hm.extends.dir _ h.there
    away := fun d hd => hm.cwd.symm ▸ h.away d (hlies hd)
    clean := fun d hd l hl hne hout => (hbeneath hd hl hne).trans (h.clean d (hlies hd) l hl hne hout)
    content := fun d hd => by
      obtain ⟨hbelow, hne⟩ := hdestination d
      rw [hbeneath hd hbelow hne]
      refine (h.content d (hlies hd)).imp_right ?_
      rintro ⟨url, hurl⟩
      refine ⟨url, hurl.congr hm.sound hm.extends hm.sameLinks hm.cwd ?_⟩
      rw [Release.name_destinationIn hname]
      intro l hl
      refine hbeneath hd (hbelow.trans hl) ?_
      rintro rfl
      exact hne (hl.eq_of_length_le hbelow.length_le) }

/-- A new installation takes the place of what stood at the destination. -/
theorem renewed (hdown : Path.Downward root) (hpath : plan.path = Release.destinationIn root key)
    (hm : m.Renewed plan plan.path d m') (hdirect : m.files.IsDirect plan.path)
    (hcontent : ∃ c ∈ calls, (key, plan.dependency.url) ∈ Release.urls c.version ∧ ∃ content unpacked,
      c.server.Delivers plan.dependency.url content ∧ Unpacked "tar.gz" content unpacked ∧
        Tree.Built plan.dependency.url [Release.binary] unpacked (m'.files.tree (child d plan.path.name))) :
    Shared m₀ root key calls m' := by
  have hfurnished := hm.furnished
  have hkeptName : plan.path.name = key := by rw [hpath, Release.name_destinationIn hname]
  have hlies := hpath ▸ hm.lies
  have hkept {l : Location} (hl : ¬ child d key <+: l) : Kept (Release.destinationIn root key).parent.toText m.files m'.files l :=
    hpath ▸ hm.kept l (hkeptName.symm ▸ hl)
  have hcwd : m'.files.workingDirectory = m.files.workingDirectory := hm.cwd (hkeptName.symm ▸ h.away d hlies)
  have hlinks : m.files.SameLinks m'.files := by
    intro l target
    by_cases hl : child d key <+: l
    · have hne : l ≠ d := by
        rintro rfl
        exact absurd hl.length_le (by simp [child])
      have hold : ¬ m.files.IsLink l := h.unlinked hname hlies ((List.prefix_append ..).trans hl) hne
      have hnew : ¬ m'.files.IsLink l := hfurnished.noLink (hkeptName.symm ▸ hl)
      exact ⟨fun ht => absurd ⟨target, ht⟩ hold, fun ht => absurd ⟨target, ht⟩ hnew⟩
    · exact (hkept hl).link_iff
  have hunique {d' : Location} (hd : m'.files.LiesIn (Release.destinationIn root key) d') : d' = d :=
    (hd.of_sameLinks hlinks.symm hcwd.symm).unique hlies
  exact {
    races := by rw [hm.world, h.races]
    admits := h.admits.trans (Machine.admits_of_same (by rw [hm.world]) (by rw [hm.world]) (by rw [hm.world]))
    sound := hm.sound
    links := h.links.trans hlinks
    cwd := hcwd.trans h.cwd
    there := by
      rw [hcwd]
      exact (hkept (h.away d hlies)).isDir h.there
    away := fun d' hd => by
      rw [hcwd, hunique hd]
      exact h.away d hlies
    clean := fun d' hd l hl hne hout => by
      obtain rfl := hunique hd
      rw [h.beneath hname hdown hlies (hkept hout) hl hne]
      exact h.clean d' hlies l hl hne hout
    content := fun d' hd => by
      obtain rfl := hunique hd
      refine .inr ⟨plan.dependency.url, ?_⟩
      rw [← hpath]
      exact ⟨hfurnished, hdirect.of_sameLinks hlinks hcwd, hm.brief.marker, hm.web, hcontent⟩ }

/-- The path does not lead through what a call has put at its end. -/
theorem isFree_of_indirect (hnot : ¬ m.files.IsDirect (Release.destinationIn root key)) :
    m.files.IsFree (Release.destinationIn root key) (Release.destinationIn root key).name := by
  rw [Release.name_destinationIn hname]
  exact fun d hd => (h.content d hd).resolve_right fun ⟨_, hurl⟩ => hnot hurl.direct

variable {c : Call} (hdown : Path.Downward root) (hsuits : c.Suits root key m₀) (hserver : m.server = c.server)
  (hrelease : i.IsRelease c.version root key) (hplans : i.Plans force plan)

include hdown hsuits hserver hrelease hplans

/-- Nobody else is at work when a plan is carried out. -/
theorem alone (hdirect : m.files.IsDirect plan.path) : plan.Alone m where
  sound := h.sound
  there := h.there
  server := hserver ▸ hsuits.server
  races := h.races
  direct := hdirect
  free := by
    have hpath := hrelease.plan_path hplans
    obtain ⟨hsame, hknown⟩ := hplans.name hrelease.isValid
    have hkept : plan.path.name = key := by rw [hpath, Release.name_destinationIn hname]
    have hplatform : IsPlatformName plan.path.name := hsame ▸ isPlatformName_of_isKnownKey hknown
    intro d hd
    obtain ⟨-, haside, -⟩ := hplatform.siblings (d := d) 0 (m.identifiers + 1)
    rw [hkept] at haside
    exact h.clean d (hpath ▸ hd) _ (List.prefix_append ..) (by simp [child]) haside.not_prefix
  ordinary content hdelivers := by
    obtain ⟨hurl, -, htype⟩ := hrelease.of_hostDependency hplans.dependency
    have hordinary := hsuits.ordinary _ content hurl (hserver ▸ hdelivers)
    rw [htype, ← (hrelease.plan_sane hplans hdown).text, hrelease.plan_path hplans]
    exact hordinary.of_sameLinks h.links h.cwd

/-- Whatever a download comes to, all that may change is that there is an installation made of one archive. -/
theorem download (hc : c ∈ calls) (client : Option Client) (j : Installation) :
    Shared m₀ root key calls (Installing.exec (Installing.download client plan) j m).2 := by
  have hpath := hrelease.plan_path hplans
  have hsane := hrelease.plan_sane hplans hdown
  have hspared {m' : Machine} (hm : m.Spared plan.path m') : Shared m₀ root key calls m' := h.spared hname hdown (hpath ▸ hm)
  by_cases hdirect : m.files.IsDirect plan.path
  · rcases Installing.exec_download client j hsane (h.alone hname hdown hsuits hserver hrelease hplans hdirect) with
      ⟨r, j', m', hrun, -, hm⟩ | ⟨m', hrun, hm⟩
    · rw [hrun]
      exact hspared hm
    · rw [hrun]
      cases hm with
      | current hm => exact hspared hm
      | renewed hm =>
        obtain ⟨hurl, -, htype⟩ := hrelease.of_hostDependency hplans.dependency
        have hbinaries : plan.binaries = [Release.binary] := by rw [hplans.binaries, hrelease.config]; rfl
        obtain ⟨content, unpacked, hdelivers, hunpacked, hbuilt⟩ := hm.tree (by rw [hbinaries]; decide)
        exact h.renewed hname hdown hpath hm hdirect
          ⟨c, hc, hurl, content, unpacked, hserver ▸ hdelivers, htype ▸ hunpacked, hbinaries ▸ hbuilt⟩
  · obtain ⟨r, j', m', hrun, -, hm⟩ :=
      Installing.exec_download_indirect client j hsane h.sound (hpath ▸ h.isFree_of_indirect hname (hpath ▸ hdirect)) hdirect
    rw [hrun]
    exact hspared hm

end

/-- A call leaves nothing but an installation made of one archive. -/
theorem after {c : Call} (h : Shared m₀ root key calls m) (hname : IsComponent key) (hdown : Path.Downward root)
    (hsuits : c.Suits root key m₀) : Shared m₀ root key (calls ++ [c]) (c.after m) := by
  have hbefore : Shared m₀ root key (calls ++ [c]) (c.before m) :=
    (h.mono (List.subset_append_left ..)).of_files rfl rfl (Machine.admits_of_same rfl rfl rfl)
  rcases hrun : exec c.wrapper.installation (c.before m) with ⟨r, m₁⟩
  obtain ⟨hadmits, hstill⟩ := Wrapper.admits_installation hrun
  have h₁ : Shared m₀ root key (calls ++ [c]) m₁ := hbefore.of_files (by rw [hstill]) (by rw [hstill]) hadmits
  rw [Call.after]
  cases r with
  | error e =>
    rw [Wrapper.exec_install_error hrun]
    exact h₁
  | ok i =>
    obtain ⟨_, hfirst⟩ := hbefore.admits _ _ _ hrun
    have hrelease := hsuits.releases.isRelease hfirst
    have hnoted {m₂ m' : Machine} (h : Shared m₀ root key (calls ++ [c]) m₂) (hm : m₂.Noted m') :
        Shared m₀ root key (calls ++ [c]) m' :=
      h.of_files hm.files (by rw [hm]) (Machine.admits_of_same (by rw [hm]) (by rw [hm]) (by rw [hm]))
    obtain ⟨r, j, m', hwork, hcases⟩ := c.wrapper.work_cases c.force i m₁
    rw [Wrapper.exec_install hrun, hwork]
    rcases hcases with ⟨hm, -⟩ | ⟨plan, r', j', m₃, hplans, hdownload, hm, -⟩
    · exact hnoted h₁ hm
    · have hserver : m₁.server = c.server := by rw [hstill]; rfl
      have hdone := h₁.download hname hdown hsuits hserver hrelease hplans (List.mem_append_right _ (List.mem_singleton_self c))
        c.wrapper.client (i.planned plan)
      rw [hdownload] at hdone
      exact hnoted hdone hm

/-- So do any number of calls, one after the other. -/
theorem through (hblank : m₀.IsBlank root) (hname : IsComponent key) (hdown : Path.Downward root) (calls : List Call)
    (hcalls : ∀ c ∈ calls, c.Suits root key m₀) : Shared m₀ root key calls (m₀.through calls) := by
  induction calls using List.reverseRecOn with
  | nil => exact hblank.shared hname
  | append_singleton calls c ih =>
    rw [Machine.through, List.foldl_concat]
    exact (ih fun c hc => hcalls c (List.mem_append_left _ hc)).after hname hdown
      (hcalls c (List.mem_append_right _ (List.mem_singleton_self c)))

/-! ## Which release is found -/

section

variable (h : Shared m₀ root key calls m) (hname : IsPlatformName key)

include h hname

theorem hasNoLinks : m.files.HasNoLinks (Release.destinationIn root key) := by
  intro d hd l hl
  rw [Release.name_destinationIn hname.component] at hl
  refine h.unlinked hname.component hd ((List.prefix_append ..).trans hl) ?_
  rintro rfl
  exact absurd hl.length_le (by simp [child])

/-- The marker tells what the archive was served for. -/
theorem occupied_of_isMarked (hdestination : i.destination = .ok (Release.destinationIn root key)) (hmarked : i.IsMarked m.files url) :
    ∃ d, m.files.LiesIn (Release.destinationIn root key) d ∧ Occupied calls key url m.files (Release.destinationIn root key) d := by
  have hkept : (Release.destinationIn root key).name = key := Release.name_destinationIn hname.component
  have hmarker : IsComponent Installation.markerName := ⟨⟨by decide, by decide⟩, by decide⟩
  obtain ⟨destination, bytes, text, hsame, hread, -, -⟩ := id hmarked
  cases hdestination.symm.trans hsame
  obtain ⟨⟨l, node⟩, hstatus⟩ : ∃ found, m.files.status (Release.destinationIn root key / Installation.markerName).toText true = .ok found := by
    cases hstatus : m.files.status (Release.destinationIn root key / Installation.markerName).toText true with
    | ok found => exact ⟨found, rfl⟩
    | error e => simp [FileSystem.read, hstatus] at hread
  rw [div_eq_under_one _ hmarker] at hstatus
  obtain ⟨d, hd, -, rfl, hg⟩ := status_entry_ok (Release.tidy_destinationIn root key) h.sound.rooted (hkept.symm ▸ hname.component) hmarker
    (h.hasNoLinks hname) hstatus
  rw [hkept] at hg
  rcases h.content d hd with hnone | ⟨url', hoccupied⟩
  · cases (vacant_of_none h.sound.rooted hnone _ (List.prefix_append ..)).symm.trans hg
  · obtain rfl := hmarked.unique (hoccupied.isMarked (hkept.symm ▸ hname) hdestination).1
    exact ⟨d, hd, hoccupied⟩

/-- An installation is found only where it was made of an archive of the same address. -/
theorem occupied_of_isInstalled (hdestination : i.destination = .ok (Release.destinationIn root key))
    (hinstalled : (exec (i.isInstalled dependency) m).1 = .ok true) : ∃ d, m.files.LiesIn (Release.destinationIn root key) d ∧
      Occupied calls key dependency.url m.files (Release.destinationIn root key) d :=
  h.occupied_of_isMarked hname hdestination (Installation.isInstalled_true_iff.1 hinstalled).2.1

end

/-- A call that returns leaves an installation of its own release. -/
theorem occupied_of_ok {c : Call} (h : Shared m₀ root key calls m) (hkey : key ∈ Table.keys Release.platforms)
    (hdown : Path.Downward root) (hsuits : c.Suits root key m₀) (hrun : exec (c.wrapper.install c.force) (c.before m) = (.ok p, m')) :
    ∃ url d, (key, url) ∈ Release.urls c.version ∧ m'.files.LiesIn (Release.destinationIn root key) d ∧
      Occupied (calls ++ [c]) key url m'.files (Release.destinationIn root key) d := by
  have hname := Release.isPlatformName hkey
  have hafter := h.after hname.component hdown hsuits
  have hbefore : Shared m₀ root key (calls ++ [c]) (c.before m) :=
    (h.mono (List.subset_append_left ..)).of_files rfl rfl (Machine.admits_of_same rfl rfl rfl)
  rw [Call.after, hrun] at hafter
  rcases hinstallation : exec c.wrapper.installation (c.before m) with ⟨r, m₁⟩
  cases r with
  | error e => cases (Wrapper.exec_install_error hinstallation c.force).symm.trans hrun
  | ok i =>
  obtain ⟨hadmits, hstill⟩ := Wrapper.admits_installation hinstallation
  obtain ⟨_, hfirst⟩ := hbefore.admits _ _ _ hinstallation
  have hrelease := hsuits.releases.isRelease hfirst
  have hfound {dependency : Dependency} (hdependency : i.hostDependency = .ok dependency) (hmarked : i.IsMarked m'.files dependency.url) :
      ∃ url d, (key, url) ∈ Release.urls c.version ∧ m'.files.LiesIn (Release.destinationIn root key) d ∧
        Occupied (calls ++ [c]) key url m'.files (Release.destinationIn root key) d := by
    obtain ⟨d, hd, hoccupied⟩ := hafter.occupied_of_isMarked hname hrelease.destination hmarked
    exact ⟨dependency.url, d, (hrelease.of_hostDependency hdependency).1, hd, hoccupied⟩
  obtain ⟨settings, -, hbooks⟩ := Wrapper.installation_ok hinstallation
  rw [Wrapper.exec_install hinstallation] at hrun
  rcases hwork : Installing.exec (c.wrapper.work c.force) i m₁ with ⟨⟨r, j⟩, m₂⟩
  rw [hwork] at hrun
  obtain ⟨rfl, rfl⟩ := Prod.mk.inj hrun
  rcases (Wrapper.work_ok (by rw [hbooks]) (by rw [hbooks]) hwork).2 with
    ⟨dependency, hdependency, hinstalled, hnoted⟩ | ⟨plan, j', m₃, hplans, hnoted, hdownload⟩
  · refine hfound hdependency ?_
    rw [hnoted.files]
    exact (Installation.isInstalled_true_iff.1 hinstalled).2.1
  · have h₁ : Shared m₀ root key (calls ++ [c]) m₁ := hbefore.of_files (by rw [hstill]) (by rw [hstill]) hadmits
    have hserver : m₁.server = c.server := by rw [hstill]; rfl
    have hpath := hrelease.plan_path hplans
    have hsane := hrelease.plan_sane hplans hdown
    have hnoLinks : m₁.files.HasNoLinks plan.path := hpath ▸ h₁.hasNoLinks hname
    by_cases hdirect : m₁.files.IsDirect plan.path
    · rcases Installing.exec_download c.wrapper.client (i.planned plan) hsane
        (h₁.alone hname.component hdown hsuits hserver hrelease hplans hdirect) with ⟨r, j', m', hrun, hne, -⟩ | ⟨m', hrun, hm⟩
      · cases hdownload.symm.trans hrun
        exact absurd rfl hne
      · cases hdownload.symm.trans hrun
        refine hfound hplans.dependency ?_
        rw [hnoted.files]
        cases hm with
        | current hspared _ _ hsame hinstalled _ hhome hext hsiblings =>
          have hinstalled := Wrapper.isInstalled_left hplans hrelease.isValid (hrelease.hasPlainBinaries hkey) hnoLinks hspared hsame
            hinstalled hhome hext hsiblings
          exact (Installation.isInstalled_true_iff.1 hinstalled).2.1
        | renewed hm =>
          have hbinaries : plan.binaries = [Release.binary] := by rw [hplans.binaries, hrelease.config]; rfl
          obtain ⟨content, unpacked, -, -, hbuilt⟩ := hm.tree (by rw [hbinaries]; decide)
          exact hm.isMarked hsane.name hbuilt (hplans.destination_eq hrelease.isValid)
            (hrelease.of_hostDependency hplans.dependency).2.1
    · obtain ⟨r, j', m', hrun, hne, -⟩ := Installing.exec_download_indirect c.wrapper.client (i.planned plan) hsane h₁.sound
        (hpath ▸ h₁.isFree_of_indirect hname.component (hpath ▸ hdirect)) hdirect
      cases hdownload.symm.trans hrun
      exact absurd rfl hne

end Shared

/-! ## Releases one after the other -/

/-- A call for a release that the server does not have. -/
def missing (version : Text) : Call where
  wrapper := ⟨Release.binary, WrapConfig.ofVersion version "/", some ⟨.null, .null, .null⟩, none, some "linux-x64"⟩
  version := version
  force := .bool false
  server := []

theorem missing_suits (h : Metadata.Accepts version) : (missing version).Suits "/" "linux-x64" (serving [] emptyFiles) where
  releases := ⟨h, rfl, fun i m₁ hrun => by cases hrun; exact ⟨rfl, rfl⟩⟩
  server _ := rfl
  ordinary url content _ hdelivers := by
    obtain ⟨url, answer, -, hleads, hstatus, -⟩ := hdelivers
    cases hleads with
    | here => cases hstatus
    | onward hlocation => cases hlocation

theorem isBlank_emptyFiles : (serving [] emptyFiles).IsBlank "/" where
  sound := sound_emptyFiles
  there := isDir_nil
  races := rfl
  free _ _ := get?_emptyFiles child_ne_nil

end Prebuilt
