import Prebuilt.Proofs.Actions.Making
import Prebuilt.Proofs.Install.Filling
import Prebuilt.Proofs.Install.Naming
import Prebuilt.Proofs.Install.Placing
/-!
Carrying out a plan while nobody else is at work. Either the destination is replaced, or nothing is different but that the
directories above it are there: the staging directory, the one the archive was kept in and what was moved aside are gone.
-/
set_option autoImplicit false

namespace Prebuilt

open FileSystem Action FilePath

namespace FileSystem

variable {base fs : FileSystem} {p : FilePath} {d s l : Location} {path name : Text} {mode : Nat}

/-- Nothing is different at the location, or there is a directory on the way to the path where nothing was. -/
def Kept (path : Text) (base fs : FileSystem) (l : Location) : Prop := fs.get? l = base.get? l ∨ base.get? l = none ∧ fs.IsDir l ∧
  ∃ front n, front <+: Path.names path ∧ base.Leads n (base.origin path) front l

/-- Where the directory of a path is, be it there or not. -/
def LiesIn (base : FileSystem) (p : FilePath) (d : Location) : Prop := ∃ n, base.Leads n (base.origin p.toText) p.parts.dropLast d

/-- The path does not lead through what is at its end. -/
def IsDirect (base : FileSystem) (p : FilePath) : Prop := ∀ d, base.LiesIn p d →
  ∃ n, base.Skirts (child d p.name) n (base.origin p.toText) p.parts.dropLast d

/-- The name is free in the directory of the path. -/
def IsFree (base : FileSystem) (p : FilePath) (name : Text) : Prop := ∀ d, base.LiesIn p d → base.get? (child d name) = none

theorem Home.liesIn (h : fs.Home p d) : fs.LiesIn p d := by
  obtain ⟨n, -, hr⟩ := h.reach
  exact ⟨n, hr.leads⟩

theorem origin_congr (hcwd : fs.workingDirectory = base.workingDirectory) (path : Text) : fs.origin path = base.origin path := by
  rw [origin, origin, hcwd]

theorem LiesIn.of_sameLinks (hlinks : base.SameLinks fs) (hcwd : fs.workingDirectory = base.workingDirectory) (h : base.LiesIn p d) :
    fs.LiesIn p d := by
  obtain ⟨n, hl⟩ := h
  exact ⟨n, by rw [origin_congr hcwd]; exact hl.of_sameLinks hlinks⟩

theorem IsDirect.of_sameLinks (hlinks : base.SameLinks fs) (hcwd : fs.workingDirectory = base.workingDirectory) (h : base.IsDirect p) :
    fs.IsDirect p := by
  intro d hd
  obtain ⟨n, hs⟩ := h d (hd.of_sameLinks hlinks.symm hcwd.symm)
  exact ⟨n, by rw [origin_congr hcwd]; exact hs.of_sameLinks hlinks⟩

/-- Where the path leads through something without links at or beneath it, it does not lead out of that again. -/
theorem LiesIn.prefix_of_front {front : List Text} {n : Nat} (hd : base.LiesIn p d) (hp : p.Tidy) (hdown : Path.Downward p.toText)
    (hlinks : ∀ l', l <+: l' → ¬ base.IsLink l') (hfront : front <+: Path.names p.parent.toText)
    (hl : base.Leads n (base.origin p.parent.toText) front l) : l <+: d := by
  obtain ⟨rest, hrest⟩ := hfront
  obtain ⟨k, hd⟩ := hd
  rw [hp.parent.names_toText] at hrest
  have habs : Path.isAbsolute p.parent.toText = Path.isAbsolute p.toText := by
    rw [hp.parent.isAbsolute_toText, hp.isAbsolute_toText]
    rfl
  rw [origin, habs, ← origin] at hl
  have hparts : p.parts.dropLast = front ++ rest := hrest.symm
  rw [hparts] at hd
  obtain ⟨d', n₁, n₂, h₁, h₂, -⟩ := hd.split
  obtain rfl := (h₁.deterministic hl).2
  have hup : ∀ part ∈ rest, part ≠ ".." := by
    intro part hpart
    refine hdown part ?_
    rw [hp.names_toText]
    exact List.dropLast_subset _ (hparts ▸ List.mem_append_right front hpart)
  rw [h₂.eq_descend hlinks hup]
  exact List.prefix_append ..

theorem Kept.isDir (h : Kept path base fs l) (hdir : base.IsDir l) : fs.IsDir l := by
  rcases h with hsame | ⟨-, hthere, -⟩
  · obtain ⟨mode, hmode⟩ := hdir
    exact ⟨mode, hsame.trans hmode⟩
  · exact hthere

theorem Kept.link_iff {target : Text} (h : Kept path base fs l) : base.get? l = some (.link target) ↔ fs.get? l = some (.link target) := by
  rcases h with hsame | ⟨hnone, ⟨mode, hdir⟩, -⟩
  · rw [hsame]
  · rw [hnone, hdir]
    simp

/-- Nothing new is beneath the directory of the path, if no link is there. -/
theorem Kept.beneath (h : Kept p.parent.toText base fs l) (hd : base.LiesIn p d) (hp : p.Tidy) (hdown : Path.Downward p.toText)
    (hlinks : ∀ l, d <+: l → l ≠ d → ¬ base.IsLink l) (hl : d <+: l) (hne : l ≠ d) : fs.get? l = base.get? l := by
  rcases h with hsame | ⟨-, -, front, n, hfront, hleads⟩
  · exact hsame
  refine absurd ?_ hne
  refine (hd.prefix_of_front hp hdown (fun l' hl' => hlinks l' (hl.trans hl') ?_) hfront hleads).eq_of_length_le hl.length_le
  rintro rfl
  exact hne (hl'.eq_of_length_le hl.length_le)

/-! ## Once the directories above are there -/

section Made

variable (hmade : Made p.parent.toText base fs)
include hmade

theorem Made.liesIn (h : fs.LiesIn p d) : base.LiesIn p d := h.of_sameLinks hmade.sameLinks.symm hmade.cwd.symm

theorem Made.isDirect (h : base.IsDirect p) : fs.IsDirect p := h.of_sameLinks hmade.sameLinks hmade.cwd

/-- The directories that are made are those above, and no name in the last of them is taken. -/
theorem Made.isFree (hp : p.Tidy) (hsound : base.Sound) (hdown : Path.Downward p.toText) (h : base.IsFree p name) : fs.IsFree p name := by
  intro d hd
  have hbase := hmade.liesIn hd
  have hnone := h d hbase
  rcases hmade.each (child d name) with he | ⟨-, -, front, n, hfront, hleads⟩
  · rw [he, hnone]
  have hvacant := vacant_of_none hsound.rooted hnone
  have hlinks : ∀ l, child d name <+: l → ¬ base.IsLink l := by
    rintro l hl ⟨target, ht⟩
    rw [hvacant l hl] at ht
    cases ht
  exact absurd (hbase.prefix_of_front hp hdown hlinks hfront hleads).length_le (by simp [child])

end Made

/-! ## Entries beside each other -/

theorem isPart_parts (hp : p.Tidy) (hdown : Path.Downward p.toText) {part : Text} (h : part ∈ p.parts) : IsName part := by
  rw [Path.Downward, hp.names_toText] at hdown
  exact ⟨hp.isPart part h, hdown part h⟩

/-- Relative paths start outside of what is at the end. -/
theorem Home.away (h : fs.Home p d) (hdown : Path.Downward p.toText) (hrel : Path.isAbsolute p.toText = false)
    (hdirect : fs.IsDirect p) : ¬ child d p.name <+: fs.workingDirectory := by
  obtain ⟨n, hs⟩ := hdirect d h.liesIn
  rw [origin, hrel] at hs
  have hnames : ∀ part ∈ p.parts.dropLast, IsName part := fun part hpart => isPart_parts h.tidy hdown (List.dropLast_subset _ hpart)
  generalize p.parts.dropLast = parts at hs hnames
  intro hp
  cases hs with
  | nil => exact absurd hp.length_le (by simp [child])
  | skip hskip => simp [(hnames _ List.mem_cons_self).1] at hskip
  | up hup => exact (hnames _ List.mem_cons_self).2 hup
  | step _ hpass => exact hpass.2 (hp.trans (List.prefix_append ..))
  | link _ hpass => exact hpass.2 (hp.trans (List.prefix_append ..))

theorem Home.without (h : fs.Home p d) (hdown : Path.Downward p.toText) (hdirect : fs.IsDirect p) :
    (fs.without (child d p.name)).Home p d where
  tidy := h.tidy
  reach := by
    obtain ⟨n, hn, hr⟩ := h.reach
    obtain ⟨m, hs⟩ := hdirect d h.liesIn
    exact ⟨n, hn, hr.without child_ne_nil hs⟩
  isDir := by
    obtain ⟨mode, hm⟩ := h.isDir
    exact ⟨mode, by rw [get?_without child_ne_nil, if_neg (fun hp => absurd hp.length_le (by simp [child])), hm]⟩
  start := by
    cases hrel : Path.isAbsolute p.toText with
    | true => exact .inl rfl
    | false =>
      obtain ⟨mode, hm⟩ := h.start.resolve_left (by simp [hrel])
      exact .inr ⟨mode, by rw [get?_without child_ne_nil]; exact (if_neg (h.away hdown hrel hdirect)).trans hm⟩

theorem downward_beside (hp : p.Tidy) (hdown : Path.Downward p.toText) (hname : IsComponent name) : Path.Downward (p.beside name).toText := by
  rw [Path.Downward, (hp.beside hname).names_toText]
  intro part hpart
  rcases List.mem_append.1 hpart with hpart | hpart
  · exact (isPart_parts hp hdown (List.dropLast_subset _ hpart)).2
  · exact List.mem_singleton.1 hpart ▸ hname.isName.2

end FileSystem

namespace Action

variable {base : FileSystem} {p : FilePath} {d s : Location} {name : Text} {attempt mode n : Nat}

/-! ## Staging directories -/

/-- A new directory beside the destination. -/
structure Beside (base : FileSystem) (p : FilePath) (d : Location) (name : Text) : Prop where
  home : base.Home p d
  fits : Fits p name
  fresh : Fresh base (p.beside name).toText (child d name)

theorem Fresh.beside (hp : p.Tidy) (hname : IsComponent name) (h : Fresh base (Path.join p.parent.toText name) s) :
    ∃ d, s = child d name ∧ Beside base p d name := by
  obtain ⟨bytes, hbytes, -⟩ := h.sendable
  obtain ⟨d, hhome, rfl, hfits⟩ := home_of_addresses hp hname hbytes h.addresses
  refine ⟨d, rfl, hhome, hfits, hhome.addresses hfits, h.none, h.nameable, h.isDir, ?_⟩
  have hsend := h.sendable
  rw [toText_beside p hname.ne_nil]
  rcases hp.join_parent hname.noSlash with he | ⟨he, hfront⟩
  · rwa [he] at hsend
  · rw [he, isSendable_append] at hsend
    rw [hfront]
    exact hsend.2

theorem Beside.staged (h : Beside base p d name) (hsound : base.Sound) (hdown : Path.Downward p.toText)
    (hcwd : base.IsDir base.workingDirectory) : Staged (base.put (child d name) (.directory mode)) (p.beside name) (child d name) := by
  have hvacant := vacant_of_none hsound.rooted h.fresh.none
  have hext : base.Extends (base.put (child d name) (.directory mode)) := extends_put child_ne_nil h.fresh.none
  refine ⟨h.home.tidy.beside h.fits.component, ⟨(h.fresh.barren (barren_nil hsound)).sound, h.fresh.addresses.of_extends hext,
    ⟨mode, by rw [get?_put child_ne_nil, if_pos rfl]⟩, fun l hl hne => ?_, downward_beside h.home.tidy hdown h.fits.component⟩,
    h.fresh.sendable, fun hp => hcwd.get?_ne_none (hvacant _ hp)⟩
  rw [get?_put child_ne_nil, if_neg hne, hvacant l hl]

section Destination

variable (h : Beside base p d (stagingName p.name attempt)) (hname : IsPlatformName p.name)
include h hname

theorem Beside.sendable : IsSendable p.toText := by
  have hsend := h.fresh.sendable
  rw [toText_beside p h.fits.component.ne_nil, stagingName] at hsend
  simp only [Text.join, List.flatten_cons, List.flatten_nil, isSendable_append] at hsend
  rw [toText_eq_front hname.component, isSendable_append]
  exact ⟨hsend.1, hsend.2.1.2.1⟩

theorem Beside.fitsName : Fits p p.name := by
  refine ⟨hname.component, hname.short, Nat.lt_of_le_of_lt ?_ h.fits.brief⟩
  have hle := byteLength_staging p.front p.name attempt []
  rw [toText_beside p hname.component.ne_nil, toText_beside p h.fits.component.ne_nil]
  rwa [List.append_nil, List.append_nil] at hle

end Destination

/-- The destination, the staging directory and the name for what is moved aside are entries of one directory. -/
theorem Beside.site (h : Beside base p d (stagingName p.name attempt)) (hname : IsPlatformName p.name) (hroot : base.Rooted)
    (hdown : Path.Downward p.toText) (hdirect : base.IsDirect p) (hfree : base.IsFree p (p.asideName (Text.hex 32 n))) :
    Site (base.without (child d p.name)) p d (stagingName p.name attempt) (p.asideName (Text.hex 32 n)) := by
  obtain ⟨hstaged, haside, hboth⟩ := hname.siblings (d := d) attempt n
  have hhome := h.home.without hdown hdirect
  have hvacant {l : Location} (hnone : base.get? l = none) : (base.without (child d p.name)).Vacant l := by
    intro l' hl
    rw [get?_without child_ne_nil]
    split
    · rfl
    · exact vacant_of_none hroot hnone l' hl
  exact ⟨hhome, ne_nil_of_name hname.component, hname.component, hname.short, vacant_without child_ne_nil,
    ⟨hhome.addresses h.fits, hvacant h.fresh.none, h.fresh.sendable⟩, hstaged, hname.isComponent_asideName n,
    hvacant (hfree d h.home.liesIn), haside, hboth⟩

end Action

variable {m m' m₁ : Machine} {i : Installation} {client : Option Client} {plan : Plan} {p : FilePath} {d s : Location}
  {name type : Text} {content : Bytes} {base fs : FileSystem}

/-! ## Archives of files and directories -/

/-- Read as a tar archive of the type, the content has only files and directories, under names that lead down; and where such a
name is absolute, resolving paths can be relied on. -/
def IsOrdinary (fs : FileSystem) (path type : Text) (content : Bytes) : Prop :=
  ∀ compressed members source, (type, compressed) ∈ tarTypes → Tar.members compressed content = .ok (members, source) →
    ∀ member ∈ members, (member.kind = .file ∨ member.kind = .directory) ∧ Path.Downward member.name ∧
      (Path.isAbsolute member.name = true → fs.Resolvable path)

theorem FileSystem.Resolvable.beside (h : fs.Resolvable p.toText) (hp : p.Tidy) (hname : IsComponent name) :
    fs.Resolvable (p.beside name).toText where
  homed := h.homed
  links := by
    rcases h.links with ⟨ha, hs⟩ | ⟨hl, hd⟩
    · exact .inl ⟨by rwa [isAbsolute_beside hp hname], hs⟩
    · exact .inr ⟨hl, downward_beside hp hd hname⟩

theorem IsOrdinary.of_sameLinks {path : Text} (hlinks : base.SameLinks fs) (hcwd : fs.workingDirectory = base.workingDirectory)
    (h : IsOrdinary base path type content) : IsOrdinary fs path type content := by
  intro compressed members source htype hmembers member hmember
  obtain ⟨hkind, hdown, habsolute⟩ := h compressed members source htype hmembers member hmember
  exact ⟨hkind, hdown, fun ha => (habsolute ha).of_sameLinks hlinks hcwd⟩

theorem IsOrdinary.isPlain (h : IsOrdinary fs p.toText type content) (hp : p.Tidy) (hname : IsComponent name) :
    IsPlain fs (p.beside name).toText type content := by
  intro compressed members source htype hmembers
  have hall := h compressed members source htype hmembers
  have hkind : ∀ member ∈ members, ¬ member.IsLink := by
    intro member hmember hlink
    rcases (hall member hmember).1 with hk | hk <;> rcases hlink with hl | hl <;> rw [hk] at hl <;> cases hl
  have hspecial : ∀ member ∈ members, ¬ member.kind.IsSpecial := by
    intro member hmember hspecial
    rcases (hall member hmember).1 with hk | hk <;> rcases hspecial with hl | hl | hl <;> rw [hk] at hl <;> cases hl
  refine ⟨⟨fun member hmember => (hall member hmember).2.1, fun member hmember hlink => absurd hlink (hkind member hmember),
    fun member hmember habs => ⟨((hall member hmember).2.2 habs).beside hp hname, .inr fun x hx hl => hkind x hx (.inl hl)⟩⟩, ?_⟩
  exact ⟨fun target ⟨x, hx, hl, _⟩ => hkind x hx (.inl hl), fun ⟨x, hx, hl⟩ => hkind x hx (.inr hl),
    fun ⟨x, hx, hl⟩ => hspecial x hx hl⟩

/-! ## Carrying out a plan -/

/-- Where a plan installs to. -/
abbrev Plan.path (plan : Plan) : FilePath := ofText plan.destination

/-- What a staging directory of the plan is called. -/
abbrev Plan.stagingName (plan : Plan) (attempt : Nat) : Text := FileSystem.stagingName plan.path.name attempt

/-- What the destination is moved aside as next. -/
abbrev Plan.asideName (plan : Plan) (m : Machine) : Text := plan.path.asideName (Text.hex 32 (m.identifiers + 1))

/-- A plan whose names can stand in paths, and that leads down to its destination. -/
structure Plan.Sane (plan : Plan) : Prop where
  text : plan.path.toText = plan.destination
  name : IsPlatformName plan.path.name
  downward : Path.Downward plan.destination
  archive : IsComponent (archiveName plan.dependency.url)
  noSlash : ∀ binary ∈ plan.binaries, CodePoint.char '/' ∉ binary

theorem Plan.Sane.isLoggable {attempt : Nat} {threshold : Log.Level} (h : plan.Sane)
    (hloggable : IsLoggable threshold (plan.path.beside (plan.stagingName attempt)).toText) : IsLoggable threshold plan.destination := by
  rw [toText_beside _ (h.name.isComponent_stagingName attempt).ne_nil, isLoggable_append] at hloggable
  rw [← h.text, toText_eq_front h.name.component, isLoggable_append]
  exact ⟨hloggable.1, fun _ => h.name.isString⟩

/-- Nobody else is at work, the path of the destination does not lead through the destination, the next name for what is moved
aside is free, and archives have only files and directories. -/
structure Plan.Alone (plan : Plan) (m : Machine) : Prop where
  sound : m.files.Sound
  there : m.files.IsDir m.files.workingDirectory
  server : m.server.Undisturbed
  races : m.races = []
  direct : m.files.IsDirect plan.path
  free : m.files.IsFree plan.path (plan.asideName m)
  ordinary : ∀ content, m.server.Delivers plan.dependency.url content →
    IsOrdinary m.files plan.destination plan.dependency.archiveType content

/-- The machine with nothing new but directories above the destination. -/
structure Machine.Spared (m : Machine) (p : FilePath) (m' : Machine) : Prop where
  world : m' = { m with files := m'.files, journal := m'.journal, identifiers := m'.identifiers }
  kept : ∀ l, Kept p.parent.toText m.files m'.files l
  sound : m'.files.Sound
  cwd : m'.files.workingDirectory = m.files.workingDirectory

/-- The machine with a new installation at the destination. -/
structure Machine.Renewed (m : Machine) (plan : Plan) (p : FilePath) (d : Location) (m' : Machine) : Prop where
  world : m' = { m with files := m'.files, journal := m'.journal, identifiers := m'.identifiers }
  lies : m.files.LiesIn p d
  home : m'.files.Home p d
  kept : ∀ l, ¬ child d p.name <+: l → Kept p.parent.toText m.files m'.files l
  sound : m'.files.Sound
  cwd : ¬ child d p.name <+: m.files.workingDirectory → m'.files.workingDirectory = m.files.workingDirectory
  isDir : m'.files.IsDir (child d p.name)
  plain : ∀ l node, child d p.name <+: l → m'.files.get? l = some node → Links.none.Allows node
  sendable : IsSendable p.toText
  fits : Fits p p.name
  web : Url.IsWeb plan.dependency.url
  brief : Installation.IsBrief plan.binaries p (m'.files.tree (child d p.name))
  tree : (∀ binary ∈ plan.binaries, ∀ x ∈ binaryNames binary, Glob.hasWildcard x = false) → ∃ content unpacked,
    m.server.Delivers plan.dependency.url content ∧ Unpacked plan.dependency.archiveType content unpacked ∧
      Tree.Built plan.dependency.url plan.binaries unpacked (m'.files.tree (child d p.name))

theorem Machine.Holds.spared (h : m.Holds (Made p.parent.toText m.files) m₁) (hsealed : Sealed .none [] m₁.files m'.files)
    (hworld : m' = { m with files := m'.files, journal := m'.journal, identifiers := m'.identifiers }) : m.Spared p m' where
  world := hworld
  kept l := by
    have hsame := hsealed.outside l (by rintro ⟨r, hr, -⟩; cases hr)
    have heach := h.files.each l
    rwa [Kept, IsDir, hsame]
  sound := hsealed.sound
  cwd := hsealed.cwd.trans h.files.cwd

/-- A staging directory that was made beside the destination, once the directories above were there. -/
structure Prepared (m : Machine) (plan : Plan) (d : Location) (attempt mode : Nat) (m₁ : Machine) : Prop where
  made : m.Holds (Made plan.path.parent.toText m.files) m₁
  beside : Beside m₁.files plan.path d (plan.stagingName attempt)

section Prepared

variable {attempt mode : Nat} {m₃ : Machine} (hplan : plan.Sane) (halone : plan.Alone m) (h : Prepared m plan d attempt mode m₁)
include hplan halone h

theorem Prepared.staged : Staged (m₁.files.put (child d (plan.stagingName attempt)) (.directory mode))
    (plan.path.beside (plan.stagingName attempt))
    (child d (plan.stagingName attempt)) := by
  refine h.beside.staged h.made.files.sound (hplan.text.symm ▸ hplan.downward) ?_
  rw [h.made.files.cwd]
  exact h.made.files.extends.dir _ halone.there

theorem Prepared.site : Site (m₁.files.without (child d plan.path.name)) plan.path d (plan.stagingName attempt) (plan.asideName m) := by
  have hdown : Path.Downward plan.path.toText := hplan.text.symm ▸ hplan.downward
  have hfree := h.made.files.isFree (tidy_ofText _) halone.sound hdown halone.free
  exact h.beside.site hplan.name h.made.files.rooted hdown (h.made.files.isDirect halone.direct) hfree

theorem Prepared.isPlain (hdelivers : m₁.server.Delivers plan.dependency.url content) :
    IsPlain (m₁.files.put (child d (plan.stagingName attempt)) (.directory mode))
      (plan.path.beside (plan.stagingName attempt)).toText plan.dependency.archiveType content := by
  have hserver : m₁.server = m.server := h.made.same (·.server) fun _ _ _ => rfl
  have hordinary := halone.ordinary content (hserver ▸ hdelivers)
  rw [← hplan.text] at hordinary
  exact (hordinary.isPlain (tidy_ofText _) (hplan.name.isComponent_stagingName attempt)).of_sameLinks
    (h.made.files.sameLinks.trans (sameLinks_put child_ne_nil h.beside.fresh.none)) h.made.files.cwd

omit halone in
theorem Prepared.isLoggable (hloggable : IsLoggable m₁.threshold (plan.path.beside (plan.stagingName attempt)).toText) :
    IsLoggable m.threshold plan.destination := by
  have hthreshold : m₁.threshold = m.threshold := h.made.same (·.threshold) fun _ _ _ => rfl
  exact hthreshold ▸ hplan.isLoggable hloggable

section Removed

variable {n : Nat}
  (hm₃ : ({ m₁ with files := m₁.files.put (child d (plan.stagingName attempt)) (.directory mode) } : Machine).Holds
    (Sealed .none [child d (plan.stagingName attempt)] (m₁.files.put (child d (plan.stagingName attempt)) (.directory mode))) m₃)
include hm₃

omit hplan halone in
/-- Whatever went wrong, the staging directory goes and all that was done in it. -/
theorem Prepared.remove : exec (removeTree (plan.path.beside (plan.stagingName attempt)).toText) { m₃ with identifiers := n } =
      (.ok (), { m₃ with identifiers := n, files := m₃.files.without (child d (plan.stagingName attempt)) }) ∧
    m.Spared plan.path { m₃ with identifiers := n, files := m₃.files.without (child d (plan.stagingName attempt)) } := by
  obtain ⟨hrun, hsealed⟩ := h.beside.fresh.removeTree (m := { m₃ with identifiers := n }) (barren_nil h.made.files.sound) hm₃.files
  exact ⟨hrun, h.made.spared hsealed (by rw [hm₃.world, h.made.world])⟩

end Removed

section Filled

variable {s : Location} (hs : s = child d (plan.stagingName attempt))
  (hfilled : Filled { m₁ with files := m₁.files.put s (.directory mode) } plan (plan.path.beside (plan.stagingName attempt)) s m₃)
include hs hfilled

omit hplan halone in
theorem Prepared.extends : m₁.files.Extends m₃.files := by
  subst hs
  exact h.beside.fresh.extends (barren_nil h.made.files.sound) hfilled.holds.files

omit hplan halone h in
theorem Filled.isDir : m₃.files.IsDir s := by
  subst hs
  exact hfilled.holds.files.dirs _ ⟨mode, by rw [get?_put child_ne_nil, if_pos rfl]⟩

omit hplan halone h in
/-- Outside of the staging directory everything is as it was when the directories above were there. -/
theorem Filled.outside {l : Location} (hl : ¬ s <+: l) : m₃.files.get? l = m₁.files.get? l := by
  have hne : l ≠ s := fun he => hl (he ▸ List.prefix_rfl)
  rw [hfilled.holds.files.outside l (by simpa [Beneath] using hl), get?_put (hs ▸ child_ne_nil), if_neg hne]

theorem Prepared.renewed (hreplaced : Replaced m₃ s (child d plan.path.name) m') : m.Renewed plan plan.path d m' := by
  have hsite := h.site hplan halone
  have hsealed := hfilled.holds.files
  have hvacant : m₁.files.Vacant s := hs ▸ vacant_of_none h.made.files.rooted h.beside.fresh.none
  have hkept {l : Location} (hl : ¬ child d plan.path.name <+: l) : m'.files.get? l = m₁.files.get? l := by
    rw [hreplaced.get?, hs, hsite.apart.symm.get?_move, if_neg hl, ← hs]
    split
    · rename_i hl
      exact (hvacant l hl).symm
    · rename_i hl
      exact Filled.outside hs hfilled hl
  have htree : m'.files.tree (child d plan.path.name) = m₃.files.tree s := by
    funext l
    rw [tree_apply, tree_apply, hreplaced.get?, hs, hsite.apart.symm.get?_move, if_pos (List.prefix_append ..), List.drop_left]
  have hcwd (hout : ¬ child d plan.path.name <+: m.files.workingDirectory) : m'.files.workingDirectory = m.files.workingDirectory := by
    have hcwd : m₃.files.workingDirectory = m.files.workingDirectory := hsealed.cwd.trans h.made.files.cwd
    rw [← hcwd]
    refine hreplaced.cwd (fun hin => ?_) (hcwd ▸ hout)
    exact (h.made.files.extends.dir _ halone.there).get?_ne_none (hvacant _ (hcwd ▸ hin))
  have hmoved : (m₃.files.move s (child d plan.path.name)).Sound := by
    refine hsealed.sound.move (hs ▸ hsite.apart.symm.not_prefix) (hs ▸ hsite.apart.not_prefix)
      ⟨d, _, rfl, hplan.name.component.isName, hplan.name.component.noSlash, hplan.name.short⟩ ?_
    rw [child, List.dropLast_concat]
    exact (h.extends hs hfilled).dir d h.beside.home.isDir
  have hcore : (m₁.files.without (child d plan.path.name)).Extends m'.files := by
    refine (without_extends child_ne_nil).congr (fun l hl => hkept fun hp => hl ?_) fun hdir => ?_
    · rw [get?_without child_ne_nil, if_pos hp]
    · rw [hcwd, ← h.made.files.cwd]
      intro hp
      refine hdir.get?_ne_none ?_
      rw [get?_without child_ne_nil]
      exact if_pos (h.made.files.cwd ▸ hp)
  exact {
    world := by rw [hreplaced.world, hfilled.holds.world, h.made.world]
    lies := h.made.files.liesIn h.beside.home.liesIn
    home := hsite.home.of_extends hcore
    kept := fun l hl => by
      have heach := h.made.files.each l
      rwa [Kept, IsDir, hkept hl]
    sound := hmoved.congr hreplaced.get? hreplaced.next
    cwd := hcwd
    isDir := by
      obtain ⟨mode, hg⟩ := Filled.isDir hs hfilled
      exact ⟨mode, by rw [← List.append_nil (child d plan.path.name), ← tree_apply, htree, tree_apply, List.append_nil, hg]⟩
    plain := by
      rintro _ node ⟨more, rfl⟩ hg
      rw [← tree_apply, htree] at hg
      exact hsealed.allowed _ node ⟨_, by simp, List.prefix_append ..⟩ hg
    sendable := h.beside.sendable hplan.name
    fits := h.beside.fitsName hplan.name
    web := hfilled.web
    brief := htree ▸ hfilled.brief.of_staging (tidy_ofText _) hplan.name
    tree := fun hwild => by
      obtain ⟨content, unpacked, hdelivers, hunpacked, hbuilt⟩ := hfilled.tree hwild
      refine ⟨content, unpacked, ?_, hunpacked, htree ▸ hbuilt⟩
      rwa [← h.made.same (·.server) fun _ _ _ => rfl] }

/-- A staging directory that was filled takes the destination's place, unless nothing changes. -/
theorem Prepared.settle (i : Installation) :
    (∃ r n, exec (i.settle plan (plan.path.beside (plan.stagingName attempt)) plan.path Installation.attempts) m₃ =
          (r, { m₃ with identifiers := n }) ∧ r ≠ .ok true ∧
        (r = .ok false → plan.isForced = false ∧ (exec (i.isInstalled plan.dependency) m₃).1 = .ok true)) ∨
      ∃ m', exec (i.settle plan (plan.path.beside (plan.stagingName attempt)) plan.path Installation.attempts) m₃ = (.ok true, m') ∧
        m.Renewed plan plan.path d m' := by
  have hsite := h.site hplan halone
  have hdown : Path.Downward plan.path.toText := hplan.text.symm ▸ hplan.downward
  have hraces : m₃.races = m.races :=
    (hfilled.holds.same (·.races) fun _ _ _ => rfl).trans (h.made.same (·.races) fun _ _ _ => rfl)
  have hidentifiers : m₃.identifiers = m.identifiers :=
    (hfilled.holds.same (·.identifiers) fun _ _ _ => rfl).trans (h.made.same (·.identifiers) fun _ _ _ => rfl)
  have hnext : nextAside m₃ plan.path.toText = (plan.path.beside (plan.asideName m)).toText := by
    rw [nextAside, hidentifiers]
    exact (tidy_ofText _).asidePath_toText hdown (ne_nil_of_name hplan.name.component) (Text.slash_not_mem_hex _ _)
  have hnone : m₃.files.get? (child d (plan.asideName m)) = none := by
    rw [Filled.outside hs hfilled (hs ▸ hsite.asideStaging.symm.not_prefix)]
    exact h.made.files.isFree (tidy_ofText _) halone.sound hdown halone.free d h.beside.home.liesIn
  refine (i.settle_alone plan hsite ((without_extends child_ne_nil).trans (h.extends hs hfilled)) hfilled.holds.files.sound
    (hraces.trans halone.races) hnext hnone (hs ▸ Filled.isDir hs hfilled) 9).imp ?_ ?_
  · rintro ⟨r, n, hrun, hnot, hcurrent, -⟩
    exact ⟨r, n, hrun, hnot, hcurrent⟩
  · rintro ⟨m', hrun, hreplaced⟩
    exact ⟨m', hrun, h.renewed hplan halone hs hfilled (hs ▸ hreplaced)⟩

end Filled

end Prepared

/-- A plan that ended well: the installation there is current and may stay, or there is a new one. -/
inductive Performed (i : Installation) (m : Machine) (plan : Plan) (m' : Machine) : Prop
  | current {m₁ : Machine} {d s : Location} : m.Spared plan.path m' → plan.isForced = false → m.files.get? s = none →
      (∀ l, ¬ s <+: l → m₁.files.get? l = m'.files.get? l) → (exec (i.isInstalled plan.dependency) m₁).1 = .ok true →
        m₁.files.Rooted → m'.files.Home plan.path d → m'.files.Extends m₁.files → Siblings (child d plan.path.name) s →
          Performed i m plan m'
  | renewed {d : Location} : m.Renewed plan plan.path d m' → Performed i m plan m'

/-- A plan ends well, and what it did can be told in the log; or it fails and changes nothing. -/
theorem Installation.exec_perform (i : Installation) (client : Option Client) (hplan : plan.Sane) (halone : plan.Alone m) :
    (∃ e m', exec (i.perform client plan) m = (.error e, m') ∧ m.Spared plan.path m') ∨
      ∃ m', exec (i.perform client plan) m = (.ok (), m') ∧ IsLoggable m.threshold plan.destination ∧ Performed i m plan m' := by
  rw [Installation.perform]
  rcases hrun : exec (makeAncestry plan.path.parent) m with ⟨r, m₁⟩
  have hmade : m.Holds (Made plan.path.parent.toText m.files) m₁ :=
    (keeps_makeAncestry_made (tidy_ofText _).parent (isOnWay_refl _)).after (Machine.holds_self (made_refl halone.sound)) hrun
  have hbarren := barren_nil hmade.files.sound
  cases r with
  | error e => exact .inl ⟨e, m₁, exec_bind_of_error hrun, hmade.spared hbarren.sealed (by rw [hmade.world])⟩
  | ok _ =>
  simp only [exec_bind_of_ok hrun]
  rcases exec_makeTemporary plan.path.parent.toText hmade.files.rooted hplan.name.isComponent_stagingName with
    ⟨e, he⟩ | ⟨attempt, s, mode, he, hfresh⟩
  · exact .inl ⟨e, m₁, exec_bind_of_error he, hmade.spared hbarren.sealed (by rw [hmade.world])⟩
  have hbelow : ∃ d, s = child d (plan.stagingName attempt) ∧ Beside m₁.files plan.path d (plan.stagingName attempt) :=
    hfresh.beside (tidy_ofText _) (hplan.name.isComponent_stagingName attempt)
  obtain ⟨d, rfl, hbeside⟩ := hbelow
  have hprepared : Prepared m plan d attempt mode m₁ := ⟨hmade, hbeside⟩
  have htext : ofText (temporaryPath plan.path.parent.toText (Text.join [".", plan.path.name, "-"]) attempt) =
      plan.path.beside (plan.stagingName attempt) := (tidy_ofText _).ofText_join_parent (hplan.name.isComponent_stagingName attempt)
  simp only [exec_bind_of_ok he, htext]
  have hserver : m₁.server = m.server := hmade.same (·.server) fun _ _ _ => rfl
  rcases i.exec_fill client (hprepared.staged hplan halone) (hserver ▸ halone.server) hplan.archive hplan.noSlash
    (m := { m₁ with files := m₁.files.put (child d (plan.stagingName attempt)) (.directory mode) })
    fun _ => hprepared.isPlain hplan halone with ⟨e, m₃, hfill, hm₃⟩ | ⟨m₃, hfilled, hloggable, hfill⟩
  · obtain ⟨hremove, hspared⟩ := hprepared.remove hm₃ (n := m₃.identifiers)
    refine .inl ⟨e, _, ?_, hspared⟩
    rw [exec_bind_of_ok (exec_attempt _), hfill]
    exact exec_bind_of_ok hremove
  rcases hprepared.settle hplan halone rfl hfilled i with ⟨r, n, hsettle, hnot, hcurrent⟩ | ⟨m', hsettle, hrenewed⟩
  · obtain ⟨hremove, hspared⟩ := hprepared.remove hfilled.holds (n := n)
    match r with
    | .ok true => exact absurd rfl hnot
    | .error e =>
      refine .inl ⟨e, _, ?_, hspared⟩
      rw [exec_bind_of_ok (exec_attempt _), hfill, hsettle]
      exact exec_bind_of_ok hremove
    | .ok false =>
      obtain ⟨hforced, hcurrent⟩ := hcurrent rfl
      refine .inr ⟨_, ?_, hprepared.isLoggable hplan hloggable,
        .current (s := child d (plan.stagingName attempt)) hspared hforced ?_ (fun l hl => ?_) hcurrent
          hfilled.holds.files.rooted ?_ (without_extends child_ne_nil) (hprepared.site hplan halone).apart⟩
      · rw [exec_bind_of_ok (exec_attempt _), hfill, hsettle]
        exact exec_bind_of_ok hremove
      · rcases hmade.files.each (child d (plan.stagingName attempt)) with he | ⟨hnone, -⟩
        · exact he.symm.trans hbeside.fresh.none
        · exact hnone
      · exact (get?_without child_ne_nil).symm ▸ (if_neg hl).symm
      · have hvacant := vacant_of_none hmade.files.rooted hbeside.fresh.none
        exact hbeside.home.of_extends ((hprepared.extends rfl hfilled).without hvacant)
  · refine .inr ⟨m', ?_, hprepared.isLoggable hplan hloggable, .renewed hrenewed⟩
    rw [exec_bind_of_ok (exec_attempt _), hfill, hsettle]
    rfl

end Prebuilt
