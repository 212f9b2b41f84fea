import Prebuilt.Proofs.Install.Layout
import Prebuilt.Proofs.Install.Naming
/-!
Filling a staging directory. Whatever goes wrong, nothing outside the directory is touched; and where all goes well its tree
is that of an installation, built from an archive that the server has delivered.
-/
set_option autoImplicit false

namespace Prebuilt

open FileSystem Action FilePath

variable {before m m' : Machine} {base fs fs' : FileSystem} {p : FilePath} {s l : Location} {names : List Text} {below : List Name}
  {binary name : Text} {binaries : List Text} {node : Node}

/-- A staging directory that was just made. -/
structure Staged (base : FileSystem) (p : FilePath) (s : Location) : Prop where
  tidy : p.Tidy
  ready : Ready base p.toText s
  sendable : IsSendable p.toText
  away : ¬ s <+: base.workingDirectory

theorem Staged.reached (h : Staged base p s) (hfs : Sealed .none [s] base fs) : fs.Reached p s where
  tidy := h.tidy
  addresses := h.ready.addresses.of_extends (hfs.extends h.ready.barren)
  isDir := hfs.dirs s h.ready.isDir
  plain l node hl hg := hfs.allowed l node ⟨s, by simp, hl⟩ hg
  rooted := hfs.rooted

theorem Staged.staysInward (h : Staged base p s) (hname : IsComponent name) :
    StaysInward .none [s] base (p / name).toText := by
  obtain ⟨mode, hg⟩ := h.ready.isDir
  have hstatus : base.status p.toText true = .ok (s, .directory mode) := by
    rw [h.ready.addresses.status (.inr (by simp [IsLink, hg])), hg]
  have hrel := Path.isAbsolute_of_no_slash hname.noSlash
  have hnames : Path.names name = [name] := Path.names_of_part hname.isName.1 hname.noSlash
  have hsteps : ∀ part ∈ [name], IsStep part := by simpa using hname.isStep
  have hdown : Path.Downward name := by
    rw [Path.Downward, hnames]
    simpa using hname.isName.2
  have hjoin : StaysInward .none [s] base (Path.join p.toText name) :=
    staysInward_join (fun _ hnone => hnone.elim) h.ready.barren (by simp) hstatus (addresses_ne_nil h.ready.addresses) hrel hdown
  rw [p.div_eq_under hname.noSlash, hnames]
  refine fun fs hfs => (hjoin fs hfs).congr ?_ ?_
  · rw [(h.tidy.under hsteps).names_toText, Path.names_join hrel, h.tidy.names_toText, hnames]
    rfl
  · rw [h.tidy.isAbsolute_under hsteps, Path.isAbsolute_join hrel (addresses_ne_nil h.ready.addresses)]

/-! ## Trees beneath the staging directory -/

theorem FileSystem.Reached.isSendable_under (h : fs.Reached p s) (hsend : IsSendable p.toText)
    (hnames : ∀ part ∈ names, IsComponent part) (hne : names ≠ []) :
    IsSendable (p.under names).toText ↔ IsSendable (Text.joinWith "/" names) := by
  rw [h.tidy.toText_under h.parts_ne_nil hne fun part hpart => (hnames part hpart).isStep, isSendable_append, isSendable_append]
  have hslash : IsSendable "/" := ⟨[47], by decide, by decide⟩
  exact ⟨fun h => h.2, fun h => ⟨⟨hsend, hslash⟩, h⟩⟩

/-- What stands in a tree stands beneath the directory. -/
theorem FileSystem.tree_apply (fs : FileSystem) (s l : Location) : fs.tree s l = fs.get? (s ++ l) := rfl

theorem FileSystem.Sound.isEntryName_of_has (hsound : fs.Sound) (h : (fs.tree s).Has below name) :
    (∀ part ∈ below, IsEntryName part) ∧ fs.IsFile (descend s (below ++ [name])) := by
  obtain ⟨node, hg, hfile⟩ := h.isFile
  have hbelow : ∀ part ∈ below, IsEntryName part := fun part hpart =>
    hsound.named (s ++ (below ++ [Name.canonical name])) (by rw [← tree_apply, hg]; simp) part (by simp [hpart])
  refine ⟨hbelow, node, ?_, hfile⟩
  rw [descend_append, descend_of_isEntryName hbelow, ← hg, tree_apply, ← List.append_assoc]
  rfl

theorem FileSystem.Reached.not_has_of_lacks (h : fs.Reached p s) (hsound : fs.Sound) (hsend : IsSendable p.toText)
    (hlacks : Lacks fs (p.under (below ++ [name])).toText) : ¬ (fs.tree s).Has below name := by
  intro hhas
  obtain ⟨hbelow, hfile⟩ := hsound.isEntryName_of_has hhas
  have hnames : ∀ part ∈ below ++ [name], IsComponent part := by
    simpa [or_imp, forall_and, hhas.component] using fun part hpart => (hbelow part hpart).isComponent
  exact h.not_isFile_of_lacks hnames (by simp) ((h.isSendable_under hsend hnames (by simp)).2 hhas.sendable) hlacks hfile

theorem FileSystem.Reached.has_of_shows (h : fs.Reached p s) (hsend : IsSendable p.toText) (hbelow : ∀ part ∈ below, IsEntryName part)
    (hname : IsComponent name) (hshows : Shows fs (p.under (below ++ [name])).toText) : (fs.tree s).Has below name := by
  have hnames : ∀ part ∈ below ++ [name], IsComponent part := by
    simpa [or_imp, forall_and, hname] using fun part hpart => (hbelow part hpart).isComponent
  obtain ⟨-, ⟨node, hg, hfile⟩, -⟩ := h.isFile_of_shows hnames hshows
  refine ⟨hname, (h.isSendable_under hsend hnames (by simp)).1 hshows.1, node, ?_, hfile⟩
  rw [tree_apply, ← hg, descend_append, descend_of_isEntryName hbelow, ← List.append_assoc]
  rfl

theorem FileSystem.Reached.not_has_of_lacks_top (h : fs.Reached p s) (hsound : fs.Sound) (hsend : IsSendable p.toText)
    (hlacks : Lacks fs (p / name).toText) : ¬ (fs.tree s).Has [] name := by
  intro hhas
  rw [p.div_eq_under hhas.component.noSlash, Path.names_of_part hhas.component.isName.1 hhas.component.noSlash] at hlacks
  exact h.not_has_of_lacks hsound hsend hlacks hhas

/-- The first file that a search gives is the first of the tree. -/
theorem FileSystem.Reached.first_of_isChosen (h : fs.Reached p s) (hsound : fs.Sound) (hsend : IsSendable p.toText) (hname : IsComponent name)
    (hwild : Glob.hasWildcard name = false) (hchosen : fs.IsChosen p name names) :
    ∃ below, names = below ++ [name] ∧ (∀ part ∈ below, IsEntryName part) ∧ (fs.tree s).Has below name ∧
      ∀ other, (fs.tree s).Has other name → search.le (below ++ [name]) (other ++ [name]) = true := by
  obtain ⟨front, rest, hsearch, hshows, hfront⟩ := hchosen
  obtain ⟨below, hc, hbelow⟩ := search_exact hsound.named h hname hwild hsearch (c := p.under names) (by simp)
  obtain rfl : names = below ++ [name] := List.append_cancel_left (congrArg FilePath.parts hc)
  refine ⟨below, rfl, hbelow, h.has_of_shows hsend hbelow hname hshows, fun other hother => ?_⟩
  obtain ⟨hentries, node, hg, -⟩ := hsound.isEntryName_of_has hother
  have hle (a b : FilePath) (hle : search.le a.parts b.parts = true) (ha : a = p.under (below ++ [name]))
      (hb : b = p.under (other ++ [name])) : search.le (below ++ [name]) (other ++ [name]) = true := by
    subst ha hb
    rwa [FilePath.under, FilePath.under, search_le_append] at hle
  have hmem := search_complete h hname hwild hentries hsearch hg
  have hsorted := (search_ok hsound h hname.noSlash hsearch).1
  rcases List.mem_append.1 hmem with hmem | hmem
  · exact absurd hother (h.not_has_of_lacks hsound hsend (hfront _ hmem))
  · rcases List.mem_cons.1 hmem with hsame | hmem
    · exact hle _ _ ((search_le_total _ _).elim id id) rfl hsame.symm
    · exact hle _ _ ((List.pairwise_cons.1 (List.pairwise_append.1 hsorted).2.1).1 _ hmem) rfl rfl

/-- A binary that is found is located in the tree. -/
theorem Action.Found.locates (h : fs.Reached p s) (hsound : fs.Sound) (hsend : IsSendable p.toText)
    (hslash : CodePoint.char '/' ∉ binary) (hwild : ∀ x ∈ binaryNames binary, Glob.hasWildcard x = false)
    (hfound : Found fs p s binary name names fs') :
    ∃ below, names = below ++ [name] ∧ (∀ part ∈ below, IsEntryName part) ∧ (fs.tree s).Locates binary name below := by
  cases hfound with
  | top hnames hbefore hshows htrail _ =>
    have hslash := slash_not_mem_binaryNames hslash name (by simp [hnames])
    have hcomponent := (h.shows_top hslash hshows).1
    rw [p.div_eq_under hslash, Path.names_of_part hcomponent.isName.1 hslash] at hshows
    exact ⟨[], htrail, nofun, .top hnames (fun x hx => h.not_has_of_lacks_top hsound hsend (hbefore x hx))
      (h.has_of_shows hsend nofun hcomponent hshows)⟩
  | beneath hnames htop hnone hchosen hraises =>
    obtain ⟨below, rfl, hbelow, hhas, hfirst⟩ := h.first_of_isChosen hsound hsend hraises.component
      (hwild name (by simp [hnames])) hchosen
    refine ⟨below, rfl, hbelow, .beneath hnames (fun x hx => h.not_has_of_lacks_top hsound hsend (htop x hx)) ?_ hhas hfirst⟩
    intro x hx other hother
    obtain ⟨found, hsearch, hlacks⟩ := hnone x hx
    obtain ⟨hentries, node, hg, -⟩ := hsound.isEntryName_of_has hother
    have hmem := search_complete h hother.component (hwild x (by simp [hnames, hx])) hentries hsearch hg
    exact h.not_has_of_lacks hsound hsend (hlacks _ hmem) hother

/-! ## One binary -/

/-- What becomes of one binary: it is lifted to the top of the tree and may be executed, or something fails. -/
theorem exec_prepare (hstaged : Staged base p s) (hm : before.Holds (Sealed .none [s] base) m)
    (hslash : CodePoint.char '/' ∉ binary) :
    (∃ e, exec (do makeExecutable (← locateBinary p binary).toText) m = (.error e, m)) ∨
      ∃ m', exec (do makeExecutable (← locateBinary p binary).toText) m = (.ok (), m') ∧
        before.Holds (Sealed .none [s] base) m' ∧
          ((∀ x ∈ binaryNames binary, Glob.hasWildcard x = false) → ∃ name below node,
            (m.files.tree s).Locates binary name below ∧ m.files.tree s (below ++ [Name.canonical name]) = some node ∧
              node.isFile = true ∧ m'.files.tree s = (m.files.tree s).lift below name node) := by
  have hreached := hstaged.reached hm.files
  rcases locateBinary_cases hm.files.sound hreached hslash with ⟨e, he⟩ | ⟨name, names, fs, he, hfound⟩
  · exact .inl ⟨e, exec_bind_of_error he⟩
  right
  have hsealed := hfound.sealed hm.files hstaged.away
  have hlifted := hfound.lifted hreached hslash
  have hm₁ : before.Holds (Sealed .none [s] base) { m with files := fs } := hm.setFiles hsealed
  obtain ⟨node, hg, hfile⟩ := hlifted.isFile
  have htop : fs.get? (child s name) = some node := by rw [hlifted.get?, if_pos rfl, hg]
  have hbeneath : Beneath [s] (child s name) := ⟨s, by simp, List.prefix_append ..⟩
  have hlink : ¬ fs.IsLink (child s name) := fun ⟨_, ht⟩ => hsealed.linked hbeneath ht
  obtain ⟨m', hrun, hputs⟩ := exec_makeExecutable (m := { m with files := fs }) hlifted.addresses hlifted.sendable hlink
    (hsealed.sole hstaged.ready.barren id hbeneath) htop
  have hkept := keeps_makeExecutable hstaged.ready.barren (hstaged.staysInward hlifted.component) _ hm₁
  rw [hrun] at hkept
  refine ⟨m', (exec_bind_of_ok he).trans hrun, hkept, fun hwild => ?_⟩
  obtain ⟨below, rfl, hbelow, hlocates⟩ := hfound.locates hreached hm.files.sound hstaged.sendable hslash hwild
  have hdown : descend s (below ++ [name]) = s ++ (below ++ [Name.canonical name]) := by
    rw [descend_append, descend_of_isEntryName hbelow, ← List.append_assoc]
    rfl
  rw [hdown] at hg
  refine ⟨name, below, node, hlocates, hg, hfile, funext fun l => ?_⟩
  have hchild : child s name = s ++ [Name.canonical name] := rfl
  rw [tree_apply, hputs.differs.get?, hlifted.get?, Tree.lift, hdown, hchild]
  simp only [List.append_cancel_left_eq]
  split
  · rfl
  · rfl

/-- All binaries in turn. -/
theorem exec_prepareAll (hstaged : Staged base p s) (hm : before.Holds (Sealed .none [s] base) m)
    (hslash : ∀ binary ∈ binaries, CodePoint.char '/' ∉ binary) :
    ∃ r m', exec (binaries.forM fun binary => do makeExecutable (← locateBinary p binary).toText) m = (r, m') ∧
      before.Holds (Sealed .none [s] base) m' ∧ (r = .ok () →
        (∀ binary ∈ binaries, ∀ x ∈ binaryNames binary, Glob.hasWildcard x = false) →
          Tree.Prepares binaries (m.files.tree s) (m'.files.tree s)) := by
  induction binaries generalizing m with
  | nil => exact ⟨_, m, rfl, hm, fun _ _ => .nil _⟩
  | cons binary rest ih =>
    obtain ⟨hbinary, hrest⟩ := List.forall_mem_cons.1 hslash
    simp only [List.forM]
    rcases exec_prepare hstaged hm hbinary with ⟨e, he⟩ | ⟨m₁, he, hm₁, htree⟩
    · exact ⟨.error e, m, exec_bind_of_error he, hm, fun hok => by cases hok⟩
    · obtain ⟨r, m', hrun, hm', hprepares⟩ := ih hm₁ hrest
      refine ⟨r, m', (exec_bind_of_ok he).trans hrun, hm', fun hok hwild => ?_⟩
      obtain ⟨hwild, hwilds⟩ := List.forall_mem_cons.1 hwild
      obtain ⟨name, below, node, hlocates, hg, hfile, hlift⟩ := htree hwild
      exact .cons hlocates hg hfile (hlift ▸ hprepares hok hwilds)

/-! ## Verification and the marker -/

theorem keeps_verifyBinary (property : FileSystem → Prop) (p : FilePath) (url binary : Text) :
    Keeps (before.Holds property) (verifyBinary p url binary) := by
  unfold verifyBinary
  refine Keeps.bind (Keeps.findM? fun path _ => (looks_isFile _).keeps) fun found => ?_
  cases found with
  | none => exact (keeps_log _ _ _).bind fun _ => keeps_pure _
  | some path => exact keeps_ask.bind fun _ => Keeps.ite (fun _ => (keeps_log _ _ _).bind fun _ => keeps_pure _) fun _ => keeps_pure _

/-- A path that leads anywhere is not too long. -/
theorem FileSystem.brief_of_place {purpose : Purpose} {place : Place} {path : Text} (h : fs.place purpose path = .ok place) :
    byteLength path < pathLimit := by
  cases hstart : fs.start path with
  | error e => simp [FileSystem.place, hstart, bind, Except.bind] at h
  | ok d => exact (start_begin hstart).1

theorem FileSystem.brief_of_status {path : Text} {follow : Bool} (h : fs.status path follow = .ok (l, node)) :
    byteLength path < pathLimit := by
  unfold FileSystem.status at h
  split at h
  · cases h
  · rename_i hplace
    exact brief_of_place hplace
  · cases h

/-- A binary that passes is at the top of the tree and not empty, and its path there is not too long. -/
theorem verifies_of_verifyBinary {url : Text} (h : fs.Reached p s) (hsound : fs.Sound) (hsend : IsSendable p.toText)
    (hslash : CodePoint.char '/' ∉ binary) (hfiles : m.files = fs) (hrun : exec (verifyBinary p url binary) m = (.ok true, m')) :
    (fs.tree s).Verifies binary ∧ ∃ name, (fs.tree s).Finds binary name ∧ byteLength (p / name).toText < pathLimit := by
  subst hfiles
  rw [verifyBinary] at hrun
  simp only at hrun
  rcases findM?_isFileAt (fun path => path) ((binaryNames binary).map (p / ·)) m with
    ⟨e, he⟩ | ⟨he, -⟩ | ⟨front, path, rest, hitems, he, hshows, hfront⟩
  · cases (exec_bind_of_error he).symm.trans hrun
  · have hrun := (exec_bind_of_ok he).symm.trans hrun
    obtain ⟨_, _, _, hrun⟩ := bind_ok.1 hrun
    cases hrun
  · obtain ⟨front, more, hnames, rfl, hmore⟩ := List.map_eq_append_iff.1 hitems
    obtain ⟨name, rest, rfl, rfl, rfl⟩ := List.map_eq_cons_iff.1 hmore
    have hrun := (exec_bind_of_ok he).symm.trans hrun
    obtain ⟨⟨l, node⟩, m₁, hstatus, hrun⟩ := bind_ok.1 hrun
    obtain ⟨-, hstatus⟩ := ask_ok hstatus
    have hslash := slash_not_mem_binaryNames hslash name (by simp [hnames])
    have hcomponent := (h.shows_top hslash hshows).1
    have hparts : p / name = p.under [name] := by
      rw [p.div_eq_under hslash, Path.names_of_part hcomponent.isName.1 hslash]
    have hbrief := brief_of_status hstatus
    rw [hparts] at hstatus hshows
    obtain ⟨rfl, hg⟩ := h.status_under_ok (by simpa using hcomponent) hstatus
    have hbefore : ∀ x ∈ front, ¬ (m.files.tree s).Has [] x := fun x hx =>
      h.not_has_of_lacks_top hsound hsend (hfront (p / x) (List.mem_map_of_mem hx))
    have hhas : (m.files.tree s).Has [] name := h.has_of_shows hsend nofun hcomponent hshows
    refine ⟨⟨front, name, rest, node, hnames, hbefore, hhas, hg, fun hsize => ?_⟩, name, ⟨front, rest, hnames, hbefore, hhas⟩, hbrief⟩
    simp only [hsize, if_true] at hrun
    obtain ⟨_, _, _, hrun⟩ := bind_ok.1 hrun
    cases hrun

theorem keeps_writeMarker (hstaged : Staged base p s) (url : Text) :
    Keeps (before.Holds (Sealed .none [s] base)) (Installation.writeMarker p url) := by
  have hname : IsComponent Installation.markerName := ⟨⟨by decide, by decide⟩, by decide⟩
  have hin := hstaged.staysInward hname
  refine Keeps.bind_of (keeps_create hstaged.ready.barren hin) fun m location m₁ hm hrun hm₁ => ?_
  cases Utf8.encode (url ++ "\n") with
  | ok bytes => exact keeps_write hstaged.ready.barren (beneath_of_create hstaged.ready.barren hin hm hrun) m₁ hm₁
  | error fault => exact hm₁

/-- The marker holds the address and an end of line. -/
theorem writeMarker_ok {url : Text} (hstaged : Staged base p s) (hfs : Sealed .none [s] base m.files)
    (hrun : exec (Installation.writeMarker p url) m = (.ok (), m')) : byteLength (p / Installation.markerName).toText < pathLimit ∧
    ∃ bytes number mode, Utf8.encode (url ++ "\n") = .ok bytes ∧
      (∀ node, m.files.tree s [Installation.markerName] = some node → mode = node.mode) ∧
        (m.files.tree s [Installation.markerName] = none → mode = fileMode) ∧
          m'.files.tree s = (m.files.tree s).put [Installation.markerName] (.file number mode bytes) := by
  have hreached := hstaged.reached hfs
  have hname : IsComponent Installation.markerName := ⟨⟨by decide, by decide⟩, by decide⟩
  have hparts : p / Installation.markerName = p.under [Installation.markerName] := by
    rw [p.div_eq_under hname.noSlash, Path.names_of_part hname.isName.1 hname.noSlash]
  have hchild : descend s [Installation.markerName] = s ++ [Installation.markerName] := rfl
  have hbeneath : Beneath [s] (s ++ [Installation.markerName]) := ⟨s, by simp, List.prefix_append ..⟩
  obtain ⟨location, m₁, hcreate, hwritten⟩ := bind_ok.1 hrun
  obtain ⟨-, _, hplace⟩ := create_ok hcreate
  refine ⟨brief_of_place hplace, ?_⟩
  rw [hparts] at hcreate
  obtain ⟨hsend, place, hplace⟩ := create_ok hcreate
  have haddr := hreached.addresses_under (by simpa using hname) (by simp) hplace
  rw [hchild] at haddr
  have hwrite := isWritable_of_create haddr (fun node => hreached.plain _ node (List.prefix_append ..)) hcreate
  have hsole := hfs.sole hstaged.ready.barren id hbeneath
  obtain ⟨m₁', hcreate', hopen⟩ := exec_create haddr hsend hwrite hsole
  cases hcreate.symm.trans hcreate'
  cases hencode : Utf8.encode (url ++ "\n") with
  | error fault =>
    simp only [hencode] at hwritten
    cases hwritten
  | ok bytes =>
    simp only [hencode] at hwritten
    obtain ⟨m₂, hwrite', hputs⟩ := exec_write hopen hfs.sound hwrite hsole haddr.ne_nil bytes
    cases hwritten.symm.trans hwrite'
    have htree (node : Node) (h : m.files.written (s ++ [Installation.markerName]) bytes = node) :
        m'.files.tree s = (m.files.tree s).put [Installation.markerName] node := by
      funext l
      rw [tree_apply, hputs.differs.get?, h, Tree.put]
      simp only [List.append_cancel_left_eq]
      rfl
    refine ⟨bytes, ?_⟩
    simp only [tree_apply]
    rcases hwrite.cases with hnone | ⟨number, mode, content, hg⟩
    · exact ⟨m.files.nextNumber, fileMode, trivial, by simp [hnone], fun _ => rfl, htree _ (by rw [written, hnone])⟩
    · exact ⟨number, mode, trivial, by simp [hg, Node.mode], by simp [hg], htree _ (by rw [written, hg])⟩

/-! ## Filling -/

namespace Installation

/-- What is done with an archive that was unpacked: its binaries are found and tried, and the marker is left. -/
def finish (plan : Plan) (staging : FilePath) : Action Unit := do
  plan.binaries.forM fun binary => do
    makeExecutable (← locateBinary staging binary).toText
  if !(← plan.binaries.allM (verifyBinary staging plan.dependency.url)) then
    throw (.download (.verification plan.key))
  writeMarker staging plan.dependency.url

theorem exec_fill_eq (i : Installation) (client : Option Client) (plan : Plan) (staging : FilePath) (m : Machine) :
    exec (i.fill client plan staging) m = exec (do
      downloadArchive client i.settings.timeout plan.dependency.url staging.toText plan.dependency.archiveType
      finish plan staging
      i.settle plan staging (ofText plan.destination) attempts) m := by
  rw [fill, finish]
  simp only [exec_bind]
  rcases exec (downloadArchive client i.settings.timeout plan.dependency.url staging.toText plan.dependency.archiveType) m with ⟨r, m₁⟩
  cases r with
  | error e => rfl
  | ok _ =>
    simp only
    rcases exec (plan.binaries.forM fun binary => do makeExecutable (← locateBinary staging binary).toText) m₁ with ⟨r, m₂⟩
    cases r with
    | error e => rfl
    | ok _ =>
      simp only
      rcases exec (plan.binaries.allM (verifyBinary staging plan.dependency.url)) m₂ with ⟨r, m₃⟩
      match r with
      | .error e => rfl
      | .ok false => rfl
      | .ok true => simp only [Bool.not_true, Bool.false_eq_true, if_false, exec_bind]

/-- Neither the marker nor a binary of the tree has too long a path in the directory. -/
structure IsBrief (binaries : List Text) (p : FilePath) (tree : Tree) : Prop where
  marker : byteLength (p / markerName).toText < pathLimit
  binary : ∀ binary ∈ binaries, binary ≠ markerName → ∃ name, tree.Finds binary name ∧ byteLength (p / name).toText < pathLimit

/-- What is brief in a staging directory is brief at the destination. -/
theorem IsBrief.of_staging {tree : Tree} {attempt : Nat} (hp : p.Tidy) (hname : IsPlatformName p.name)
    (h : IsBrief binaries (p.beside (stagingName p.name attempt)) tree) : IsBrief binaries p tree where
  marker := Nat.lt_of_le_of_lt (byteLength_div_staging hp hname attempt ⟨⟨by decide, by decide⟩, by decide⟩) h.marker
  binary binary hbinary hne := by
    obtain ⟨name, hfinds, hlength⟩ := h.binary binary hbinary hne
    have hcomponent : IsComponent name := by
      obtain ⟨-, -, -, -, hhas⟩ := hfinds
      exact hhas.component
    exact ⟨name, hfinds, Nat.lt_of_le_of_lt (byteLength_div_staging hp hname attempt hcomponent) hlength⟩

/-- What is unpacked is finished to be the tree of an installation, or something fails. -/
theorem exec_finish {plan : Plan} (hstaged : Staged base p s) (hm : before.Holds (Sealed .none [s] base) m)
    (hslash : ∀ binary ∈ plan.binaries, CodePoint.char '/' ∉ binary) :
    ∃ r m', exec (finish plan p) m = (r, m') ∧ before.Holds (Sealed .none [s] base) m' ∧
      (r = .ok () → IsBrief plan.binaries p (m'.files.tree s) ∧
        ((∀ binary ∈ plan.binaries, ∀ x ∈ binaryNames binary, Glob.hasWildcard x = false) →
          Tree.Built plan.dependency.url plan.binaries (m.files.tree s) (m'.files.tree s))) := by
  rw [finish]
  obtain ⟨r, m₂, hrun, hm₂, hprepares⟩ := exec_prepareAll hstaged hm hslash
  cases r with
  | error e => exact ⟨.error e, m₂, exec_bind_of_error hrun, hm₂, nofun⟩
  | ok _ =>
  rw [exec_bind_of_ok hrun]
  rcases hrun : exec (plan.binaries.allM (verifyBinary p plan.dependency.url)) m₂ with ⟨r, m₃⟩
  have hverify : Keeps (before.Holds (· = m₂.files)) (plan.binaries.allM (verifyBinary p plan.dependency.url)) :=
    Keeps.allM fun binary _ => keeps_verifyBinary _ p plan.dependency.url binary
  have hsame := hverify m₂ ⟨hm₂.world, rfl⟩
  rw [hrun] at hsame
  have hm₃ : before.Holds (Sealed .none [s] base) m₃ := hsame.imp fun fs hfs => hfs ▸ hm₂.files
  match r with
  | .error e => exact ⟨.error e, m₃, exec_bind_of_error hrun, hm₃, nofun⟩
  | .ok false => exact ⟨_, m₃, exec_bind_of_ok hrun, hm₃, nofun⟩
  | .ok true =>
  rw [exec_bind_of_ok hrun]
  simp only [Bool.not_true, Bool.false_eq_true, if_false]
  have hmarker := keeps_writeMarker hstaged plan.dependency.url m₃ hm₃
  rcases hwrite : exec (writeMarker p plan.dependency.url) m₃ with ⟨r, m₄⟩
  rw [hwrite] at hmarker
  refine ⟨r, m₄, rfl, hmarker, fun hok => ?_⟩
  cases hok
  obtain ⟨hbrief, bytes, number, mode, hencode, hmode, hnew, htree⟩ := writeMarker_ok hstaged hm₃.files hwrite
  have hfiles : m₃.files = m₂.files := hsame.files
  rw [hfiles] at hmode hnew htree
  have hkept : ∀ other ∈ plan.binaries, Keeps (before.Holds (· = m₂.files)) (verifyBinary p plan.dependency.url other) :=
    fun other _ => keeps_verifyBinary _ p plan.dependency.url other
  have hverified : ∀ binary ∈ plan.binaries, (m₂.files.tree s).Verifies binary ∧
      ∃ name, (m₂.files.tree s).Finds binary name ∧ byteLength (p / name).toText < pathLimit := by
    intro binary hbinary
    obtain ⟨m₅, m₆, hm₅, hpassed⟩ := allM_true hkept ⟨hm₂.world, rfl⟩ hrun binary hbinary
    exact verifies_of_verifyBinary (hstaged.reached hm₂.files) hm₂.files.sound hstaged.sendable (hslash binary hbinary) hm₅.files hpassed
  refine ⟨⟨hbrief, fun binary hbinary hne => ?_⟩, fun hwild =>
    .intro (hprepares rfl hwild) (fun binary hbinary => (hverified binary hbinary).1) hencode hmode hnew htree⟩
  obtain ⟨-, name, hfinds, hlength⟩ := hverified binary hbinary
  exact ⟨name, htree ▸ (Tree.finds_put_marker hne).2 hfinds, hlength⟩

end Installation

/-- What is there once a staging directory is filled: the tree of an installation, from an archive that was delivered. -/
structure Filled (m : Machine) (plan : Plan) (p : FilePath) (s : Location) (m' : Machine) : Prop where
  holds : m.Holds (Sealed .none [s] m.files) m'
  web : Url.IsWeb plan.dependency.url
  brief : Installation.IsBrief plan.binaries p (m'.files.tree s)
  tree : (∀ binary ∈ plan.binaries, ∀ x ∈ binaryNames binary, Glob.hasWildcard x = false) → ∃ content unpacked,
    m.server.Delivers plan.dependency.url content ∧ Unpacked plan.dependency.archiveType content unpacked ∧
      Tree.Built plan.dependency.url plan.binaries unpacked (m'.files.tree s)

/-- A staging directory is filled and tried to be put in place, or something fails before that. -/
theorem Installation.exec_fill (i : Installation) (client : Option Client) {plan : Plan} (hstaged : Staged m.files p s)
    (hquiet : m.server.Undisturbed) (hname : IsComponent (archiveName plan.dependency.url))
    (hslash : ∀ binary ∈ plan.binaries, CodePoint.char '/' ∉ binary)
    (hplain : ∀ content, m.server.Delivers plan.dependency.url content →
      IsPlain m.files p.toText plan.dependency.archiveType content) :
    (∃ e m', exec (i.fill client plan p) m = (.error e, m') ∧ m.Holds (Sealed .none [s] m.files) m') ∨
      ∃ m', Filled m plan p s m' ∧ IsLoggable m.threshold p.toText ∧
        exec (i.fill client plan p) m = exec (i.settle plan p (ofText plan.destination) attempts) m' := by
  rw [exec_fill_eq]
  obtain ⟨hdownload, hunpacked⟩ := exec_downloadArchive client i.settings.timeout hquiet hstaged.ready hname hplain
  rcases hrun : exec (downloadArchive client i.settings.timeout plan.dependency.url p.toText plan.dependency.archiveType) m with ⟨r, m₁⟩
  rw [hrun] at hdownload
  cases r with
  | error e => exact .inl ⟨e, m₁, exec_bind_of_error hrun, hdownload⟩
  | ok _ =>
  rw [exec_bind_of_ok hrun]
  obtain ⟨hloggable, hweb, content, hdelivers, hcontent⟩ := hunpacked m₁ hrun
  obtain ⟨r, m₂, hrun, hm₂, hbuilt⟩ := exec_finish hstaged hdownload hslash
  cases r with
  | error e => exact .inl ⟨e, m₂, exec_bind_of_error hrun, hm₂⟩
  | ok _ =>
  obtain ⟨hbrief, hbuilt⟩ := hbuilt rfl
  exact .inr ⟨m₂, ⟨hm₂, hweb, hbrief, fun hwild => ⟨content, m₁.files.tree s, hdelivers, hcontent, hbuilt hwild⟩⟩, hloggable,
    exec_bind_of_ok hrun⟩

end Prebuilt
