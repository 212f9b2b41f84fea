import Prebuilt.Proofs.Actions.Writing
import Prebuilt.Proofs.Files.Searching
import Prebuilt.Proofs.Install.Placing
/-!
Where a binary is found in a staging directory: at the top under one of its names, or else as the first file of such a name
beneath, which is moved to the top. Nothing but that file is touched.
-/
set_option autoImplicit false

namespace Prebuilt

open FileSystem Action FilePath

namespace Action

variable {α β : Type} {m m' : Machine} {path : Text}

/-! ## Looking for the first of several -/

theorem findM?_cases {f : α → Action Bool} (hf : ∀ a, (exec (f a) m).2 = m) (items : List α) :
    (∃ e, exec (items.findM? f) m = (.error e, m)) ∨
      exec (items.findM? f) m = (.ok none, m) ∧ (∀ a ∈ items, exec (f a) m = (.ok false, m)) ∨
      ∃ before a after, items = before ++ a :: after ∧ exec (items.findM? f) m = (.ok (some a), m) ∧
        exec (f a) m = (.ok true, m) ∧ ∀ x ∈ before, exec (f x) m = (.ok false, m) := by
  induction items with
  | nil => exact .inr (.inl ⟨rfl, nofun⟩)
  | cons a r ih =>
    have hsame := hf a
    rcases hrun : exec (f a) m with ⟨result, m₁⟩
    rw [hrun] at hsame
    obtain rfl : m₁ = m := hsame
    simp only [List.findM?]
    rcases result with e | _ | _
    · exact .inl ⟨e, exec_bind_of_error hrun⟩
    · rw [exec_bind_of_ok hrun]
      rcases ih with ⟨e, he⟩ | ⟨he, hall⟩ | ⟨before, b, after, rfl, he, hb, hbefore⟩
      · exact .inl ⟨e, he⟩
      · exact .inr (.inl ⟨he, List.forall_mem_cons.2 ⟨hrun, hall⟩⟩)
      · exact .inr (.inr ⟨a :: before, b, after, rfl, he, hb, List.forall_mem_cons.2 ⟨hrun, hbefore⟩⟩)
    · rw [exec_bind_of_ok hrun]
      exact .inr (.inr ⟨[], a, r, rfl, rfl, hrun, nofun⟩)

/-- Attempts that change something only when they succeed. -/
theorem findSomeM?_cases {f : α → Action (Option β)} {items : List α} (hf : ∀ a ∈ items, (∃ e, exec (f a) m = (.error e, m)) ∨
    exec (f a) m = (.ok none, m) ∨ ∃ b m', exec (f a) m = (.ok (some b), m')) :
    (∃ e, exec (items.findSomeM? f) m = (.error e, m)) ∨
      exec (items.findSomeM? f) m = (.ok none, m) ∨
      ∃ before a after b m', items = before ++ a :: after ∧ exec (items.findSomeM? f) m = (.ok (some b), m') ∧
        exec (f a) m = (.ok (some b), m') ∧ ∀ x ∈ before, exec (f x) m = (.ok none, m) := by
  induction items with
  | nil => exact .inr (.inl rfl)
  | cons a r ih =>
    obtain ⟨ha, hr⟩ := List.forall_mem_cons.1 hf
    simp only [List.findSomeM?]
    rcases ha with ⟨e, hrun⟩ | hrun | ⟨b, m', hrun⟩
    · exact .inl ⟨e, exec_bind_of_error hrun⟩
    · rw [exec_bind_of_ok hrun]
      rcases ih hr with ⟨e, he⟩ | he | ⟨before, x, after, b, m', rfl, he, hx, hbefore⟩
      · exact .inl ⟨e, he⟩
      · exact .inr (.inl he)
      · exact .inr (.inr ⟨a :: before, x, after, b, m', rfl, he, hx, List.forall_mem_cons.2 ⟨hrun, hbefore⟩⟩)
    · rw [exec_bind_of_ok hrun]
      exact .inr (.inr ⟨[], a, r, b, m', rfl, rfl, hrun, nofun⟩)

/-! ## Files -/

/-- A file stands at the path, and the path can be handed to the system. -/
def Shows (fs : FileSystem) (path : Text) : Prop := IsSendable path ∧ ∃ node, fs.node? path = .ok (some node) ∧ node.isFile = true

/-- The system can say that no file stands at the path, if it can be asked. -/
def Lacks (fs : FileSystem) (path : Text) : Prop := IsSendable path → ∃ node, fs.node? path = .ok node ∧ ∀ n ∈ node, n.isFile = false

theorem isFile_cases (path : Text) (m : Machine) : (∃ e, exec (isFile path) m = (.error e, m)) ∨
    exec (isFile path) m = (.ok true, m) ∧ Shows m.files path ∨ exec (isFile path) m = (.ok false, m) ∧ Lacks m.files path := by
  rw [isFile, exec_bind_of_ok (exec_attempt _)]
  rcases isSendable_or path with hsend | ⟨e, -, he⟩
  · rw [hsend.exec m]
    simp only [exec_bind_of_ok exec_files]
    cases hnode : m.files.node? path with
    | error e => exact .inl ⟨e, rfl⟩
    | ok node =>
      cases node with
      | none => exact .inr (.inr ⟨rfl, fun _ => ⟨none, hnode, by simp⟩⟩)
      | some node =>
        cases hfile : node.isFile with
        | true => exact .inr (.inl ⟨congrArg (fun b => (Except.ok b, m)) hfile, hsend, node, hnode, hfile⟩)
        | false => exact .inr (.inr ⟨congrArg (fun b => (Except.ok b, m)) hfile, fun _ => ⟨some node, hnode, by simp [hfile]⟩⟩)
  · simp only [he m]
    refine .inr (.inr ⟨rfl, fun hsend => ?_⟩)
    cases (hsend.exec m).symm.trans (he m)

theorem exec_isFile (path : Text) (m : Machine) : (exec (isFile path) m).2 = m := (looks_isFile path).still m

theorem isFile_true (h : exec (isFile path) m = (.ok true, m')) : Shows m.files path := by
  rcases isFile_cases path m with ⟨e, he⟩ | ⟨-, hshows⟩ | ⟨he, -⟩
  · cases he.symm.trans h
  · exact hshows
  · cases he.symm.trans h

theorem isFile_false (h : exec (isFile path) m = (.ok false, m')) : Lacks m.files path := by
  rcases isFile_cases path m with ⟨e, he⟩ | ⟨he, -⟩ | ⟨-, hlacks⟩
  · cases he.symm.trans h
  · cases he.symm.trans h
  · exact hlacks

theorem Shows.not_lacks {fs : FileSystem} (h : Shows fs path) : ¬ Lacks fs path := fun hlacks => by
  obtain ⟨hsend, node, hnode, hfile⟩ := h
  obtain ⟨node', hnode', hall⟩ := hlacks hsend
  obtain rfl := Except.ok.inj (hnode.symm.trans hnode')
  rw [hall node rfl] at hfile
  cases hfile

theorem node?_some {fs : FileSystem} {node : Node} (h : fs.node? path = .ok (some node)) :
    ∃ l, fs.status path true = .ok (l, node) := by
  rw [node?] at h
  split at h
  · rename_i l other hstatus
    cases h
    exact ⟨l, hstatus⟩
  · split at h <;> cases h

end Action

namespace FileSystem

variable {fs : FileSystem} {p : FilePath} {s l : Location} {names : List Text} {name : Text} {node : Node}

/-- A file stands at the location. -/
def IsFile (fs : FileSystem) (l : Location) : Prop := ∃ node, fs.get? l = some node ∧ node.isFile = true

theorem IsFile.not_isDir (h : fs.IsFile l) : ¬ fs.IsDir l := by
  rintro ⟨mode, hg⟩
  obtain ⟨node, hg', hfile⟩ := h
  rw [hg] at hg'
  cases hg'
  cases hfile

/-- A file that a path beneath the directory shows stands where the names lead. -/
theorem Reached.isFile_of_shows (h : fs.Reached p s) (hnames : ∀ name ∈ names, IsComponent name)
    (hshows : Shows fs (p.under names).toText) : names ≠ [] ∧ fs.IsFile (descend s names) ∧
      fs.Addresses (p.under names).toText (descend s names) := by
  obtain ⟨-, node, hnode, hfile⟩ := hshows
  obtain ⟨l, hstatus⟩ := node?_some hnode
  obtain ⟨rfl, hg⟩ := h.status_under_ok hnames hstatus
  have hne : names ≠ [] := by
    rintro rfl
    obtain ⟨mode, hdir⟩ := h.isDir
    simp only [descend, List.map_nil, List.append_nil] at hg
    rw [hdir] at hg
    cases hg
    cases hfile
  refine ⟨hne, ⟨node, hg, hfile⟩, ?_⟩
  cases hplace : fs.place .target (p.under names).toText with
  | ok place => exact h.addresses_under hnames hne hplace
  | error e => simp [FileSystem.status, hplace] at hstatus

/-- Where a path beneath the directory shows no file there is none. -/
theorem Reached.not_isFile_of_lacks (h : fs.Reached p s) (hnames : ∀ name ∈ names, IsComponent name) (hne : names ≠ [])
    (hsend : IsSendable (p.under names).toText) (hlacks : Lacks fs (p.under names).toText) : ¬ fs.IsFile (descend s names) := by
  rintro ⟨node, hg, hfile⟩
  obtain ⟨node', hnode, hall⟩ := hlacks hsend
  rcases h.status_under hnames hne hg with hstatus | hstatus
  · rw [node?, hstatus] at hnode
    obtain rfl := Except.ok.inj hnode
    rw [hall node rfl] at hfile
    cases hfile
  · rw [node?, hstatus] at hnode
    cases hnode

theorem not_shows_of_dots {above : List Text} (hp : p.Tidy) (hparts : p.parts = above ++ [("..": Text)]) (hroot : fs.Rooted) :
    ¬ Shows fs p.toText := by
  rintro ⟨-, node, hnode, hfile⟩
  obtain ⟨l, hstatus⟩ := node?_some hnode
  have hdir := isDir_of_dots hp hparts hroot hstatus
  cases node <;> simp [Node.isDirectory, Node.isFile] at hdir hfile

/-- What a search gives and shows is a file beneath the directory. -/
theorem Reached.components_of_shows (h : fs.Reached p s) (htrail : IsTrail names)
    (hshows : Shows fs (p.under names).toText) : ∀ name ∈ names, IsComponent name := by
  cases htrail with
  | names hnames => exact hnames
  | @dots below hbelow =>
    have hparts : (p.under (below ++ [("..": Text)])).parts = p.parts ++ below ++ [("..": Text)] := by simp [under]
    exact absurd hshows (not_shows_of_dots (h.tidy.under (IsTrail.dots hbelow).steps) hparts h.rooted)

/-! ## Beneath the top -/

/-- No file of the name is found beneath the directory. -/
def HasNone (fs : FileSystem) (p : FilePath) (name : Text) : Prop :=
  ∃ found, fs.search p name = .ok found ∧ ∀ c ∈ found, Lacks fs c.toText

/-- The first file that a search for the name gives. -/
def IsChosen (fs : FileSystem) (p : FilePath) (name : Text) (names : List Text) : Prop :=
  ∃ before after, fs.search p name = .ok (before ++ p.under names :: after) ∧ Shows fs (p.under names).toText ∧
    ∀ c ∈ before, Lacks fs c.toText

/-- A file beneath the directory moves to a free name at the top. -/
structure Raises (fs : FileSystem) (p : FilePath) (s : Location) (name : Text) (names : List Text) (fs' : FileSystem) : Prop where
  component : IsComponent name
  sendable : IsSendable (p / name).toText
  addresses : fs.Addresses (p / name).toText (child s name)
  components : ∀ part ∈ names, IsComponent part
  isFile : fs.IsFile (descend s names)
  free : fs.get? (child s name) = none
  files : fs' = fs.move (descend s names) (child s name)

/-- A rename of a file to a name at the top that shows no file needs the name to be free. -/
theorem Reached.raises {fs' : FileSystem} (h : fs.Reached p s) (hslash : CodePoint.char '/' ∉ name)
    (hlacks : Lacks fs (p / name).toText) (htrail : IsTrail names) (hshows : Shows fs (p.under names).toText)
    (hsend : IsSendable (p / name).toText) (hrename : fs.rename (p.under names).toText (p / name).toText = .ok fs') :
    fs.Raises p s name names fs' := by
  have hcomponents := h.components_of_shows htrail hshows
  obtain ⟨hne, hfile, hsource⟩ := h.isFile_of_shows hcomponents hshows
  obtain ⟨a, b, ha, hb, -, hab, hba, -⟩ := rename_ok hrename
  obtain ⟨rfl, -⟩ := h.names_under hcomponents hne ha
  rw [p.div_eq_under hslash] at hb hlacks hsend hrename
  rcases part_cases name with hpart | rfl | hname
  · have hnil : Path.names name = [] := by rw [Path.names_of_no_slash hslash, hpart]; rfl
    rw [hnil, p.under_nil] at hb
    obtain rfl := h.addresses.unique (Names.addresses h.rooted h.addresses.endsInSlash hb)
    obtain ⟨above, last, rfl⟩ := names.eq_nil_or_concat'.resolve_left hne
    exact absurd (by simp [descend]) hba
  · exact absurd hb (not_names_of_dots (h.tidy.under fun part hpart => isStep_of_mem_names hpart) rfl h.rooted)
  · have hcomponent : IsComponent name := ⟨hname, hslash⟩
    have hnames : Path.names name = [name] := Path.names_of_part hname.1 hslash
    rw [hnames] at hb hlacks hsend hrename
    obtain ⟨rfl, htarget⟩ := h.names_under (by simpa using hcomponent) (by simp) hb
    have hdown : descend s [name] = child s name := rfl
    rw [hdown] at hab hba htarget
    rw [hsource.rename htarget hab hba, renamed] at hrename
    obtain ⟨node, hg, hisFile⟩ := hfile
    have hfree : fs.get? (child s name) = none := by
      rcases h.cases (l := child s name) (List.prefix_append ..) with hnone | ⟨mode, hdir⟩ | hthere
      · exact hnone
      · have hother : isSame (descend s names, node) (child s name, .directory mode) = false := by
          have hdiff : descend s names ≠ child s name := by
            rintro he
            rw [he, hdir] at hg
            cases hg
            cases hisFile
          cases node <;> simp [isSame, Node.number?, hdiff]
        rw [hg, hdir] at hrename
        cases node <;> simp [hother, Node.isDirectory, Node.isFile] at hrename hisFile
      · exact absurd hthere (h.not_isFile_of_lacks (by simpa using hcomponent) (by simp) hsend hlacks)
    rw [hg, hfree] at hrename
    rw [← hnames, ← p.div_eq_under hslash] at hsend htarget
    exact ⟨hcomponent, hsend, htarget, hcomponents, ⟨node, hg, hisFile⟩, hfree, (Except.ok.inj hrename).symm⟩

end FileSystem

namespace Action

variable {m m' : Machine} {p : FilePath} {s : Location} {names : List Text} {name binary : Text}

theorem isSendable_of_requestTwo {source target : Text} {change : FileSystem → Except Errno FileSystem}
    (h : exec (requestTwo source target change) m = (.ok (), m')) : IsSendable source ∧ IsSendable target := by
  by_contra hsend
  obtain ⟨e, -, he⟩ : ∃ e, e.isSystem = false ∧ exec (requestTwo source target change) m = (.error e, m) :=
    exec_requestTwo_unsendable hsend m
  cases he.symm.trans h

theorem findM?_isFileAt {α : Type} (path : α → FilePath) (items : List α) (m : Machine) :
    (∃ e, exec (items.findM? fun a => isFileAt (path a)) m = (.error e, m)) ∨
      exec (items.findM? fun a => isFileAt (path a)) m = (.ok none, m) ∧ (∀ a ∈ items, Lacks m.files (path a).toText) ∨
      ∃ before a after, items = before ++ a :: after ∧ exec (items.findM? fun a => isFileAt (path a)) m = (.ok (some a), m) ∧
        Shows m.files (path a).toText ∧ ∀ x ∈ before, Lacks m.files (path x).toText := by
  refine (findM?_cases (fun a => exec_isFile (path a).toText m) items).imp_right (Or.imp ?_ ?_)
  · exact fun ⟨he, hall⟩ => ⟨he, fun a ha => isFile_false (hall a ha)⟩
  · rintro ⟨before, a, after, hitems, he, ha, hbefore⟩
    exact ⟨before, a, after, hitems, he, isFile_true ha, fun x hx => isFile_false (hbefore x hx)⟩

/-- What becomes of looking for a file beneath the top that none of the name is at. -/
theorem raiseNested_cases (hsound : m.files.Sound) (h : m.files.Reached p s) (hslash : CodePoint.char '/' ∉ name)
    (hlacks : Lacks m.files (p / name).toText) : (∃ e, exec (raiseNested p name) m = (.error e, m)) ∨
      exec (raiseNested p name) m = (.ok none, m) ∧ HasNone m.files p name ∨
      ∃ names fs, exec (raiseNested p name) m = (.ok (some (p / name)), { m with files := fs }) ∧
        IsChosen m.files p name names ∧ m.files.Raises p s name names fs := by
  rw [raiseNested, exec_bind_of_ok exec_files]
  cases hsearch : m.files.search p name with
  | error e => exact .inl ⟨e, rfl⟩
  | ok found =>
    rw [exec_bind_of_ok (exec_ofExcept (.ok found))]
    rcases findM?_isFileAt (fun c => c) found m with ⟨e, he⟩ | ⟨he, hall⟩ | ⟨before, c, after, rfl, he, hshows, hbefore⟩
    · exact .inl ⟨e, exec_bind_of_error he⟩
    · exact .inr (.inl ⟨exec_bind_of_ok he, found, hsearch, hall⟩)
    · obtain ⟨names, rfl, htrail⟩ := (search_ok hsound h hslash hsearch).2 c (by simp)
      rcases requestTwo_cases (p.under names).toText (p / name).toText
        (·.rename (p.under names).toText (p / name).toText) m with ⟨e, hrun⟩ | ⟨fs, hfs, hrun⟩
      · exact .inl ⟨e, (exec_bind_of_ok he).trans (exec_bind_of_error hrun)⟩
      · refine .inr (.inr ⟨names, fs, (exec_bind_of_ok he).trans (exec_bind_of_ok hrun),
          ⟨before, after, hsearch, hshows, hbefore⟩, h.raises hslash hlacks htrail hshows ?_ hfs⟩)
        exact (isSendable_of_requestTwo hrun).2

/-- A binary that is found, under one of its names. -/
inductive Found (fs : FileSystem) (p : FilePath) (s : Location) (binary name : Text) (names : List Text) (fs' : FileSystem) : Prop
  | top {before after : List Text} : binaryNames binary = before ++ name :: after → (∀ x ∈ before, Lacks fs (p / x).toText) →
      Shows fs (p / name).toText → names = [name] → fs' = fs → Found fs p s binary name names fs'
  | beneath {before after : List Text} : binaryNames binary = before ++ name :: after →
      (∀ x ∈ binaryNames binary, Lacks fs (p / x).toText) → (∀ x ∈ before, fs.HasNone p x) → fs.IsChosen p name names →
        fs.Raises p s name names fs' → Found fs p s binary name names fs'

theorem slash_not_mem_binaryNames (hslash : CodePoint.char '/' ∉ binary) : ∀ name ∈ binaryNames binary, CodePoint.char '/' ∉ name := by
  simp [binaryNames, Installation.executableSuffix, hslash]

/-- A binary is found and lies at the top then, or nothing is touched. -/
theorem locateBinary_cases (hsound : m.files.Sound) (h : m.files.Reached p s) (hslash : CodePoint.char '/' ∉ binary) :
    (∃ e, exec (locateBinary p binary) m = (.error e, m)) ∨
      ∃ name names fs, exec (locateBinary p binary) m = (.ok (p / name), { m with files := fs }) ∧
        Found m.files p s binary name names fs := by
  have hslash := slash_not_mem_binaryNames hslash
  simp only [locateBinary]
  rcases findM?_isFileAt (fun name => p / name) (binaryNames binary) m with
    ⟨e, he⟩ | ⟨he, hlacks⟩ | ⟨before, name, after, hnames, he, hshows, hbefore⟩
  · exact .inl ⟨e, exec_bind_of_error he⟩
  · rw [exec_bind_of_ok he]
    have hcases (name : Text) (hname : name ∈ binaryNames binary) := raiseNested_cases hsound h (hslash name hname) (hlacks name hname)
    have hraises : ∀ name ∈ binaryNames binary, (∃ e, exec (raiseNested p name) m = (.error e, m)) ∨
        exec (raiseNested p name) m = (.ok none, m) ∨ ∃ path m', exec (raiseNested p name) m = (.ok (some path), m') :=
      fun name hname => (hcases name hname).imp_right (Or.imp And.left fun ⟨_, _, he, _⟩ => ⟨_, _, he⟩)
    rcases findSomeM?_cases hraises with ⟨e, hrun⟩ | hrun | ⟨before, name, after, path, m', hnames, hrun, hraise, hbefore⟩
    · exact .inl ⟨e, exec_bind_of_error hrun⟩
    · exact .inl ⟨_, exec_bind_of_ok hrun⟩
    · have hnone : ∀ x ∈ before, m.files.HasNone p x := fun x hx => by
        rcases hcases x (by simp [hnames, hx]) with ⟨e, he⟩ | ⟨-, hnone⟩ | ⟨names, fs, he, -⟩
        · cases he.symm.trans (hbefore x hx)
        · exact hnone
        · cases he.symm.trans (hbefore x hx)
      rcases hcases name (by simp [hnames]) with ⟨e, he⟩ | ⟨he, -⟩ | ⟨names, fs, he, hchosen, hmoved⟩
      · cases he.symm.trans hraise
      · cases he.symm.trans hraise
      · cases he.symm.trans hraise
        exact .inr ⟨name, names, fs, exec_bind_of_ok hrun, .beneath hnames hlacks hnone hchosen hmoved⟩
  · exact .inr ⟨name, [name], m.files, exec_bind_of_ok he, .top hnames hbefore hshows rfl rfl⟩

end Action

/-! ## What becomes of the file -/

namespace FileSystem

variable {base fs fs' : FileSystem} {p : FilePath} {s : Location} {names : List Text} {name binary : Text}

theorem Reached.shows_top (h : fs.Reached p s) (hslash : CodePoint.char '/' ∉ name) (hshows : Shows fs (p / name).toText) :
    IsComponent name ∧ fs.IsFile (child s name) ∧ fs.Addresses (p / name).toText (child s name) := by
  have hparts := p.div_eq_under hslash
  rcases part_cases name with hpart | rfl | hname
  · have hnil : Path.names name = [] := by rw [Path.names_of_no_slash hslash, hpart]; rfl
    rw [hparts, hnil] at hshows
    have hcomponents : ∀ part ∈ ([] : List Text), IsComponent part := nofun
    exact absurd rfl (h.isFile_of_shows hcomponents hshows).1
  · rw [hparts] at hshows
    exact absurd hshows (not_shows_of_dots (h.tidy.under fun part hpart => isStep_of_mem_names hpart) rfl h.rooted)
  · have hcomponent : IsComponent name := ⟨hname, hslash⟩
    rw [Path.names_of_part hname.1 hslash] at hparts
    rw [hparts] at hshows ⊢
    exact ⟨hcomponent, (h.isFile_of_shows (by simpa using hcomponent) hshows).2⟩

/-- What a binary that was found is afterwards: a file at the top, and no longer where it was. -/
structure Lifted (fs : FileSystem) (p : FilePath) (s : Location) (name : Text) (names : List Text) (fs' : FileSystem) : Prop where
  component : IsComponent name
  components : ∀ part ∈ names, IsComponent part
  sendable : IsSendable (p / name).toText
  addresses : fs'.Addresses (p / name).toText (child s name)
  isFile : fs.IsFile (descend s names)
  get? : ∀ l, fs'.get? l = if l = child s name then fs.get? (descend s names) else if l = descend s names then none else fs.get? l

theorem Raises.get?_move (h : fs.Raises p s name names fs') (hroot : fs.Rooted) (l : Location) :
    fs'.get? l = if l = child s name then fs.get? (descend s names) else if l = descend s names then none else fs.get? l := by
  rw [h.files]
  have hthere : fs.get? (descend s names) ≠ none := by
    obtain ⟨node, hg, -⟩ := h.isFile
    simp [hg]
  exact get?_move_leaf hroot h.isFile.not_isDir hthere h.free h.addresses.isDir_dropLast child_ne_nil l

theorem Raises.extends (h : fs.Raises p s name names fs') (hroot : fs.Rooted) : fs.Extends fs' := by
  obtain ⟨node, hg, hfile⟩ := h.isFile
  have hkeep {l : Location} {other : Node} (hother : other.isFile = false) (hl : fs.get? l = some other) :
      fs'.get? l = some other := by
    rw [h.get?_move hroot, if_neg, if_neg, hl]
    · rintro rfl
      rw [hg] at hl
      cases hl
      rw [hfile] at hother
      cases hother
    · rintro rfl
      rw [h.free] at hl
      cases hl
  refine ⟨fun l ⟨mode, hl⟩ => ⟨mode, hkeep rfl hl⟩, fun l target hl => hkeep rfl hl, fun hcwd => ?_⟩
  rw [h.files]
  refine moveLocation_of_outside fun hp => ?_
  by_cases heq : fs.workingDirectory = descend s names
  · exact h.isFile.not_isDir (heq ▸ hcwd)
  · exact h.isFile.not_isDir (hroot.isDir_of_below hp heq hcwd.get?_ne_none)

end FileSystem

namespace Action

variable {base fs fs' : FileSystem} {p : FilePath} {s : Location} {names : List Text} {name binary : Text}

theorem Found.lifted (h : fs.Reached p s) (hslash : CodePoint.char '/' ∉ binary) (hfound : Found fs p s binary name names fs') :
    fs.Lifted p s name names fs' := by
  cases hfound with
  | top hnames _ hshows htrail hfs =>
    have hmem : name ∈ binaryNames binary := by simp [hnames]
    have hslash : CodePoint.char '/' ∉ name := slash_not_mem_binaryNames hslash name hmem
    obtain ⟨hcomponent, hfile, haddr⟩ := h.shows_top hslash hshows
    have hdown : descend s [name] = child s name := rfl
    subst htrail hfs
    refine ⟨hcomponent, by simpa using hcomponent, hshows.1, haddr, hfile, fun l => ?_⟩
    rw [hdown]
    split
    · rename_i hl
      rw [hl]
    · rfl
  | beneath hnames _ _ _ hraises =>
    exact ⟨hraises.component, hraises.components, hraises.sendable, hraises.addresses.of_extends (hraises.extends h.rooted),
      hraises.isFile, hraises.get?_move h.rooted⟩

theorem Found.sealed (hfs : Sealed .none [s] base fs) (haway : ¬ s <+: base.workingDirectory)
    (hfound : Found fs p s binary name names fs') : Sealed .none [s] base fs' := by
  cases hfound with
  | top _ _ _ _ hsame => exact hsame ▸ hfs
  | beneath _ _ _ _ hraises =>
    obtain ⟨node, hg, hfile⟩ := hraises.isFile
    have hbeneath (more : Location) : Beneath [s] (s ++ more) := ⟨s, by simp, List.prefix_append ..⟩
    rw [hraises.files]
    exact hfs.moveLeaf (hbeneath _) (hbeneath _) hraises.addresses.nameable hraises.isFile.not_isDir hg hraises.free
      hraises.addresses.isDir_dropLast fun hp => haway (hfs.cwd ▸ (List.prefix_append ..).trans hp)

end Action

end Prebuilt
