import Prebuilt.Proofs.Files.Beside
/-!
Paths of what lies in a directory or beneath it. Where no link lies there, such a path leads straight down, so what stands
at it is what stands at the location of the same names.
-/
set_option autoImplicit false

namespace Prebuilt

variable {p : FilePath} {names above more : List Text} {name last : Text}

theorem Text.joinWith_append (sep : Text) {a b : List Text} (ha : a ≠ []) (hb : b ≠ []) :
    joinWith sep (a ++ b) = joinWith sep a ++ sep ++ joinWith sep b := by
  induction a with
  | nil => exact absurd rfl ha
  | cons x r ih =>
    cases r with
    | nil =>
      obtain ⟨y, ys, rfl⟩ := List.exists_cons_of_ne_nil hb
      rfl
    | cons y ys =>
      have hrest := ih (by simp)
      simp only [List.cons_append, joinWith] at hrest ⊢
      rw [hrest]
      simp

/-- A component that has an effect. -/
structure FilePath.IsStep (name : Text) : Prop where
  isPart : isPart name = true
  noSlash : CodePoint.char '/' ∉ name

theorem FileSystem.IsComponent.isStep (h : IsComponent name) : FilePath.IsStep name := ⟨h.isName.1, h.noSlash⟩

theorem FilePath.isStep_of_mem_names {path : Text} (h : name ∈ Path.names path) : IsStep name :=
  ⟨Path.isPart_of_mem_names h, Path.no_slash_of_mem_names h⟩

namespace FilePath

/-- The path of something in a directory or beneath it. -/
def under (p : FilePath) (names : List Text) : FilePath := ⟨p.root, p.parts ++ names⟩

theorem under_nil (p : FilePath) : p.under [] = p := by rw [under, List.append_nil]

theorem div_eq_under (p : FilePath) (hslash : CodePoint.char '/' ∉ name) : p / name = p.under (Path.names name) := by
  have hroot : (ofText name).root = [] := by
    cases name with
    | nil => rfl
    | cons c r =>
      have hc : Path.isSlash c = false := beq_eq_false_iff_ne.2 fun he => hslash (by simp [he])
      simp [ofText, Path.leadingSlashes, hc]
  show p.append (ofText name) = _
  rw [append, hroot, List.isEmpty_nil, if_pos rfl]
  rfl

theorem Tidy.under (hp : p.Tidy) (hnames : ∀ name ∈ names, IsStep name) : (p.under names).Tidy where
  root := hp.root
  isPart name h := (List.mem_append.1 h).elim (hp.isPart name) fun h => (hnames name h).isPart
  noSlash name h := (List.mem_append.1 h).elim (hp.noSlash name) fun h => (hnames name h).noSlash

theorem Tidy.toText_under (hp : p.Tidy) (hne : p.parts ≠ []) (hnames : names ≠ []) (hsteps : ∀ name ∈ names, IsStep name) :
    (p.under names).toText = p.toText ++ "/" ++ Text.joinWith "/" names := by
  rw [(hp.under hsteps).toText_eq (by simp [FilePath.under, hne]), hp.toText_eq hne, FilePath.under,
    Text.joinWith_append _ hne hnames]
  simp

theorem Tidy.endsInSlash_toText (hp : p.Tidy) (hne : p.parts ≠ []) : Path.endsInSlash p.toText = false := by
  rw [Path.endsInSlash, beq_eq_false_iff_ne]
  intro hslash
  obtain ⟨a, ha⟩ := List.getLast?_eq_some_iff.1 hslash
  have hbase := hp.base_toText (List.getLast?_eq_some_getLast hne)
  have hempty : Path.base (a ++ [CodePoint.char '/']) = [] := Path.base_append_slash a (by simp)
  rw [ha, hempty] at hbase
  have hpart := hp.isPart _ (List.getLast_mem hne)
  rw [← hbase] at hpart
  cases hpart

theorem Tidy.isAbsolute_under (hp : p.Tidy) (hsteps : ∀ name ∈ names, IsStep name) :
    Path.isAbsolute (p.under names).toText = Path.isAbsolute p.toText := by
  rw [(hp.under hsteps).isAbsolute_toText, hp.isAbsolute_toText]
  rfl

end FilePath

namespace FileSystem

open FilePath

variable {fs : FileSystem} {s d l : Location} {node : Node} {path : Text} {n : Nat} {links : Nat} {purpose : Purpose}

theorem descend_append (d : Location) (a b : List Text) : descend d (a ++ b) = descend (descend d a) b := by simp [descend]

theorem descend_concat (d : Location) (above : List Text) (last : Text) :
    descend d (above ++ [last]) = child (descend d above) last := by simp [descend, child]

/-- Names of things in directories are what they are. -/
theorem descend_of_isEntryName (h : ∀ name ∈ names, IsEntryName name) : descend d names = d ++ names := by
  rw [descend, List.map_congr_left fun name hname => (h name hname).canonical, List.map_id']

theorem IsEntryName.isComponent (h : IsEntryName name) : IsComponent name := ⟨h.isName, h.noSlash⟩

/-- A path that ends in two dots leads to a directory. -/
theorem isDir_of_dots (hp : p.Tidy) (hparts : p.parts = above ++ [("..": Text)]) (hroot : fs.Rooted)
    (h : fs.status p.toText true = .ok (l, node)) : node.isDirectory = true := by
  obtain ⟨empties, -, hsplit⟩ := hp.splitOn_toText (by simp [hparts])
  simp only [FileSystem.status, FileSystem.place, if_true, bind, Except.bind] at h
  cases hstart : fs.start p.toText with
  | error e => simp [hstart] at h
  | ok d =>
    obtain ⟨rfl, hdir⟩ := start_ok hstart
    simp only [hstart] at h
    cases hwalk : fs.walk .target linkLimit (fs.origin p.toText) (Text.splitOn '/' p.toText) with
    | error e => simp [hwalk] at h
    | ok place =>
      rw [hsplit, hparts, ← List.append_assoc] at hwalk
      obtain ⟨k, d', -, hreach, hlast⟩ := walk_append_ok (b := [("..": Text)]) ⟨by simp, by simp⟩ hwalk
      obtain ⟨mode, hmode⟩ := (hreach.isDir hroot hdir).dropLast hroot
      rw [walk_up, walk, hmode] at hlast
      rw [hsplit, hparts, ← List.append_assoc, hwalk, ← Except.ok.inj hlast] at h
      cases h
      rfl

/-- A directory with a path of its own, and nothing but files and directories beneath it. -/
structure Reached (fs : FileSystem) (p : FilePath) (s : Location) : Prop where
  tidy : p.Tidy
  addresses : fs.Addresses p.toText s
  isDir : fs.IsDir s
  plain : ∀ l node, s <+: l → fs.get? l = some node → Links.none.Allows node
  rooted : fs.Rooted

theorem Reached.noLink (h : fs.Reached p s) (l : Location) (hl : s <+: l) : ¬ fs.IsLink l := fun ⟨_, hg⟩ => h.plain l _ hl hg

theorem Reached.cases (h : fs.Reached p s) (hl : s <+: l) :
    fs.get? l = none ∨ fs.IsDir l ∨ ∃ node, fs.get? l = some node ∧ node.isFile = true := by
  cases hg : fs.get? l with
  | none => exact .inl rfl
  | some node =>
    cases node with
    | directory mode => exact .inr (.inl ⟨mode, hg⟩)
    | file number mode content => exact .inr (.inr ⟨_, rfl, rfl⟩)
    | link target => exact absurd ⟨target, hg⟩ (h.noLink l hl)
    | special number mode => exact (h.plain l _ hl hg).elim

theorem Reached.status (h : fs.Reached p s) : ∃ mode, fs.status p.toText true = .ok (s, .directory mode) := by
  obtain ⟨mode, hg⟩ := h.isDir
  exact ⟨mode, by rw [h.addresses.status (.inr (h.noLink s List.prefix_rfl)), hg]⟩

theorem Reached.reaches (h : fs.Reached p s) : ∃ n, n ≤ linkLimit ∧ fs.start p.toText = .ok (fs.origin p.toText) ∧
    fs.Reaches n (fs.origin p.toText) p.parts s := by
  obtain ⟨mode, hstatus⟩ := h.status
  obtain ⟨n, hn, hstart, hreach⟩ := status_directory hstatus
  exact ⟨n, hn, hstart, h.tidy.names_toText ▸ hreach⟩

theorem Reached.parts_ne_nil (h : fs.Reached p s) : p.parts ≠ [] := by
  obtain ⟨above, last, -, -, hnames, -⟩ := h.addresses.names
  rw [h.tidy.names_toText] at hnames
  simp [hnames]

theorem Reached.origin_under (h : fs.Reached p s) (hsteps : ∀ name ∈ names, IsStep name) :
    fs.origin (p.under names).toText = fs.origin p.toText := by
  rw [origin, origin, h.tidy.isAbsolute_under hsteps]

/-- The components of such a path: some that reach the directory, and the names. -/
theorem Reached.splitOn_under (h : fs.Reached p s) (hsteps : ∀ name ∈ names, IsStep name) : ∃ front n,
    Text.splitOn '/' (p.under names).toText = front ++ names ∧ n ≤ linkLimit ∧
      fs.Reaches n (fs.origin (p.under names).toText) front s := by
  obtain ⟨n, hn, -, hreach⟩ := h.reaches
  obtain ⟨empties, hempties, hsplit⟩ := (h.tidy.under hsteps).splitOn_toText (by simp [FilePath.under, h.parts_ne_nil])
  refine ⟨empties ++ p.parts, n, by rw [hsplit, List.append_assoc]; rfl, hn, ?_⟩
  rw [h.origin_under hsteps]
  refine follows_filter.1 ?_
  rw [List.filter_append, List.filter_eq_nil_iff.2 fun e he => by rw [hempties e he]; decide, List.nil_append,
    List.filter_eq_self.2 h.tidy.isPart]
  exact hreach

/-- What is found at such a path lies where its names lead. -/
theorem Reached.status_under_ok (h : fs.Reached p s) (hnames : ∀ name ∈ names, IsComponent name)
    (hstatus : fs.status (p.under names).toText true = .ok (l, node)) :
    l = descend s names ∧ fs.get? l = some node := by
  obtain ⟨front, n, hsplit, -, hreach⟩ := h.splitOn_under fun name hname => (hnames name hname).isStep
  obtain ⟨⟨k, hleads⟩, hg⟩ := status_ok h.rooted hstatus
  refine ⟨?_, hg⟩
  have hleads := follows_names.2 hleads
  rw [hsplit] at hleads
  obtain ⟨d', _, _, htop, hrest, -⟩ := hleads.split
  obtain rfl := (htop.deterministic hreach).2
  rw [hrest.eq_descend h.noLink fun name hname => (hnames name hname).isName.2,
    List.filter_eq_self.2 fun name hname => (hnames name hname).isName.1]

/-- Names lead down to what is there, unless one of them is too long. -/
theorem walk_descend (hroot : fs.Rooted) (hlinks : ∀ l, d <+: l → ¬ fs.IsLink l) (hnames : ∀ name ∈ names, IsName name)
    (hne : names ≠ []) (hg : fs.get? (descend d names) = some node) :
    fs.walk .target links d names = .ok (.taken (descend d names) node) ∨
      fs.walk .target links d names = .error .nameTooLong := by
  induction names generalizing d with
  | nil => exact absurd rfl hne
  | cons name rest ih =>
    have hname := hnames name (by simp)
    by_cases hlong : nameLimit < byteLength name
    · right
      cases rest with
      | nil => rw [walk_last hname, if_pos hlong]
      | cons next more => rw [walk_name hname (continues_cons (hnames next (by simp))), if_pos hlong]
    · rw [descend_cons] at hg ⊢
      cases rest with
      | nil =>
        have hleaf : ¬ fs.IsLink (child d name) := hlinks _ (List.prefix_append ..)
        have hg : fs.get? (child d name) = some node := by simpa [descend] using hg
        left
        rw [walk_last hname, if_neg hlong, hg]
        cases node with
        | link target => exact absurd ⟨target, hg⟩ hleaf
        | _ => simp [descend]
      | cons next more =>
        have hbelow : child d name <+: descend (child d name) (next :: more) := List.prefix_append ..
        obtain ⟨mode, hmode⟩ := hroot.isDir_of_below hbelow (by simp [descend]) (by rw [hg]; simp)
        rw [walk_name hname (continues_cons (hnames next (by simp))), if_neg hlong, hmode]
        exact ih (fun l hl => hlinks l ((List.prefix_append ..).trans hl)) (fun part hpart => hnames part (by simp [hpart]))
          (by simp) hg

/-- What lies beneath is found, unless its path or a name is too long. -/
theorem Reached.status_under (h : fs.Reached p s) (hnames : ∀ name ∈ names, IsComponent name) (hne : names ≠ [])
    (hg : fs.get? (descend s names) = some node) :
    fs.status (p.under names).toText true = .ok (descend s names, node) ∨
      fs.status (p.under names).toText true = .error .nameTooLong := by
  have hsteps : ∀ name ∈ names, IsStep name := fun name hname => (hnames name hname).isStep
  obtain ⟨front, n, hsplit, hn, hreach⟩ := h.splitOn_under hsteps
  obtain ⟨-, -, hstart, -⟩ := h.reaches
  have hstart' : Path.isAbsolute (p.under names).toText = true ∨ fs.IsDir fs.workingDirectory := by
    rw [h.tidy.isAbsolute_under hsteps]
    exact (start_begin hstart).2
  simp only [FileSystem.status, if_true, FileSystem.place, start_cases (toText_ne_nil _) hstart', bind, Except.bind]
  by_cases hlong : pathLimit ≤ byteLength (p.under names).toText
  · simp [hlong]
  · obtain ⟨name, more, rfl⟩ := List.exists_cons_of_ne_nil hne
    have hcontinues : Continues .target (name :: more) := continues_cons (hnames name (by simp)).isName
    simp only [if_neg hlong, hsplit, walk_append_of_reaches hcontinues hreach hn]
    exact (walk_descend h.rooted h.noLink (fun part hpart => (hnames part hpart).isName) (by simp) hg).imp
      (fun hok => by rw [hok]) fun herror => by rw [herror]

/-- If the path leads anywhere, it addresses the location that its names lead to. -/
theorem Reached.addresses_under {place : Place} (h : fs.Reached p s) (hnames : ∀ name ∈ names, IsComponent name) (hne : names ≠ [])
    (hplace : fs.place purpose (p.under names).toText = .ok place) : fs.Addresses (p.under names).toText (descend s names) := by
  obtain ⟨front, n, hsplit, -, hreach⟩ := h.splitOn_under fun name hname => (hnames name hname).isStep
  obtain ⟨above, last, rfl⟩ := names.eq_nil_or_concat'.resolve_left hne
  have hlast : IsName last := (hnames last (by simp)).isName
  have hdown : ∀ name ∈ above, IsComponent name := fun name hname => hnames name (by simp [hname])
  rw [← List.append_assoc] at hsplit
  simp only [FileSystem.place, bind, Except.bind] at hplace
  cases hstart : fs.start (p.under (above ++ [last])).toText with
  | error e => simp [hstart] at hplace
  | ok d =>
    obtain ⟨rfl, hdir⟩ := start_ok hstart
    simp only [hstart, hsplit] at hplace
    obtain ⟨k, d', hk, hreach', hend⟩ := walk_append_ok (continues_cons hlast) hplace
    rw [walk_last hlast] at hend
    split at hend
    · cases hend
    · rename_i hlen
      obtain ⟨t, _, _, htop, hrest, -⟩ := hreach'.leads.split
      obtain rfl := (htop.deterministic hreach).2
      have hd' : d' = descend t above := by
        rw [hrest.eq_descend h.noLink fun name hname => (hdown name hname).isName.2,
          List.filter_eq_self.2 fun name hname => (hdown name hname).isName.1]
      rw [descend_concat, ← hd']
      exact .intro hsplit hlast (Nat.not_lt.1 hlen) hstart hk hreach' (hreach'.isDir h.rooted hdir)

theorem Addresses.nameable (h : fs.Addresses path l) : Nameable l := by
  cases h with
  | intro hsplit hname hshort =>
    refine ⟨_, _, rfl, hname, ?_, hshort⟩
    exact Text.not_mem_of_mem_splitOn (by rw [hsplit]; simp)

/-- What a path without closing slashes names is what it addresses. -/
theorem Names.addresses (hroot : fs.Rooted) (hslash : Path.endsInSlash path = false) (h : fs.Names path l) :
    fs.Addresses path l := by
  obtain ⟨found, name, hfound, hname, hshort, rfl⟩ := h
  exact addresses_of_lastName hroot hfound hname hshort hslash

/-- Renaming to or from such a path is about the location that its names lead to. -/
theorem Reached.names_under (h : fs.Reached p s) (hnames : ∀ name ∈ names, IsComponent name) (hne : names ≠ [])
    (hl : fs.Names (p.under names).toText l) : l = descend s names ∧ fs.Addresses (p.under names).toText l := by
  have hslash := (h.tidy.under fun name hname => (hnames name hname).isStep).endsInSlash_toText
    (by simp [FilePath.under, h.parts_ne_nil])
  have haddr := hl.addresses h.rooted hslash
  exact ⟨haddr.unique (h.addresses_under hnames hne (haddr.place .entry (.inl rfl))), haddr⟩

/-- Two dots are no name. -/
theorem not_names_of_dots (hp : p.Tidy) (hparts : p.parts = above ++ [("..": Text)]) (hroot : fs.Rooted) : ¬ fs.Names p.toText l := by
  rintro ⟨found, name, hfound, hname, -, -⟩
  obtain ⟨-, -, -, -, -, -, hlast⟩ := lastName_ok hroot hfound
  obtain ⟨hisName, hlast⟩ := hlast name hname
  rw [dropEndSlashes_of_not_endsInSlash (hp.endsInSlash_toText (by simp [hparts])), Path.getLast?_splitOn,
    hp.base_toText (by rw [hparts, List.getLast?_concat]), Option.some.injEq] at hlast
  exact hisName.2 hlast.symm

end FileSystem

end Prebuilt
