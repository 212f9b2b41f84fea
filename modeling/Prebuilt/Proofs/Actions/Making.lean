import Prebuilt.Proofs.Actions.Confined
/-!
Directories on the way. Before anything is put at a path the directories above it are made where they are missing; all they
change is that something is a directory where nothing was, at a place that the path leads through.
-/
set_option autoImplicit false

namespace Prebuilt

namespace FileSystem

variable {fs fs' base : FileSystem} {path next : Text} {l r : Location} {mode : Nat}

/-- All that is new are directories on the way to the path. -/
structure Made (path : Text) (base fs : FileSystem) : Prop where
  each : ∀ l, fs.get? l = base.get? l ∨ base.get? l = none ∧ fs.IsDir l ∧
    ∃ front n, front <+: Path.names path ∧ base.Leads n (base.origin path) front l
  sound : fs.Sound
  cwd : fs.workingDirectory = base.workingDirectory
  next : fs.nextNumber = base.nextNumber

theorem made_refl (hsound : base.Sound) : Made path base base := ⟨fun _ => .inl rfl, hsound, rfl, rfl⟩

theorem Made.rooted (h : Made path base fs) : fs.Rooted := h.sound.rooted

theorem Made.sameLinks (h : Made path base fs) : base.SameLinks fs := by
  intro l target
  rcases h.each l with he | ⟨hnone, ⟨mode, hm⟩, -⟩
  · rw [he]
  · simp [hnone, hm]

theorem Made.extends (h : Made path base fs) : base.Extends fs := by
  have hget {l : Location} {node : Node} (hl : base.get? l = some node) : fs.get? l = some node := by
    rcases h.each l with he | ⟨hnone, -, -⟩
    · rw [he, hl]
    · rw [hnone] at hl
      cases hl
  exact ⟨fun l ⟨mode, hm⟩ => ⟨mode, hget hm⟩, fun l target ht => hget ht, fun _ => h.cwd⟩

theorem Made.makeDirectory (h : Made path base fs) (hfront : Path.names next <+: Path.names path)
    (habs : Path.isAbsolute next = Path.isAbsolute path) (hok : fs.makeDirectory next mode = .ok fs') :
    Made path base fs' := by
  obtain ⟨s, mode', hs, rfl⟩ := makeDirectory_ok hok
  obtain ⟨hden, hnone, hdir, hname⟩ := newEntry_denotes h.rooted hs
  have hne := hname.ne_nil
  refine ⟨fun l => ?_, h.sound.putDirectory hname hnone hdir, h.cwd, h.next⟩
  by_cases hl : l = s
  · subst hl
    right
    obtain ⟨n, hn⟩ := hden.of_sameLinks h.sameLinks.symm h.cwd.symm
    refine ⟨?_, ⟨mode', by rw [get?_put hne, if_pos rfl]⟩, _, n, hfront, ?_⟩
    · rcases h.each l with he | ⟨hbase, -, -⟩
      · rw [← he, hnone]
      · exact hbase
    · rw [origin, habs] at hn
      exact hn
  · have hsame : (fs.put s (.directory mode')).get? l = fs.get? l := by rw [get?_put hne, if_neg hl]
    rw [IsDir, hsame]
    exact h.each l

end FileSystem

namespace Action

open FileSystem

variable {before m m' : Machine} {base : FileSystem} {path next : Text}

theorem keeps_makeDirectory_made (hfront : Path.names next <+: Path.names path)
    (habs : Path.isAbsolute next = Path.isAbsolute path) (mode : Nat) :
    Keeps (before.Holds (Made path base)) (makeDirectory next mode) :=
  keeps_request fun _ _ hm hfs => hm.setFiles (hm.files.makeDirectory hfront habs hfs)

/-- One path is on the way to the other. -/
def IsOnWay (path next : Text) : Prop :=
  Path.names next <+: Path.names path ∧ Path.isAbsolute next = Path.isAbsolute path

theorem isOnWay_refl (path : Text) : IsOnWay path path := ⟨List.prefix_rfl, rfl⟩

theorem IsOnWay.head (h : IsOnWay path next) (hne : (headAndTail next).1 ≠ []) : IsOnWay path (headAndTail next).1 := by
  obtain ⟨hfront, habs⟩ := front_head hne
  exact ⟨hfront.trans h.1, habs.trans h.2⟩

theorem keeps_go_made (existing : Bool) (fuel : Nat) (h : IsOnWay path next) :
    Keeps (before.Holds (Made path base)) (makeDirectories.go existing fuel next) :=
  keeps_go (IsOnWay path) (fun _ h => keeps_makeDirectory_made h.1 h.2 _) (fun _ h hne => h.head hne) existing fuel h

/-- Where the way is there already, nothing is made. -/
theorem keeps_makeDirectories_there (hroot : base.Rooted) (hthere : ∀ front l n, front <+: Path.names path →
    base.Leads n (base.origin path) front l → base.get? l ≠ none) (existing : Bool) :
    Keeps (before.Holds (· = base)) (makeDirectories path existing) := by
  refine keeps_go (IsOnWay path) (fun next h => ?_) (fun _ h hne => h.head hne) existing _ (isOnWay_refl path)
  refine keeps_request fun m fs hm hfs => ?_
  obtain ⟨s, mode, hs, -⟩ := makeDirectory_ok hfs
  have hfiles : m.files = base := hm.files
  rw [hfiles] at hs
  obtain ⟨⟨n, hn⟩, hnone, -⟩ := newEntry_denotes hroot hs
  rw [origin, h.2] at hn
  exact absurd hnone (hthere _ s n h.1 hn)

theorem isDirectory_iff {fs : FileSystem} : fs.isDirectory path = true ↔
    ∃ l mode, fs.status path true = .ok (l, .directory mode) := by
  unfold FileSystem.isDirectory
  split
  · rename_i l node _
    cases node <;> simp_all [Node.isDirectory]
  · simp_all

/-- Making directories that may be there already ends with a directory at the path, or fails. -/
theorem makeDirectories_ok (hsound : m.files.Sound) (htail : (headAndTail path).1 = [] ∨ (headAndTail path).2 ≠ ".")
    (h : exec (makeDirectories path true) m = (.ok (), m')) :
    ∃ l mode, m'.files.status path true = .ok (l, .directory mode) := by
  have hlast {m : Machine} (hroot : m.files.Rooted) (h : exec (makeDirectories.makeLast true path) m = (.ok (), m')) :
      ∃ l mode, m'.files.status path true = .ok (l, .directory mode) := by
    rw [makeDirectories.makeLast, exec_catching, makeDirectory] at h
    rcases request_cases path (·.makeDirectory path directoryMode) m with ⟨e, he⟩ | ⟨fs, hfs, he⟩
    · rw [he] at h
      cases e with
      | system e =>
        simp only [Bool.true_and, exec_bind, exec_isDirectory] at h
        split at h
        · rename_i hd
          cases h
          exact isDirectory_iff.1 hd
        · cases h
      | _ => cases h
    · rw [he] at h
      cases h
      exact status_makeDirectory hroot hfs
  have hbefore : m.Holds (Made path m.files) m := ⟨rfl, made_refl hsound⟩
  rw [makeDirectories] at h
  cases hlen : path.length with
  | zero =>
    have hempty : path = [] := List.length_eq_zero_iff.1 hlen
    rw [hlen, makeDirectories.go, exec_bind_of_ok (exec_lacksHead path m)] at h
    rw [hempty] at h hlast ⊢
    exact hlast hsound.rooted h
  | succ fuel =>
    rw [hlen, makeDirectories.go, exec_bind_of_ok (exec_lacksHead path m)] at h
    split at h
    · rename_i hc
      obtain ⟨_, m₁, hrun, h⟩ := bind_ok.1 h
      simp only [Bool.and_eq_true, Bool.not_eq_true', List.isEmpty_eq_false_iff] at hc
      rw [if_neg (htail.resolve_left hc.1.1)] at h
      have hm₁ : m.Holds (Made path m.files)
          (exec (catching (makeDirectories.go true fuel (headAndTail path).1) passExisting) m).2 :=
        (keeps_go_made true fuel ((isOnWay_refl path).head hc.1.1)).catching (fun _ _ => keeps_passExisting) m hbefore
      rw [hrun] at hm₁
      exact hlast hm₁.files.rooted h
    · exact hlast hsound.rooted h

/-! ## What lies above the end of a path -/

theorem walk_ne_entryExists {fs : FileSystem} {purpose : Purpose} {links : Nat} {d : Location} {parts : List Text} :
    fs.walk purpose links d parts ≠ .error .entryExists := by
  fun_induction FileSystem.walk fs purpose links d parts <;> simp_all [Errno.entryExists, Errno.isDirectory,
    Errno.nameTooLong, Errno.noEntry, Errno.tooManyLinks, Errno.notDirectory]

theorem names_headAndTail (path : Text) :
    Path.names path = Path.names (headAndTail path).1 ++ Path.names (headAndTail path).2 := by
  have hsplit := Path.names_eq_parent_base path
  rcases headAndTail_cases path with ⟨hhead, htail⟩ | ⟨hbase, hhead, htail⟩
  · rw [hhead, htail, hsplit]
  · rw [hbase, Path.names_nil, List.append_nil] at hsplit
    rw [hhead, htail, hsplit, ← Path.names_eq_parent_base (Path.parent path)]

theorem length_parent_lt (h : Path.base path ≠ []) : (Path.parent path).length < path.length := by
  have hbase := List.length_pos_iff.2 h
  have hle : (Path.base path).length ≤ path.length := by
    obtain hp | ⟨head, hp⟩ := Path.eq_base_or path
    · rw [← hp]
    · rw [hp, List.length_append, List.length_cons, ← hp]
      omega
  have htake : (path.take (path.length - (Path.base path).length)).length < path.length := by
    rw [List.length_take]
    omega
  rw [Path.parent]
  split
  · exact htake
  · exact lt_of_le_of_lt (Path.prefix_dropEndSlashes _).length_le htake

theorem length_head_lt (h : (headAndTail path).2 ≠ []) : (headAndTail path).1.length < path.length := by
  rcases headAndTail_cases path with ⟨hhead, htail⟩ | ⟨-, hhead, htail⟩
  · rw [htail] at h
    rw [hhead]
    exact length_parent_lt h
  · rw [htail] at h
    rw [hhead]
    exact lt_of_lt_of_le (length_parent_lt h) (Path.prefix_parent path).length_le

end Action

namespace FileSystem

open Action

variable {fs : FileSystem} {path : Text} {l : Location} {mode : Nat}

/-- Everything that the path leads through on its way is there. -/
def Led (fs : FileSystem) (path : Text) : Prop :=
  ∀ front l n, front <+: Path.names path → front ≠ Path.names path → fs.Leads n (fs.origin path) front l → fs.get? l ≠ none

theorem led_of_directory (hroot : fs.Rooted) (h : fs.status path true = .ok (l, .directory mode)) : fs.Led path := by
  intro front l n hfront _ hl
  obtain ⟨k, -, hstart, hreach⟩ := status_directory h
  obtain ⟨mode, hm⟩ := hreach.isDir_of_front hroot (start_ok hstart).2 hfront hl
  simp [hm]

theorem led_of_lastName {found : LastName} (hroot : fs.Rooted) (h : fs.lastName path = .ok found) : fs.Led path := by
  intro front l n hfront hne hl
  obtain ⟨k, -, hstart, hreach, -⟩ := lastName_ok hroot h
  obtain ⟨above, last, hsplit⟩ : ∃ above last, Text.splitOn '/' (Path.dropEndSlashes path) = above ++ [last] :=
    ⟨_, _, (List.dropLast_append_getLast (Text.splitOn_ne_nil '/' _)).symm⟩
  have hnames : Path.names path = above.filter FilePath.isPart ++ [last].filter FilePath.isPart := by
    rw [← Path.names_dropEndSlashes, Path.names, hsplit, List.filter_append]
  have habove : front <+: above.filter FilePath.isPart := by
    rw [hnames] at hfront hne
    by_cases hlast : FilePath.isPart last = true
    · rw [List.filter_singleton, hlast] at hfront hne
      exact (List.prefix_concat_iff.1 hfront).resolve_left hne
    · rw [List.filter_singleton, Bool.eq_false_iff.2 hlast] at hfront
      simpa using hfront
  rw [hsplit, List.dropLast_concat] at hreach
  obtain ⟨mode, hm⟩ := (follows_filter.2 hreach).isDir_of_front hroot (start_ok hstart).2 habove hl
  simp [hm]

/-- A directory that cannot be made because something is there already is in a directory. -/
theorem lastName_of_makeDirectory (h : fs.makeDirectory path mode = .error .entryExists) :
    ∃ found, fs.lastName path = .ok found := by
  cases hlast : fs.lastName path with
  | ok found => exact ⟨found, rfl⟩
  | error e =>
    have he : e = .entryExists := by
      simpa [FileSystem.makeDirectory, newEntry, hlast, bind, Except.bind] using h
    subst he
    unfold lastName at hlast
    cases hstart : fs.start path with
    | error e =>
      have he : e = .entryExists := by simpa [hstart, bind, Except.bind] using hlast
      subst he
      unfold start at hstart
      repeat' split at hstart
      all_goals cases hstart
    | ok d =>
      simp only [hstart, bind, Except.bind] at hlast
      cases hwalk : fs.walk .target linkLimit d (Text.splitOn '/' (Path.dropEndSlashes path)).dropLast with
      | error e =>
        have he : e = .entryExists := by simpa [hwalk] using hlast
        exact absurd (he ▸ hwalk) walk_ne_entryExists
      | ok place =>
        simp only [hwalk] at hlast
        cases place with
        | free d' name => exact absurd (Except.error.inj hlast) (by decide)
        | taken d' node =>
          cases node <;> simp only at hlast
          · repeat' split at hlast
            all_goals cases hlast
          all_goals exact absurd (Except.error.inj hlast) (by decide)

end FileSystem

namespace Action

open FileSystem

variable {m m' : Machine} {path : Text}

/-- A request that was met, or refused since something is there already. -/
def IsThere (r : Except Error Unit) : Prop := r = .ok () ∨ ∃ e, r = .error (.system e) ∧ e.errno = .entryExists

theorem makeLast_led (hsound : m.files.Sound) (h : IsThere (exec (makeDirectories.makeLast true path) m).1) :
    (exec (makeDirectories.makeLast true path) m).2.files.Led path := by
  rw [makeDirectories.makeLast, exec_catching, makeDirectory] at h ⊢
  rcases isSendable_or path with hsend | ⟨e, hsystem, he⟩
  · rw [exec_request hsend] at h ⊢
    cases hmake : m.files.makeDirectory path directoryMode with
    | ok fs =>
      obtain ⟨l, mode, hl⟩ := status_makeDirectory hsound.rooted hmake
      obtain ⟨s, mode', hs, rfl⟩ := makeDirectory_ok hmake
      obtain ⟨-, hnone, hdir, hname⟩ := newEntry_denotes hsound.rooted hs
      exact led_of_directory (hsound.putDirectory hname hnone hdir).rooted hl
    | error errno =>
      simp only [hmake, Bool.true_and, exec_bind, exec_isDirectory] at h ⊢
      split at h
      · rename_i hd
        obtain ⟨l, mode, hl⟩ := isDirectory_iff.1 hd
        rw [if_pos hd]
        exact led_of_directory hsound.rooted hl
      · rename_i hd
        rw [if_neg hd]
        obtain ⟨e, he, herrno⟩ := h.resolve_left nofun
        cases he
        have hexists : errno = .entryExists := herrno
        subst hexists
        obtain ⟨found, hfound⟩ := lastName_of_makeDirectory hmake
        exact led_of_lastName hsound.rooted hfound
  · have hrequest : exec (request path (·.makeDirectory path directoryMode)) m = (.error e, m) :=
      exec_bind_of_error (he m)
    rw [hrequest] at h
    cases e with
    | system e => cases hsystem
    | _ => rcases h with h | ⟨fault, h, -⟩ <;> cases h

/-- The induction is on the fuel, which is no less than what is left of the path. -/
theorem go_led {fuel : Nat} (hfuel : path.length ≤ fuel) (hsound : m.files.Sound)
    (h : IsThere (exec (makeDirectories.go true fuel path) m).1) :
    (exec (makeDirectories.go true fuel path) m).2.files.Led path := by
  induction fuel generalizing path m with
  | zero =>
    obtain rfl : path = [] := List.length_eq_zero_iff.1 (Nat.le_zero.1 hfuel)
    rw [makeDirectories.go, exec_bind_of_ok (exec_lacksHead [] m)] at h ⊢
    exact makeLast_led hsound h
  | succ fuel ih =>
    rw [makeDirectories.go, exec_bind_of_ok (exec_lacksHead path m)] at h ⊢
    split at h
    · rename_i hlacks
      rw [if_pos hlacks]
      simp only [Bool.and_eq_true, Bool.not_eq_true', List.isEmpty_eq_false_iff] at hlacks
      obtain ⟨⟨hhead, htail⟩, -⟩ := hlacks
      have hmade : m.Holds (Made path m.files) (exec (makeDirectories.go true fuel (headAndTail path).1) m).2 :=
        keeps_go_made true fuel ((isOnWay_refl path).head hhead) m ⟨rfl, made_refl hsound⟩
      have hshorter : (headAndTail path).1.length ≤ fuel := Nat.lt_succ_iff.1 (lt_of_lt_of_le (length_head_lt htail) hfuel)
      have hled := ih hshorter hsound
      generalize hrun : exec (makeDirectories.go true fuel (headAndTail path).1) m = result at hmade hled
      obtain ⟨r, m₁⟩ := result
      have hpass : IsThere r → exec (catching (makeDirectories.go true fuel (headAndTail path).1) passExisting) m =
          (.ok (), m₁) := by
        rintro (rfl | ⟨e, rfl, he⟩)
        · rw [exec_catching, hrun]
        · rw [exec_catching, hrun]
          simp [passExisting, he]
      -- The handler passes over nothing but what `IsThere` allows, and the action ends with any other fault.
      have hthere : IsThere r := by
        cases r with
        | ok a => exact .inl rfl
        | error e =>
          cases hhandle : passExisting e with
          | some action =>
            cases e with
            | system e =>
              simp only [passExisting, Option.ite_none_right_eq_some] at hhandle
              exact .inr ⟨e, rfl, hhandle.1⟩
            | _ => cases hhandle
          | none =>
            have hcaught : exec (catching (makeDirectories.go true fuel (headAndTail path).1) passExisting) m = (.error e, m₁) := by
              rw [exec_catching, hrun]
              simp [hhandle]
            rw [exec_bind_of_error hcaught] at h
            exact h
      rw [exec_bind_of_ok (hpass hthere)] at h ⊢
      split at h
      · rename_i hdot
        rw [if_pos hdot]
        have hnames : Path.names path = Path.names (headAndTail path).1 := by
          rw [names_headAndTail path, hdot]
          exact List.append_nil _
        have horigin : m₁.files.origin path = m₁.files.origin (headAndTail path).1 := by
          rw [origin, origin, (front_head hhead).2]
        intro front l n hfront hne hl
        rw [hnames] at hfront hne
        exact hled hthere front l n hfront hne (horigin ▸ hl)
      · rename_i hdot
        rw [if_neg hdot]
        exact makeLast_led hmade.files.sound h
    · rename_i hlacks
      rw [if_neg hlacks]
      exact makeLast_led hsound h

/-- Where all directories of a path could be made, or are passed over, the path leads through what is there. -/
theorem makeDirectories_led (hsound : m.files.Sound) (h : exec (makeDirectories path true) m = (.ok (), m')) :
    m'.files.Led path := by
  have hled := go_led le_rfl hsound (.inl (congrArg Prod.fst h))
  rwa [← makeDirectories, h] at hled

/-- The directory above one that is there is there. -/
theorem hasTarget_parent {d : Location} (haddr : m.files.Addresses path d) (hroot : m.files.Rooted) (hdir : m.files.IsDir d)
    (hsend : IsSendable path) (hne : Path.parent path ≠ []) : m.files.hasTarget (Path.parent path) = true := by
  obtain ⟨mode, hmode⟩ := hdir
  have hstatus : m.files.status path true = .ok (d, .directory mode) := by
    rw [haddr.status (.inr (by simp [IsLink, hmode])), hmode]
  obtain ⟨n, hn, hstart, hreach⟩ := status_directory hstatus
  obtain ⟨hlimit, hbegin⟩ := start_begin hstart
  have hfront : Path.parent path <+: path := Path.prefix_parent path
  have habs := Path.isAbsolute_of_isPrefix hfront hne
  have hshort : byteLength (Path.parent path) ≤ byteLength path := by
    obtain ⟨bytes, hbytes, -⟩ := hsend
    obtain ⟨rest, hrest⟩ := hfront
    rw [← hrest] at hbytes
    obtain ⟨x, y, hx, -, rfl⟩ := Utf8.encodeFrom_append.1 hbytes
    rw [byteLength_of_ok hx, ← hrest, byteLength_of_ok hbytes]
    simp
  have hstart' : m.files.start (Path.parent path) = .ok (m.files.origin (Path.parent path)) := by
    rw [start_cases hne (by rwa [habs]), if_neg (by omega)]
  rw [Path.names_eq_parent_base path] at hreach
  obtain ⟨d', k, k', htop, -, hk⟩ := hreach.split
  have horigin : m.files.origin (Path.parent path) = m.files.origin path := by rw [origin, origin, habs]
  obtain ⟨mode', hmode'⟩ := htop.isDir hroot (start_ok hstart).2
  rw [← horigin] at htop
  rw [FileSystem.hasTarget, status_of_reaches hstart' (by omega) htop hmode']

/-- A directory that is there is not made again. -/
theorem exec_makeDirectories_there {d : Location} (haddr : m.files.Addresses path d) (hroot : m.files.Rooted)
    (hdir : m.files.IsDir d) (hsend : IsSendable path) : exec (makeDirectories path true) m = (.ok (), m) := by
  have hlast : exec (makeDirectories.makeLast true path) m = (.ok (), m) := by
    obtain ⟨mode, hmode⟩ := hdir
    have hmake : m.files.makeDirectory path directoryMode = .error .entryExists := by
      rw [haddr.makeDirectory, hmode]
    have hthere : m.files.isDirectory path = true := by
      refine isDirectory_iff.2 ⟨d, mode, ?_⟩
      rw [haddr.status (.inr (by simp [IsLink, hmode])), hmode]
    rw [makeDirectories.makeLast, exec_catching, makeDirectory, exec_request hsend, hmake]
    simp [exec_bind, hthere]
  have hbase : Path.base path ≠ [] := by
    obtain ⟨hsplit, hname, -⟩ := haddr
    have hlast := Path.getLast?_splitOn path
    rw [hsplit, List.getLast?_concat] at hlast
    exact Option.some.inj hlast ▸ (FilePath.isPart_iff.1 hname.1).1
  have hlacks : exec (makeDirectories.lacksHead path) m = (.ok false, m) := by
    obtain ⟨hhead, -⟩ := (headAndTail_cases path).resolve_right fun h => hbase h.1
    rw [exec_lacksHead, hhead]
    by_cases hne : Path.parent path = []
    · simp [hne]
    · simp [hasTarget_parent haddr hroot hdir hsend hne]
  rw [makeDirectories]
  cases path.length with
  | zero => rw [makeDirectories.go, exec_bind_of_ok hlacks]; exact hlast
  | succ fuel => rw [makeDirectories.go, exec_bind_of_ok hlacks]; exact hlast

theorem makeDirectories_nil (m : Machine) : (exec (makeDirectories [] true) m).1 ≠ .ok () := nofun

/-! ## Directories of path values -/

variable {before : Machine} {base : FileSystem} {p : FilePath}

theorem isOnWay_parent (hp : p.Tidy) (h : IsOnWay path p.toText) : IsOnWay path p.parent.toText := by
  obtain ⟨hfront, habs⟩ := h
  refine ⟨?_, ?_⟩
  · rw [hp.parent.names_toText]
    rw [hp.names_toText] at hfront
    exact (List.dropLast_prefix _).trans hfront
  · rw [hp.parent.isAbsolute_toText]
    rw [hp.isAbsolute_toText] at habs
    exact habs

theorem keeps_make_made (h : IsOnWay path p.toText) {handleMissing : Error → Option (Action Unit)}
    (hmissing : ∀ e action, handleMissing e = some action → Keeps (before.Holds (Made path base)) action) :
    Keeps (before.Holds (Made path base)) (makeAncestry.make p handleMissing) := by
  refine (keeps_makeDirectory_made h.1 h.2 _).catching fun e action he => ?_
  cases e with
  | system e =>
    simp only at he
    split at he
    · exact hmissing _ _ he
    · rw [← Option.some.inj he]
      refine keeps_files.bind fun _ => (keeps_ofExcept _).bind fun _ => ?_
      exact Keeps.ite (fun _ => keeps_pure _) fun _ => keeps_throw _
  | _ => cases he

theorem keeps_makeAncestry_made (hp : p.Tidy) (h : IsOnWay path p.toText) :
    Keeps (before.Holds (Made path base)) (makeAncestry p) := by
  suffices hgo : ∀ fuel (p : FilePath), p.Tidy → IsOnWay path p.toText →
      Keeps (before.Holds (Made path base)) (makeAncestry.go fuel p) from hgo _ p hp h
  intro fuel
  induction fuel with
  | zero =>
    intro p hp h
    refine keeps_make_made h fun e action he => ?_
    cases he
    exact keeps_throw e
  | succ fuel ih =>
    intro p hp h
    refine keeps_make_made h fun e action he => ?_
    split at he
    · cases he
      exact keeps_throw e
    · cases he
      refine (ih p.parent hp.parent (isOnWay_parent hp h)).bind fun _ => ?_
      exact keeps_make_made h fun _ _ he => by cases he

end Action

end Prebuilt
