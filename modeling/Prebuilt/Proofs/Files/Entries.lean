import Prebuilt.Files.Requests
import Prebuilt.Proofs.Files.Reaching
/-!
What a path stands for. `Denotes` is where a path leads with all links followed. `Addresses` is stronger: the path reaches a
directory, and its last component is a name there; then every request about the path is decided by what `get?` gives at
that location.
-/
set_option autoImplicit false

namespace Prebuilt.FileSystem

variable {fs fs' : FileSystem} {path : Text} {d d' l l' : Location} {node : Node} {n : Nat} {last : Text}

/-! ## Where a path starts -/

def origin (fs : FileSystem) (path : Text) : Location := if Path.isAbsolute path then [] else fs.workingDirectory

theorem start_ok (h : fs.start path = .ok d) : d = fs.origin path ∧ fs.IsDir d := by
  unfold start at h
  split at h
  · cases h
  · split at h
    · cases h
    · split at h
      · rename_i ha
        cases h
        exact ⟨by rw [origin, if_pos ha], isDir_nil⟩
      · rename_i ha
        split at h
        · rename_i mode hm
          cases h
          exact ⟨by rw [origin, if_neg ha], mode, hm⟩
        · cases h

theorem start_cases {path : Text} (hne : path ≠ []) (hstart : Path.isAbsolute path = true ∨ fs.IsDir fs.workingDirectory) :
    fs.start path = if pathLimit ≤ byteLength path then .error .nameTooLong else .ok (fs.origin path) := by
  rw [FileSystem.start, if_neg (by simpa using hne)]
  split
  · rfl
  · by_cases ha : Path.isAbsolute path = true
    · rw [if_pos ha, origin, if_pos ha]
    · obtain ⟨mode, hm⟩ := hstart.resolve_left ha
      rw [if_neg ha, hm, origin, if_neg ha]

/-- A path that starts somewhere is short enough, and there is a directory that it starts in. -/
theorem start_begin (h : fs.start path = .ok d) :
    byteLength path < pathLimit ∧ (Path.isAbsolute path = true ∨ fs.IsDir fs.workingDirectory) := by
  have hdir := (start_ok h).2
  obtain ⟨rfl, -⟩ := start_ok h
  rw [FileSystem.start] at h
  split at h
  · cases h
  · split at h
    · cases h
    · rename_i hlong
      refine ⟨Nat.not_le.1 hlong, ?_⟩
      by_cases ha : Path.isAbsolute path = true
      · exact .inl ha
      · rw [origin, if_neg ha] at hdir
        exact .inr hdir

/-- Where a path leads, every link followed. -/
def Denotes (fs : FileSystem) (path : Text) (l : Location) : Prop :=
  ∃ n, fs.Leads n (fs.origin path) (Path.names path) l

theorem Denotes.unique (h : fs.Denotes path l) (h' : fs.Denotes path l') : l = l' := by
  obtain ⟨n, hn⟩ := h
  obtain ⟨m, hm⟩ := h'
  exact (hn.deterministic hm).2

theorem Denotes.of_sameLinks (hlinks : fs.SameLinks fs') (hcwd : fs'.workingDirectory = fs.workingDirectory)
    (h : fs.Denotes path l) : fs'.Denotes path l := by
  obtain ⟨n, hn⟩ := h
  exact ⟨n, by rw [origin, hcwd]; exact hn.of_sameLinks hlinks⟩

theorem follows_names {pass : Location → Text → Prop} :
    fs.Follows pass n d (Text.splitOn '/' path) l ↔ fs.Follows pass n d (Path.names path) l := by
  have h : fs.Follows pass n d (Text.splitOn '/' path ++ []) l ↔ fs.Follows pass n d (Path.names path ++ []) l :=
    follows_splitOn
  simpa using h

theorem place_ok {purpose : Purpose} {p : Place} (hroot : fs.Rooted) (hp : purpose ≠ .entry)
    (h : fs.place purpose path = .ok p) : fs.Denotes path p.location ∧ fs.Holds p := by
  simp only [place, bind, Except.bind] at h
  split at h
  · cases h
  · rename_i d hd
    obtain ⟨rfl, hdir⟩ := start_ok hd
    obtain ⟨n, -, hl⟩ := walk_leads hp h
    exact ⟨⟨n, follows_names.1 hl⟩, walk_holds hroot hdir h⟩

theorem place_free {purpose : Purpose} {name : Name} (h : fs.place purpose path = .ok (.free d name)) :
    Nameable (d ++ [name]) := by
  simp only [place, bind, Except.bind] at h
  split at h
  · cases h
  · exact walk_free (fun _ hp => Text.not_mem_of_mem_splitOn hp) h

theorem place_vacant {purpose : Purpose} {name : Name} (h : fs.place purpose path = .ok (.free d name)) :
    fs.get? (d ++ [name]) = none := by
  simp only [place, bind, Except.bind] at h
  split at h
  · cases h
  · exact walk_vacant h

theorem status_ok (hroot : fs.Rooted) (h : fs.status path true = .ok (l, node)) :
    fs.Denotes path l ∧ fs.get? l = some node := by
  simp only [status, if_true] at h
  split at h
  · cases h
  · rename_i l' node' hp
    cases h
    exact place_ok hroot (by decide) hp
  · cases h

/-! ## The last component -/

theorem lastName_ok {found : LastName} (hroot : fs.Rooted) (h : fs.lastName path = .ok found) :
    ∃ n, n ≤ linkLimit ∧ fs.start path = .ok (fs.origin path) ∧
      fs.Reaches n (fs.origin path) (Text.splitOn '/' (Path.dropEndSlashes path)).dropLast found.directory ∧
      fs.IsDir found.directory ∧ found.slashed = Path.endsInSlash path ∧
      ∀ name, found.name = some name →
        IsName name ∧ (Text.splitOn '/' (Path.dropEndSlashes path)).getLast? = some name := by
  simp only [lastName, bind, Except.bind] at h
  split at h
  · cases h
  · rename_i d hd
    obtain ⟨rfl, hdir⟩ := start_ok hd
    split at h
    · cases h
    · rename_i p hw
      split at h
      · cases h
      · obtain ⟨n, hn, hr, -⟩ := walk_directory_iff.1 hw
        have hl := hr.isDir hroot hdir
        refine ⟨n, hn, hd, ?_⟩
        have hlast := List.getLast?_eq_some_getLast (Text.splitOn_ne_nil '/' (Path.dropEndSlashes path))
        rw [hlast] at h ⊢
        simp only [Option.getD_some] at h
        split at h
        · cases h
          exact ⟨hr, hl, rfl, by simp⟩
        · rename_i hpart
          split at h
          · cases h
            exact ⟨hr, hl, rfl, by simp⟩
          · rename_i hup
            cases h
            refine ⟨hr, hl, rfl, ?_⟩
            rintro name hname
            cases hname
            rw [← not_isPart_iff, Bool.not_eq_false] at hpart
            exact ⟨⟨hpart, hup⟩, rfl⟩
      · cases h

theorem newEntry_ok {slashAllowed : Bool} (h : fs.newEntry path slashAllowed = .ok l) :
    ∃ found name, fs.lastName path = .ok found ∧ found.name = some name ∧ byteLength name ≤ nameLimit ∧
      l = child found.directory name ∧ fs.get? l = none := by
  simp only [newEntry, bind, Except.bind] at h
  split at h
  · cases h
  · rename_i found hfound
    split at h
    · cases h
    · rename_i name hname
      simp only [entry] at h
      split at h
      · cases h
      · rename_i e he
        split at he
        · cases he
        · rename_i hlen
          cases he
          refine ⟨found, name, hfound, hname, Nat.not_lt.1 hlen, ?_⟩
          split at h
          · cases h
          · rename_i hnone
            split at h
            · cases h
            · cases h
              simp only [Prod.mk.injEq] at hnone
              obtain ⟨rfl, hnone⟩ := hnone
              exact ⟨rfl, hnone⟩

/-- What is made new lies free in a directory, where its path leads. -/
theorem newEntry_denotes {slashAllowed : Bool} (hroot : fs.Rooted) (h : fs.newEntry path slashAllowed = .ok l) :
    fs.Denotes path l ∧ fs.get? l = none ∧ fs.IsDir l.dropLast ∧ Nameable l := by
  obtain ⟨found, name, hfound, hname, hlen, rfl, hnone⟩ := newEntry_ok h
  obtain ⟨n, -, -, hr, hdir, -, hlast⟩ := lastName_ok hroot hfound
  obtain ⟨hisname, hget⟩ := hlast name hname
  refine ⟨⟨n, ?_⟩, hnone, by simpa [child] using hdir, found.directory, name, rfl, hisname,
    Text.not_mem_of_mem_splitOn (List.mem_of_getLast? hget), hlen⟩
  have hstep : fs.Leads 0 found.directory [name] (child found.directory name) :=
    .step hisname hlen (by simp [IsLink, hnone]) (.nil _)
  have hall := hr.leads.append hstep
  rw [List.dropLast_append_getLast? name hget] at hall
  simpa using follows_names.1 hall

/-! ## What requests do -/

theorem makeDirectory_ok {mode : Nat} (h : fs.makeDirectory path mode = .ok fs') :
    ∃ l mode', fs.newEntry path true = .ok l ∧ fs' = fs.put l (.directory mode') := by
  simp only [makeDirectory, bind, Except.bind] at h
  split at h
  · cases h
  · rename_i l hl
    cases h
    exact ⟨l, _, hl, rfl⟩

theorem makeSpecial_ok (h : fs.makeSpecial path = .ok fs') :
    ∃ l, fs.newEntry path false = .ok l ∧ fs' = fs.addSpecial l fileMode := by
  simp only [makeSpecial, bind, Except.bind] at h
  split at h
  · cases h
  · rename_i l hl
    cases h
    exact ⟨l, hl, rfl⟩

theorem makeLink_ok {target : Text} (h : fs.makeLink target path = .ok fs') :
    ∃ l, fs.newEntry path false = .ok l ∧ fs' = fs.put l (.link target) := by
  simp only [makeLink, bind, Except.bind] at h
  split at h
  · cases h
  · split at h
    · cases h
    · split at h
      · cases h
      · rename_i l hl
        cases h
        exact ⟨l, hl, rfl⟩

theorem addName_ok {old : Text} (h : fs.addName old path = .ok fs') :
    ∃ t node l, fs.status old false = .ok (t, node) ∧ fs.newEntry path false = .ok l ∧ fs' = fs.put l node := by
  simp only [addName, bind, Except.bind] at h
  split at h
  · cases h
  · rename_i found hfound
    split at h
    · cases h
    · rename_i l hl
      split at h
      · cases h
      · cases h
        exact ⟨found.1, found.2, l, hfound, hl, rfl⟩

theorem truncate_ok (h : fs.truncate path = .ok fs') :
    (∃ l node, fs.place .creation path = .ok (.taken l node) ∧ node.isDirectory = false ∧
      fs' = fs.update l (Node.withContent [])) ∨
      ∃ directory name, fs.place .creation path = .ok (.free directory name) ∧
        fs' = fs.addFile (directory ++ [name]) fileMode [] := by
  simp only [truncate, bind, Except.bind] at h
  split at h
  · cases h
  · rename_i p hp
    split at h
    · cases h
    · rename_i l node hnode
      cases h
      refine .inl ⟨l, node, hp, ?_, rfl⟩
      cases node with
      | directory mode => exact absurd rfl (hnode mode)
      | _ => rfl
    · rename_i directory name
      cases h
      exact .inr ⟨directory, name, hp, rfl⟩

theorem setMode_ok {mode : Nat} (h : fs.setMode path mode = .ok fs') :
    ∃ l node, fs.status path true = .ok (l, node) ∧ fs' = fs.update l (Node.withMode (mode % 0o10000)) := by
  simp only [setMode, bind, Except.bind] at h
  split at h
  · cases h
  · rename_i found hfound
    cases h
    exact ⟨found.1, found.2, hfound, rfl⟩

theorem setOwner_ok {followLast : Bool} (h : fs.setOwner path followLast = .ok fs') :
    ∃ l node, fs.status path followLast = .ok (l, node) ∧ fs' = fs.update l Node.handedOver := by
  simp only [setOwner, bind, Except.bind] at h
  split at h
  · cases h
  · rename_i found hfound
    cases h
    exact ⟨found.1, found.2, hfound, rfl⟩

/-- A name goes that is no directory's. -/
theorem unlink_ok (h : fs.unlink path = .ok fs') : ∃ found name, fs.lastName path = .ok found ∧ found.name = some name ∧
    ¬ fs.IsDir (child found.directory name) ∧ fs' = fs.erase (child found.directory name) := by
  simp only [unlink, bind, Except.bind] at h
  split at h
  · cases h
  · rename_i found hfound
    split at h
    · cases h
    · rename_i name hname
      simp only [entry] at h
      split at h
      · cases h
      · rename_i x hx
        split at hx
        · cases hx
        · cases hx
          split at h
          · cases h
          · cases h
          · rename_i l node hnode heq
            simp only [Prod.mk.injEq] at heq
            obtain ⟨rfl, hg⟩ := heq
            split at h
            · cases h
            · cases h
              refine ⟨found, name, hfound, hname, ?_, rfl⟩
              rintro ⟨mode, hm⟩
              exact hnode mode (Option.some.inj (hg.symm.trans hm))

/-! ## Paths that end in a name -/

/-- A path whose last component is a name in a directory that the components before it reach. -/
inductive Addresses (fs : FileSystem) (path : Text) : Location → Prop
  | intro {above : List Text} {last : Text} {n : Nat} {directory : Location} :
      Text.splitOn '/' path = above ++ [last] → IsName last → byteLength last ≤ nameLimit →
      fs.start path = .ok (fs.origin path) → n ≤ linkLimit → fs.Reaches n (fs.origin path) above directory →
      fs.IsDir directory → Addresses fs path (child directory last)

theorem Addresses.unique (h : fs.Addresses path l) (h' : fs.Addresses path l') : l = l' := by
  obtain ⟨hs, -, -, -, -, hr, -⟩ := h
  obtain ⟨hs', -, -, -, -, hr', -⟩ := h'
  rw [hs] at hs'
  obtain ⟨rfl, hlast⟩ := List.append_inj' hs' rfl
  cases hlast
  rw [(hr.deterministic hr').2]

theorem Addresses.ne_nil (h : fs.Addresses path l) : l ≠ [] := by
  obtain ⟨-, -, -, -, -, -, -⟩ := h
  exact child_ne_nil

theorem Addresses.isDir_dropLast (h : fs.Addresses path l) : fs.IsDir l.dropLast := by
  obtain ⟨-, -, -, -, -, -, hdir⟩ := h
  simpa [child] using hdir

theorem Addresses.denotes (h : fs.Addresses path l) (hl : ¬ fs.IsLink l) : fs.Denotes path l := by
  obtain ⟨hs, hname, hlen, -, -, hr, -⟩ := h
  exact ⟨_, follows_names.1 (hs ▸ hr.leads.append (.step hname hlen hl (.nil _)))⟩

/-- Nothing but a name matters to what stands at the path. -/
theorem Addresses.place (h : fs.Addresses path l) (purpose : Purpose) (hl : purpose = .entry ∨ ¬ fs.IsLink l) :
    fs.place purpose path = .ok (match fs.get? l with
      | none => .free l.dropLast (l.getLast?.getD [])
      | some node => .taken l node) := by
  obtain ⟨hs, hname, hlen, hstart, hn, hr, -⟩ := h
  simp only [FileSystem.place, hstart, bind, Except.bind]
  rw [hs, walk_append_of_reaches (continues_cons hname) hr hn, walk_last hname, if_neg (Nat.not_lt.2 hlen)]
  cases hg : fs.get? (child _ _) with
  | none => simp [child]
  | some node =>
    cases node with
    | link target =>
      have hp := hl.resolve_right (not_not.2 ⟨target, hg⟩)
      simp [hp]
    | directory mode | file number mode content | special number mode => rfl

theorem Addresses.status (h : fs.Addresses path l) {followLast : Bool} (hl : followLast = false ∨ ¬ fs.IsLink l) :
    fs.status path followLast = match fs.get? l with
      | none => .error .noEntry
      | some node => .ok (l, node) := by
  have hp : (if followLast then Purpose.target else .entry) = .entry ∨ ¬ fs.IsLink l :=
    hl.imp (fun hf => by simp [hf]) id
  rw [FileSystem.status, h.place _ hp]
  cases fs.get? l <;> rfl

theorem endsInSlash_of_isName {above : List Text} (hs : Text.splitOn '/' path = above ++ [last]) (hname : IsName last) :
    Path.endsInSlash path = false := by
  rw [Path.endsInSlash, beq_eq_false_iff_ne]
  intro hslash
  obtain ⟨a, ha⟩ := List.getLast?_eq_some_iff.1 hslash
  have hsplit := Text.splitOn_append_cons '/' a []
  rw [← ha, hs] at hsplit
  obtain ⟨-, hlast⟩ := List.append_inj' hsplit rfl
  have hp := hname.1
  cases hlast
  cases hp

theorem dropEndSlashes_of_not_endsInSlash (h : Path.endsInSlash path = false) : Path.dropEndSlashes path = path := by
  rw [Path.dropEndSlashes]
  cases hr : path.reverse with
  | nil => simpa using hr.symm
  | cons c r =>
    have hp : path = r.reverse ++ [c] := by simpa using congrArg List.reverse hr
    have hc : Path.isSlash c = false := by simpa [hp, Path.endsInSlash, Path.isSlash] using h
    rw [List.dropWhile_cons_of_neg (by simp [hc]), ← hr, List.reverse_reverse]

/-- The last name of a path, with the directory it lies in. -/
theorem lastName_of_reaches {above : List Text} (hs : Text.splitOn '/' path = above ++ [last]) (hname : IsName last)
    (hstart : fs.start path = .ok (fs.origin path)) (hn : n ≤ linkLimit) (hr : fs.Reaches n (fs.origin path) above d)
    (hdir : fs.IsDir d) : fs.lastName path = .ok ⟨d, some last, false, false⟩ := by
  have hslash := endsInSlash_of_isName hs hname
  obtain ⟨mode, hm⟩ := hdir
  have hw := walk_directory_iff.2 ⟨n, hn, hr, by rw [hm, Option.getD_some]⟩
  simp only [FileSystem.lastName, hstart, bind, Except.bind, dropEndSlashes_of_not_endsInSlash hslash, hs,
    List.dropLast_concat, hw, List.getLast?_append, List.getLast?_singleton, Option.some_or, Option.getD_some]
  rw [if_neg hname.ne, if_neg hname.2, hslash]
  rfl

theorem Addresses.endsInSlash (h : fs.Addresses path l) : Path.endsInSlash path = false := by
  obtain ⟨hs, hname, -, -, -, -, -⟩ := h
  exact endsInSlash_of_isName hs hname

theorem Addresses.lastName (h : fs.Addresses path l) :
    ∃ last, fs.lastName path = .ok ⟨l.dropLast, some last, false, false⟩ ∧ byteLength last ≤ nameLimit ∧
      child l.dropLast last = l := by
  obtain ⟨hs, hname, hlen, hstart, hn, hr, hdir⟩ := h
  rename_i above last n directory
  refine ⟨last, ?_, hlen, by simp [child]⟩
  rw [child, List.dropLast_concat]
  exact lastName_of_reaches hs hname hstart hn hr hdir

theorem Addresses.entry (h : fs.Addresses path l) : ∃ last,
    fs.lastName path = .ok ⟨l.dropLast, some last, false, false⟩ ∧ fs.entry l.dropLast last = .ok (l, fs.get? l) := by
  obtain ⟨last, hlast, hlen, hl⟩ := h.lastName
  refine ⟨last, hlast, ?_⟩
  rw [child] at hl
  simp only [FileSystem.entry, if_neg (Nat.not_lt.2 hlen), hl]

/-! ## From one file system to another -/

theorem start_of_dirs (hdirs : ∀ l, fs.IsDir l → fs'.IsDir l)
    (hcwd : fs.IsDir fs.workingDirectory → fs'.workingDirectory = fs.workingDirectory) (h : fs.start path = .ok d) :
    fs'.start path = .ok d ∧ fs'.origin path = fs.origin path := by
  unfold FileSystem.start at h ⊢
  unfold origin
  split at h
  · cases h
  · split at h
    · cases h
    · split at h
      · simp_all
      · split at h
        · rename_i mode hm
          obtain ⟨mode', hm'⟩ := hdirs _ ⟨mode, hm⟩
          have hcwd := hcwd ⟨mode, hm⟩
          simp_all
        · cases h

theorem Extends.start (hext : fs.Extends fs') (h : fs.start path = .ok d) :
    fs'.start path = .ok d ∧ fs'.origin path = fs.origin path := start_of_dirs hext.dir hext.cwd h

/-- The path leads through the link on its way. -/
def LeadsThrough (fs : FileSystem) (path : Text) (l : Location) : Prop := fs.Crosses l (fs.origin path) (Text.splitOn '/' path)

/-- A path addresses what it did where the directories last and the links that it leads through are what they were. -/
theorem Addresses.of_kept (hdirs : ∀ l, fs.IsDir l → fs'.IsDir l)
    (hcwd : fs.IsDir fs.workingDirectory → fs'.workingDirectory = fs.workingDirectory)
    (hlinks : ∀ l, fs.LeadsThrough path l → fs'.get? l = fs.get? l) (h : fs.Addresses path l) : fs'.Addresses path l := by
  obtain ⟨hs, hname, hlen, hstart, hn, hr, hdir⟩ := h
  obtain ⟨hstart', horigin⟩ := start_of_dirs hdirs hcwd hstart
  have hr' := hr.of_kept hdirs fun l hl => hlinks l (by rw [LeadsThrough, hs]; exact hl.append _)
  rw [← horigin] at hr' hstart'
  exact .intro hs hname hlen hstart' hn hr' (hdirs _ hdir)

theorem Addresses.of_extends (hext : fs.Extends fs') (h : fs.Addresses path l) : fs'.Addresses path l :=
  h.of_kept hext.dir hext.cwd fun _ hl => hext.get?_of_crosses hl

theorem addresses_of_lastName {found : LastName} {name : Text} (hroot : fs.Rooted) (h : fs.lastName path = .ok found)
    (hname : found.name = some name) (hlen : byteLength name ≤ nameLimit) (hslash : Path.endsInSlash path = false) :
    fs.Addresses path (child found.directory name) := by
  obtain ⟨n, hn, hstart, hr, hdir, -, hlast⟩ := lastName_ok hroot h
  obtain ⟨hisname, hget⟩ := hlast name hname
  rw [dropEndSlashes_of_not_endsInSlash hslash] at hr hget
  exact .intro (List.dropLast_append_getLast? name hget).symm hisname hlen hstart hn hr hdir

theorem addresses_of_newEntry {slashAllowed : Bool} (hroot : fs.Rooted) (h : fs.newEntry path slashAllowed = .ok l)
    (hslash : Path.endsInSlash path = false) : fs.Addresses path l ∧ fs.get? l = none := by
  obtain ⟨found, name, hfound, hname, hlen, rfl, hnone⟩ := newEntry_ok h
  exact ⟨addresses_of_lastName hroot hfound hname hlen hslash, hnone⟩

/-! ## Requests -/

theorem Addresses.newEntry (h : fs.Addresses path l) (slashAllowed : Bool) :
    fs.newEntry path slashAllowed = match fs.get? l with
      | none => .ok l
      | some _ => .error .entryExists := by
  obtain ⟨last, hlast, hentry⟩ := h.entry
  simp only [FileSystem.newEntry, hlast, hentry, bind, Except.bind]
  cases fs.get? l <;> rfl

theorem Addresses.makeDirectory (h : fs.Addresses path l) (mode : Nat) :
    fs.makeDirectory path mode = match fs.get? l with
      | none => .ok (fs.put l (.directory (mode ||| (fs.get? l.dropLast).elim 0 Node.mode &&& Node.groupBit)))
      | some _ => .error .entryExists := by
  simp only [FileSystem.makeDirectory, h.newEntry, bind, Except.bind]
  cases fs.get? l <;> rfl

theorem Addresses.unlink (h : fs.Addresses path l) :
    fs.unlink path = match fs.get? l with
      | none => .error .noEntry
      | some (.directory _) => .error .isDirectory
      | some _ => .ok (fs.erase l) := by
  obtain ⟨last, hlast, hentry⟩ := h.entry
  simp only [FileSystem.unlink, hlast, hentry, bind, Except.bind]
  cases fs.get? l with
  | none => rfl
  | some node => cases node <;> rfl

theorem Addresses.removeDirectory {mode : Nat} (h : fs.Addresses path l) (hdir : fs.get? l = some (.directory mode)) :
    fs.removeDirectory path = if fs.isEmptyDirectory l then .ok (fs.erase l) else .error .notEmpty := by
  obtain ⟨last, hlast, hentry⟩ := h.entry
  simp only [FileSystem.removeDirectory, hlast, hentry, hdir, bind, Except.bind]
  rfl

/-- What a rename does, given what stands under the old name and under the new one. -/
def renamed (fs : FileSystem) (s t : Location) : Except Errno FileSystem :=
  match fs.get? s, fs.get? t with
  | none, _ => .error .noEntry
  | some _, none => .ok (fs.move s t)
  | some node, some other =>
    if isSame (s, node) (t, other) then .ok fs
    else if node.isDirectory then
      if !other.isDirectory then .error .notDirectory
      else if !fs.isEmptyDirectory t then .error .notEmpty
      else .ok (fs.move s t)
    else if other.isDirectory then .error .isDirectory
    else .ok (fs.move s t)

theorem Addresses.rename {source target : Text} {s t : Location} (hs : fs.Addresses source s)
    (ht : fs.Addresses target t) (hst : ¬ s <+: t.dropLast) (hts : ¬ t <+: s.dropLast) :
    fs.rename source target = fs.renamed s t := by
  obtain ⟨old, hfrom, hold⟩ := hs.entry
  obtain ⟨new, hto, hnew⟩ := ht.entry
  rw [← List.isPrefixOf_iff_prefix, Bool.not_eq_true] at hst hts
  simp only [FileSystem.rename, renamed, hfrom, hto, hold, hnew, bind, Except.bind]
  cases fs.get? s with
  | none => rfl
  | some node =>
    cases fs.get? t with
    | none => simp [hst, hts, pure, Except.pure]
    | some other =>
      simp only [hst, hts, Bool.or_self, Bool.and_false, Bool.false_eq_true, if_false]
      split
      · rfl
      · split
        · split
          · rfl
          · split <;> rfl
        · split <;> rfl

/-- A file system with nothing at a location extends to any that differs only there and beneath. -/
theorem extends_of_without (hne : l ≠ []) (houter : ∀ l', ¬ l <+: l' → fs'.get? l' = fs.get? l')
    (hcwd : ¬ l <+: fs.workingDirectory → fs'.workingDirectory = fs.workingDirectory) :
    (fs.without l).Extends fs' := by
  have hget {l' : Location} {node : Node} (h : (fs.without l).get? l' = some node) :
      ¬ l <+: l' ∧ fs'.get? l' = some node := by
    rw [get?_without hne] at h
    split at h
    · cases h
    · rename_i hl
      exact ⟨hl, by rw [houter l' hl, h]⟩
  refine ⟨?_, ?_, ?_⟩
  · rintro l' ⟨mode, hm⟩
    exact ⟨mode, (hget hm).2⟩
  · intro l' target h
    exact (hget h).2
  · rintro ⟨mode, hm⟩
    exact hcwd (hget hm).1

theorem without_eq (fs : FileSystem) (l : Location) : (fs.eraseBelow l).erase l = fs.without l := by
  rw [without]
  simp only [erase, eraseBelow, List.filter_filter, Bool.and_comm]

/-- A directory whose path does not lead through itself goes with all beneath it. -/
theorem Addresses.removeTree {mode : Nat} (h : (fs.without l).Addresses path l)
    (hdir : fs.get? l = some (.directory mode)) : fs.removeTree path = fs.without l := by
  have hne := h.ne_nil
  have hself : fs.Addresses path l := h.of_extends (extends_of_without hne (fun _ _ => rfl) fun _ => rfl)
  have hbelow : (fs.eraseBelow l).Addresses path l := by
    have hext : (fs.without l).Extends (fs.eraseBelow l) := by
      refine extends_of_without hne (fun l' hl => ?_) fun _ => rfl
      rw [get?_eraseBelow, if_neg (fun hp => hl hp.1)]
    exact h.of_extends hext
  have hdir' : (fs.eraseBelow l).get? l = some (.directory mode) := by
    rw [get?_eraseBelow, if_neg (by simp), hdir]
  have hempty : (fs.eraseBelow l).isEmptyDirectory l = true := by
    rw [isEmptyDirectory_iff]
    intro name
    rw [get?_eraseBelow, if_pos ⟨List.prefix_append .., by simp⟩]
  simp only [FileSystem.removeTree, hself.status (.inl rfl), hdir, hbelow.removeDirectory hdir', if_pos hempty,
    without_eq]

end Prebuilt.FileSystem
