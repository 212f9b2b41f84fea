import Prebuilt.Proofs.Install.Asking
/-!
Which file is taken for a binary. The names that are there decide it alone: not the order in which directories are listed, and
nothing else on the machine.
-/
set_option autoImplicit false

namespace Prebuilt

open FileSystem Action FilePath

variable {m : Machine} {fs : FileSystem} {p : FilePath} {s l : Location} {below : List Text} {name binary : Text}

/-! ## Moving a file to the top -/

namespace Action

/-- Why a file is not moved to the place of a directory: it lies in that directory itself, or else it is no directory. -/
def blockedBy (s : Location) (name : Text) (below : List Name) : Errno :=
  if child s name <+: s ++ below then .notEmpty else .isDirectory

variable (h : m.files.Answers p s binary)

include h

/-- The first file of a name is moved to a free place, and stays where a directory has the place. -/
theorem raise_first (hname : name ∈ binaryNames binary) (hfirst : m.files.IsFirst s name below)
    (htop : ¬ m.files.HasFile s [] name) :
    (m.files.get? (child s name) = none ∧ exec (rename (p.under (below ++ [name])).toText (p / name).toText) m =
        (.ok (), { m with files := m.files.move (child (s ++ below) name) (child s name) })) ∨
      m.files.IsDir (child s name) ∧ exec (rename (p.under (below ++ [name])).toText (p / name).toText) m =
        (.error (.system ⟨blockedBy s name below, some (p.under (below ++ [name])).toText, some (p / name).toText⟩), m) := by
  obtain ⟨node, hg, hfile⟩ := hfirst.1
  have hcomponent := h.component_of_mem hname
  have hdir : m.files.IsDir (s ++ below) := by
    have hdir := h.reached.rooted (child (s ++ below) name) (by simp [hg])
    rwa [child, List.dropLast_concat] at hdir
  have hthere := hdir.get?_ne_none
  have htopmost : m.files.get? (s ++ []) ≠ none := by
    rw [List.append_nil]
    exact h.reached.isDir.get?_ne_none
  have hsend : IsSendable name := isSendable_of_canonical <| by
    have hnamed := h.named (child (s ++ below) name) ((List.prefix_append ..).trans (List.prefix_append ..)) (by simp [hg])
    exact hnamed _ (by simp [child])
  have hdiv : p / name = p.under [name] := by
    rw [p.div_eq_under hcomponent.noSlash, Path.names_of_part hcomponent.isName.1 hcomponent.noSlash]
  have hsource : m.files.Addresses (p.under (below ++ [name])).toText (child (s ++ below) name) := by
    obtain ⟨b, hb, hiff⟩ := h.isFile rfl (mem_directoriesBelow hdir) hname
    rw [hiff.2 hfirst.1] at hb
    have hbelow := h.isEntryName hthere
    have hcomponents : ∀ part ∈ below ++ [name], IsComponent part := by
      simpa [or_imp, forall_and, hcomponent] using fun part hpart => (hbelow part hpart).isComponent
    exact h.descend hthere ▸ (h.reached.isFile_of_shows hcomponents (isFile_true hb)).2.2
  have htarget : m.files.Addresses (p / name).toText (child s name) := by
    rw [hdiv]
    exact h.reached.addresses_name hcomponent (h.short_of_mem hname) (h.roomy [] List.mem_cons_self name hname)
  have hab : ¬ child (s ++ below) name <+: (child s name).dropLast := by
    intro hprefix
    have hlen := hprefix.length_le
    simp [child] at hlen
  have hba : child s name <+: (child (s ++ below) name).dropLast ↔ child s name <+: s ++ below := by
    rw [child, child, List.dropLast_concat]
  rw [rename, exec_requestTwo (h.sendable_under hthere hcomponent hsend) (hdiv ▸ h.sendable_under htopmost hcomponent hsend) m]
  rcases h.reached.cases (l := child s name) (List.prefix_append ..) with hnone | ⟨mode, hmode⟩ | hthere'
  · left
    have hnot : ¬ child s name <+: (child (s ++ below) name).dropLast := fun hprefix => by
      have hthere : m.files.IsDir (child s name) := by
        by_cases heq : child s name = s ++ below
        · exact heq ▸ hdir
        · exact h.reached.rooted.isDir_of_below (hba.1 hprefix) (Ne.symm heq) hthere
      exact hthere.get?_ne_none hnone
    rw [hsource.rename htarget hab hnot, renamed, hg, hnone]
    exact ⟨rfl, rfl⟩
  · right
    refine ⟨⟨mode, hmode⟩, ?_⟩
    by_cases hprefix : child s name <+: s ++ below
    · rw [hsource.rename_above htarget hg hab (hba.2 hprefix), blockedBy, if_pos hprefix]
    · rw [hsource.rename htarget hab (mt hba.1 hprefix), renamed, hg, hmode, blockedBy, if_neg hprefix]
      cases node with
      | file number mode' content =>
        have hother : isSame (child (s ++ below) name, .file number mode' content) (child s name, .directory mode) = false := by
          have hdiff : child (s ++ below) name ≠ child s name := fun heq => by
            rw [heq, hmode] at hg
            cases hg
          simp [isSame, Node.number?, hdiff]
        simp [hother, Node.isDirectory]
      | _ => cases hfile
  · refine absurd ?_ htop
    rwa [FileSystem.HasFile, List.append_nil]

theorem raiseNested_exact (hname : name ∈ binaryNames binary) (hwild : Glob.hasWildcard name = false)
    (htop : ¬ m.files.HasFile s [] name) :
    exec (raiseNested p name) m = (.ok none, m) ∧ (∀ below, ¬ m.files.HasFile s below name) ∨
      ∃ below, m.files.IsFirst s name below ∧
        ((m.files.get? (child s name) = none ∧ exec (raiseNested p name) m =
            (.ok (some (p / name)), { m with files := m.files.move (child (s ++ below) name) (child s name) })) ∨
          m.files.IsDir (child s name) ∧ exec (raiseNested p name) m =
            (.error (.system ⟨blockedBy s name below, some (p.under (below ++ [name])).toText, some (p / name).toText⟩), m)) := by
  obtain ⟨found, hsearch, hfound⟩ := h.searched rfl hname hwild
  rw [raiseNested, exec_bind_of_ok exec_files, hsearch, exec_bind_of_ok (exec_ofExcept (.ok found))]
  rcases hfound with ⟨he, hall⟩ | ⟨below, he, hfirst⟩
  · exact .inl ⟨exec_bind_of_ok he, hall⟩
  · refine .inr ⟨below, hfirst, (raise_first h hname hfirst htop).imp (And.imp_right fun hrun => ?_) (And.imp_right fun hrun => ?_)⟩
    · exact (exec_bind_of_ok he).trans (exec_bind_of_ok hrun)
    · exact (exec_bind_of_ok he).trans (exec_bind_of_error hrun)

/-- The first name that files beneath have is raised, or blocked. -/
theorem raise_each (hwild : ∀ name ∈ binaryNames binary, Glob.hasWildcard name = false)
    (htop : ∀ name ∈ binaryNames binary, ¬ m.files.HasFile s [] name) {items : List Text} (hitems : items ⊆ binaryNames binary) :
    exec (items.findSomeM? (raiseNested p)) m = (.ok none, m) ∧ (∀ x ∈ items, ∀ below, ¬ m.files.HasFile s below x) ∨
      ∃ before name after below, items = before ++ name :: after ∧ (∀ x ∈ before, ∀ other, ¬ m.files.HasFile s other x) ∧
        m.files.IsFirst s name below ∧
        ((m.files.get? (child s name) = none ∧ exec (items.findSomeM? (raiseNested p)) m =
            (.ok (some (p / name)), { m with files := m.files.move (child (s ++ below) name) (child s name) })) ∨
          m.files.IsDir (child s name) ∧ exec (items.findSomeM? (raiseNested p)) m =
            (.error (.system ⟨blockedBy s name below, some (p.under (below ++ [name])).toText, some (p / name).toText⟩), m)) := by
  induction items with
  | nil => exact .inl ⟨rfl, nofun⟩
  | cons name rest ih =>
    obtain ⟨hname, hrest⟩ := List.cons_subset.1 hitems
    rw [List.findSomeM?]
    rcases raiseNested_exact h hname (hwild name hname) (htop name hname) with ⟨he, hnone⟩ | ⟨below, hfirst, hraise⟩
    · rw [exec_bind_of_ok he]
      refine (ih hrest).imp (And.imp_right fun hall => List.forall_mem_cons.2 ⟨hnone, hall⟩) ?_
      rintro ⟨before, x, after, below, rfl, hbefore, hfirst, hraise⟩
      exact ⟨name :: before, x, after, below, rfl, List.forall_mem_cons.2 ⟨hnone, hbefore⟩, hfirst, hraise⟩
    · refine .inr ⟨[], name, rest, below, rfl, nofun, hfirst, hraise.imp (And.imp_right fun he => ?_) (And.imp_right fun he => ?_)⟩
      · rw [exec_bind_of_ok he]
        rfl
      · exact exec_bind_of_error he

end Action

/-! ## The file that is taken -/

theorem first_unique {α : Type} {P : α → Prop} {before before' after after' : List α} {a b : α}
    (h : before ++ a :: after = before' ++ b :: after') (hbefore : ∀ x ∈ before, ¬ P x) (ha : P a)
    (hbefore' : ∀ x ∈ before', ¬ P x) (hb : P b) : a = b := by
  rcases Tree.first_cases h with hmem | heq | hmem
  · exact absurd ha (hbefore' a hmem)
  · exact heq
  · exact absurd hb (hbefore b hmem)

namespace FileSystem

/-- The first name of the binary that a file at the top has. -/
structure IsTop (fs : FileSystem) (s : Location) (binary name : Text) : Prop where
  names : ∃ before after, binaryNames binary = before ++ name :: after ∧ ∀ x ∈ before, ¬ fs.HasFile s [] x
  hasFile : fs.HasFile s [] name

/-- No file at the top has a name of the binary; this is the first name that a file beneath has, and the first file of that name. -/
structure IsPicked (fs : FileSystem) (s : Location) (binary name : Text) (below : List Name) : Prop where
  none : ∀ x ∈ binaryNames binary, ¬ fs.HasFile s [] x
  names : ∃ before after, binaryNames binary = before ++ name :: after ∧ ∀ x ∈ before, ∀ other, ¬ fs.HasFile s other x
  first : fs.IsFirst s name below

/-- No file at all has a name of the binary. -/
def IsWithout (fs : FileSystem) (s : Location) (binary : Text) : Prop := ∀ x ∈ binaryNames binary, ∀ below, ¬ fs.HasFile s below x

variable {name' : Text} {below' : List Name}

theorem IsTop.mem (h : fs.IsTop s binary name) : name ∈ binaryNames binary := by
  obtain ⟨before, after, hnames, -⟩ := h.names
  simp [hnames]

theorem IsPicked.mem (h : fs.IsPicked s binary name below) : name ∈ binaryNames binary := by
  obtain ⟨before, after, hnames, -⟩ := h.names
  simp [hnames]

theorem IsTop.unique (h : fs.IsTop s binary name) (h' : fs.IsTop s binary name') : name = name' := by
  obtain ⟨before, after, hnames, hbefore⟩ := h.names
  obtain ⟨before', after', hnames', hbefore'⟩ := h'.names
  exact first_unique (hnames.symm.trans hnames') hbefore h.hasFile hbefore' h'.hasFile

theorem IsTop.not_picked (h : fs.IsTop s binary name) : ¬ fs.IsPicked s binary name' below' := fun h' => h'.none name h.mem h.hasFile

theorem IsTop.not_without (h : fs.IsTop s binary name) : ¬ fs.IsWithout s binary := fun h' => h' name h.mem [] h.hasFile

theorem IsPicked.not_without (h : fs.IsPicked s binary name below) : ¬ fs.IsWithout s binary :=
  fun h' => h' name h.mem below h.first.1

theorem IsPicked.unique (h : fs.IsPicked s binary name below) (h' : fs.IsPicked s binary name' below') :
    name = name' ∧ below = below' := by
  obtain ⟨before, after, hnames, hbefore⟩ := h.names
  obtain ⟨before', after', hnames', hbefore'⟩ := h'.names
  obtain rfl : name = name' := first_unique (P := fun x => ∃ other, fs.HasFile s other x) (hnames.symm.trans hnames')
    (by simpa using hbefore) ⟨below, h.first.1⟩ (by simpa using hbefore') ⟨below', h'.first.1⟩
  exact ⟨rfl, h.first.unique h'.first⟩

end FileSystem

/-- What comes of looking for a binary: what is given, and what is where then. -/
inductive Located (fs : FileSystem) (p : FilePath) (s : Location) (binary : Text) :
    Except Error FilePath → (Location → Option Node) → Prop
  | top {name : Text} : fs.IsTop s binary name → Located fs p s binary (.ok (p / name)) fs.get?
  /-- The file has moved to the top, and all else is where it was. -/
  | raised {name : Text} {below : List Name} : fs.IsPicked s binary name below → fs.get? (child s name) = none →
      Located fs p s binary (.ok (p / name)) fun l => if l = child s name then fs.get? (child (s ++ below) name)
        else if l = child (s ++ below) name then none else fs.get? l
  /-- A directory has its place. -/
  | blocked {name : Text} {below : List Name} : fs.IsPicked s binary name below → fs.IsDir (child s name) → Located fs p s binary
      (.error (.system ⟨blockedBy s name below, some (p.under (below ++ [name])).toText, some (p / name).toText⟩)) fs.get?
  | missing : fs.IsWithout s binary → Located fs p s binary (.error (.download (.missingBinary binary))) fs.get?

/-- It is decided by what is where. -/
theorem Located.unique {fs' : FileSystem} {r r' : Except Error FilePath} {after after' : Location → Option Node}
    (h : Located fs p s binary r after) (h' : Located fs' p s binary r' after') (hsame : fs'.get? = fs.get?) : r' = r ∧ after' = after := by
  have hfile : fs'.HasFile = fs.HasFile := by
    funext s below x
    rw [FileSystem.HasFile, FileSystem.HasFile, IsFile, IsFile, hsame]
  have htop {x : Text} (h : fs'.IsTop s binary x) : fs.IsTop s binary x := ⟨hfile ▸ h.names, hfile ▸ h.hasFile⟩
  have hpicked {x : Text} {below : List Name} (h : fs'.IsPicked s binary x below) : fs.IsPicked s binary x below :=
    ⟨hfile ▸ h.none, hfile ▸ h.names, by rw [FileSystem.IsFirst, ← hfile]; exact h.first⟩
  have hwithout (h : fs'.IsWithout s binary) : fs.IsWithout s binary := by rwa [FileSystem.IsWithout, ← hfile]
  cases h with
  | top h =>
    cases h' with
    | top h' => exact ⟨by rw [h.unique (htop h')], hsame⟩
    | raised h' => exact absurd (hpicked h') h.not_picked
    | blocked h' => exact absurd (hpicked h') h.not_picked
    | missing h' => exact absurd (hwithout h') h.not_without
  | raised h hfree =>
    cases h' with
    | top h' => exact absurd h (htop h').not_picked
    | raised h' =>
      obtain ⟨rfl, rfl⟩ := h.unique (hpicked h')
      exact ⟨rfl, by rw [hsame]⟩
    | blocked h' hdir =>
      obtain ⟨rfl, rfl⟩ := h.unique (hpicked h')
      exact absurd (hsame ▸ hfree) hdir.get?_ne_none
    | missing h' => exact absurd (hwithout h') h.not_without
  | blocked h hdir =>
    cases h' with
    | top h' => exact absurd h (htop h').not_picked
    | raised h' hfree =>
      obtain ⟨rfl, rfl⟩ := h.unique (hpicked h')
      exact absurd (hsame ▸ hfree) hdir.get?_ne_none
    | blocked h' =>
      obtain ⟨rfl, rfl⟩ := h.unique (hpicked h')
      exact ⟨rfl, hsame⟩
    | missing h' => exact absurd (hwithout h') h.not_without
  | missing h =>
    cases h' with
    | top h' => exact absurd h (htop h').not_without
    | raised h' => exact absurd h (hpicked h').not_without
    | blocked h' => exact absurd h (hpicked h').not_without
    | missing => exact ⟨rfl, hsame⟩

/-- Looking for a binary touches nothing but the files, and its outcome is the one described. -/
theorem locateBinary_located (h : m.files.Answers p s binary) (hwild : Glob.hasWildcard binary = false) : ∃ r fs,
    exec (locateBinary p binary) m = (r, { m with files := fs }) ∧ Located m.files p s binary r fs.get? := by
  have hwild := fun name (hname : name ∈ binaryNames binary) => hasWildcard_of_mem_binaryNames hwild hname
  have htop : ∀ name ∈ binaryNames binary, ∃ b, exec (isFileAt (p / name)) m = (.ok b, m) ∧ (b = true ↔ m.files.HasFile s [] name) := by
    intro name hname
    have hcomponent := h.component_of_mem hname
    rw [p.div_eq_under hcomponent.noSlash, Path.names_of_part hcomponent.isName.1 hcomponent.noSlash]
    have hfile := h.isFile rfl List.mem_cons_self hname
    rwa [List.nil_append] at hfile
  simp only [locateBinary]
  rcases findM?_decides htop with ⟨he, hnone⟩ | ⟨before, name, after, hnames, he, hfile, hbefore⟩
  · rw [exec_bind_of_ok he]
    rcases raise_each h hwild hnone (List.Subset.refl _) with
      ⟨hrun, hall⟩ | ⟨before, name, after, below, hnames, hbefore, hfirst, ⟨hfree, hrun⟩ | ⟨hdir, hrun⟩⟩
    · rw [exec_bind_of_ok hrun]
      exact ⟨_, m.files, rfl, .missing hall⟩
    · rw [exec_bind_of_ok hrun]
      obtain ⟨node, hg, hfile⟩ := hfirst.1
      refine ⟨_, _, rfl, ?_⟩
      have hmoved := get?_move_leaf h.reached.rooted (IsFile.not_isDir ⟨node, hg, hfile⟩) (by simp [hg]) hfree
        (by rw [child, List.dropLast_concat]; exact h.reached.isDir) child_ne_nil
      rw [funext hmoved]
      exact .raised ⟨hnone, ⟨before, after, hnames, hbefore⟩, hfirst⟩ hfree
    · rw [exec_bind_of_error hrun]
      exact ⟨_, m.files, rfl, .blocked ⟨hnone, ⟨before, after, hnames, hbefore⟩, hfirst⟩ hdir⟩
  · rw [exec_bind_of_ok he]
    exact ⟨_, m.files, rfl, .top ⟨⟨before, after, hnames, hbefore⟩, hfile⟩⟩

/-- A binary is looked for as described, whatever the order in which the file system lists what it has: on any machine with the
same things at the same places the outcome is the same. -/
theorem locateBinary_exact (h : m.files.Answers p s binary) (hwild : Glob.hasWildcard binary = false) : ∃ r fs,
    exec (locateBinary p binary) m = (r, { m with files := fs }) ∧ Located m.files p s binary r fs.get? ∧
      ∀ m' : Machine, m'.files.Answers p s binary → m'.files.get? = m.files.get? → ∃ fs',
        exec (locateBinary p binary) m' = (r, { m' with files := fs' }) ∧ fs'.get? = fs.get? := by
  obtain ⟨r, fs, hrun, hlocated⟩ := locateBinary_located h hwild
  refine ⟨r, fs, hrun, hlocated, fun m' h' hsame => ?_⟩
  obtain ⟨r', fs', hrun', hlocated'⟩ := locateBinary_located h' hwild
  obtain ⟨rfl, hafter⟩ := hlocated.unique hlocated' hsame
  exact ⟨fs', hrun', hafter⟩

/-! ## A directory of the root -/

theorem reached_top (hroot : fs.Rooted) (hdir : fs.IsDir ["t"]) (hplain : ∀ x ∈ fs.nodes, Links.none.Allows x.2) :
    fs.Reached ⟨"/", ["t"]⟩ ["t"] where
  tidy := tidy_ofText "/t"
  addresses := by
    have hsplit : Text.splitOn '/' (FilePath.toText ⟨"/", ["t"]⟩) = [[]] ++ [("t" : Text)] := by decide
    exact .intro hsplit ⟨by decide, by decide⟩ (by decide) rfl (Nat.zero_le _) (.skip rfl (.nil _)) isDir_nil
  isDir := hdir
  plain l node hl hg := hplain (l, node) (mem_nodes_of_get? hg (List.ne_nil_of_mem (hl.subset (List.mem_singleton_self _))))
  rooted := hroot

/-- Two directories that both have the binary. -/
def pairFiles : FileSystem :=
  ⟨[(["t"], .directory 0o755), (["t", "b"], .directory 0o755), (["t", "b", "run"], .file 0 0o644 [1]), (["t", "a"], .directory 0o755),
    (["t", "a", "run"], .file 1 0o644 [2])], 2, []⟩

theorem sound_pairFiles : pairFiles.Sound := by
  have hname : ∀ name ∈ [("t" : Text), "a", "b", "run"], IsEntryName name := by
    intro name hname
    simp only [List.mem_cons, List.not_mem_nil, or_false] at hname
    rcases hname with rfl | rfl | rfl | rfl <;> exact ⟨⟨by decide, by decide⟩, by decide, by decide, by decide⟩
  refine sound_of_nodes (fun x hx => ?_) (fun x hx name hin => hname name ?_) fun x hx number hn => ?_ <;>
    simp only [pairFiles, List.mem_cons, List.not_mem_nil, or_false] at hx
  · rcases hx with rfl | rfl | rfl | rfl | rfl
    · exact isDir_nil
    all_goals exact ⟨0o755, by decide⟩
  · rcases hx with rfl | rfl | rfl | rfl | rfl <;> revert hin name <;> decide
  · rcases hx with rfl | rfl | rfl | rfl | rfl <;> cases hn <;> decide

theorem answers_pairFiles : pairFiles.Answers ⟨"/", ["t"]⟩ ["t"] "run" where
  reached := by
    refine reached_top sound_pairFiles.rooted ⟨0o755, by decide⟩ fun x hx => ?_
    simp only [pairFiles, List.mem_cons, List.not_mem_nil, or_false] at hx
    rcases hx with rfl | rfl | rfl | rfl | rfl <;> trivial
  sound := sound_pairFiles
  sendable := ⟨[47, 116], by decide, by decide⟩
  named l hl hthere part hpart := by
    obtain ⟨node, hg⟩ := Option.ne_none_iff_exists'.1 hthere
    have hmem := mem_nodes_of_get? hg (List.ne_nil_of_mem (hl.subset (List.mem_singleton_self _)))
    have hletters : ∀ name ∈ [("t" : Text), "a", "b", "run"], IsSendable name := by
      intro name hname
      simp only [List.mem_cons, List.not_mem_nil, or_false] at hname
      rcases hname with rfl | rfl | rfl | rfl <;> exact ⟨_, rfl, by decide⟩
    refine hletters part ?_
    replace hpart := List.mem_of_mem_drop hpart
    simp only [pairFiles, List.mem_cons, List.not_mem_nil, or_false, Prod.mk.injEq] at hmem
    rcases hmem with ⟨rfl, -⟩ | ⟨rfl, -⟩ | ⟨rfl, -⟩ | ⟨rfl, -⟩ | ⟨rfl, -⟩ <;> revert hpart part <;> decide
  component := ⟨⟨by decide, by decide⟩, by decide⟩
  short := by decide
  roomy := by decide

/-- Something is given, and what it is does not depend on the list of entries. -/
theorem locateBinary_exact_pair : ∃ r fs, exec (locateBinary ⟨"/", ["t"]⟩ "run") (serving [] pairFiles) =
      (r, { serving [] pairFiles with files := fs }) ∧ Located pairFiles ⟨"/", ["t"]⟩ ["t"] "run" r fs.get? ∧
      ∀ m' : Machine, m'.files.Answers ⟨"/", ["t"]⟩ ["t"] "run" → m'.files.get? = pairFiles.get? → ∃ fs',
        exec (locateBinary ⟨"/", ["t"]⟩ "run") m' = (r, { m' with files := fs' }) ∧ fs'.get? = fs.get? :=
  locateBinary_exact (m := serving [] pairFiles) answers_pairFiles (by decide)

/-! ## A deep directory -/

set_option maxRecDepth 10000

def deepName : Text := List.replicate 250 (CodePoint.char 'a')

def deepBinary : Text := List.replicate 250 (CodePoint.char 'b')

def deepWay (depth : Nat) : Location := "t" :: List.replicate depth deepName

/-- Directories in one another; the path of the last one is not too long, but no long name can be asked for in it. -/
def deepFiles : FileSystem := ⟨(List.range 17).map fun depth => (deepWay depth, .directory 0o755), 0, []⟩

theorem isDir_of_deepFiles {node : Node} (hl : l ≠ []) (h : deepFiles.get? l = some node) : node = .directory 0o755 := by
  obtain ⟨depth, -, hdepth⟩ := List.mem_map.1 (mem_nodes_of_get? h hl)
  exact (congrArg Prod.snd hdepth).symm

theorem deepWay_ne_nil (depth : Nat) : deepWay depth ≠ [] := List.cons_ne_nil _ _

theorem get?_deepFiles {depth : Nat} (h : depth < 17) : deepFiles.get? (deepWay depth) = some (.directory 0o755) := by
  obtain ⟨node, hnode⟩ : ∃ node, deepFiles.get? (deepWay depth) = some node := by
    rw [← Option.isSome_iff_exists, get?_isSome_iff (deepWay_ne_nil depth)]
    exact ⟨_, List.mem_map.2 ⟨depth, List.mem_range.2 h, rfl⟩⟩
  rw [hnode, isDir_of_deepFiles (deepWay_ne_nil depth) hnode]

theorem sound_deepFiles : deepFiles.Sound := by
  have hdeep : IsEntryName deepName :=
    ⟨⟨by decide, by decide⟩, by decide, by decide, by decide⟩
  have htop : IsEntryName "t" := ⟨⟨by decide, by decide⟩, by decide, by decide, by decide⟩
  refine sound_of_nodes (fun x hx => ?_) (fun x hx name hin => ?_) fun x hx number hn => ?_ <;>
    obtain ⟨depth, hdepth, rfl⟩ := List.mem_map.1 hx
  · rw [List.mem_range] at hdepth
    cases depth with
    | zero => exact isDir_nil
    | succ depth =>
      refine ⟨0o755, ?_⟩
      rw [deepWay, List.replicate_succ', ← List.cons_append, List.dropLast_concat]
      exact get?_deepFiles (by omega)
  · rcases List.mem_cons.1 hin with rfl | hin
    · exact htop
    · exact (List.eq_of_mem_replicate hin) ▸ hdeep
  · cases hn

theorem reached_deepFiles : deepFiles.Reached ⟨"/", ["t"]⟩ ["t"] := by
  refine reached_top sound_deepFiles.rooted ⟨0o755, get?_deepFiles (by decide : 0 < 17)⟩ fun x hx => ?_
  obtain ⟨depth, -, rfl⟩ := List.mem_map.1 hx
  trivial

/-- There is no file at all. -/
theorem not_hasFile_deepFiles (below : List Name) (name : Text) : ¬ deepFiles.HasFile ["t"] below name := by
  rintro ⟨node, hg, hfile⟩
  rw [isDir_of_deepFiles child_ne_nil hg] at hfile
  cases hfile

/-- One error among answers is an error. -/
theorem filterMapM_error {α β : Type} {f : α → Except Error (Option β)} {items : List α} {a : α} {e : Error} (ha : a ∈ items)
    (herror : f a = .error e) (hsystem : ∀ x ∈ items, ∀ e, f x = .error e → e.isSystem = true) :
    ∃ e, e.isSystem = true ∧ items.filterMapM f = .error e := by
  induction items with
  | nil => cases ha
  | cons x rest ih =>
    obtain ⟨hx, hrest⟩ := List.forall_mem_cons.1 hsystem
    rw [List.filterMapM_cons]
    cases hfx : f x with
    | error e => exact ⟨e, hx e hfx, rfl⟩
    | ok r =>
      have hmem : a ∈ rest := by
        rcases List.mem_cons.1 ha with rfl | hmem
        · cases hfx.symm.trans herror
        · exact hmem
      obtain ⟨e, he, hrun⟩ := ih hmem hrest
      refine ⟨e, he, ?_⟩
      cases r <;> simp [hrun, bind, Except.bind]

theorem named?_isSystem {e : Error} (h : fs.named? p name below = .error e) : e.isSystem = true := by
  unfold FileSystem.named? FileSystem.node? at h
  split at h
  · cases h
  · split at h <;> cases h
    rfl

theorem isComponent_deepBinary : ∀ name ∈ binaryNames deepBinary, IsComponent name ∧ byteLength name ≤ nameLimit ∧
    byteLength (FilePath.under ⟨"/", ["t"]⟩ [name]).toText < pathLimit := by
  simp only [binaryNames, List.forall_mem_cons, List.not_mem_nil, false_imp_iff, implies_true, and_true]
  exact ⟨⟨⟨⟨by decide, by decide⟩, by decide⟩, by decide, by decide⟩,
    ⟨⟨by decide, by decide⟩, by decide⟩, by decide, by decide⟩

theorem encode_deepWay (depth : Nat) : ∃ bytes, Utf8.encodeName (Text.joinWith "/" (List.replicate depth deepName ++ [deepBinary])) =
    .ok bytes ∧ bytes.length = 251 * depth + 250 := by
  have hname : Utf8.encodeName deepName = .ok (List.replicate 250 97) := by decide
  have hslash : Utf8.encodeName "/" = .ok [47] := by decide
  induction depth with
  | zero =>
    have hbinary : Utf8.encodeName deepBinary = .ok (List.replicate 250 98) := by decide
    exact ⟨_, hbinary, List.length_replicate⟩
  | succ depth ih =>
    obtain ⟨bytes, hbytes, hlength⟩ := ih
    have hjoin : Text.joinWith "/" (List.replicate (depth + 1) deepName ++ [deepBinary]) =
        deepName ++ "/" ++ Text.joinWith "/" (List.replicate depth deepName ++ [deepBinary]) := by
      rw [List.replicate_succ, List.cons_append, ← List.singleton_append, Text.joinWith_append _ (by simp) (by simp)]
      rfl
    rw [hjoin]
    refine ⟨_, Utf8.encodeFrom_append.2 ⟨_, _, Utf8.encodeFrom_append.2 ⟨_, _, hname, hslash, rfl⟩, hbytes, rfl⟩, ?_⟩
    simp only [List.length_append, List.length_replicate, hlength, List.length_singleton]
    omega

theorem isStep_deep : ∀ part ∈ List.replicate 16 deepName ++ [deepBinary], IsStep part := by
  obtain ⟨hcomponent, -⟩ := isComponent_deepBinary deepBinary (List.mem_cons_self ..)
  have hdeep : IsStep deepName := ⟨by decide, by decide⟩
  intro part hpart
  rcases List.mem_append.1 hpart with hpart | hpart
  · exact List.eq_of_mem_replicate hpart ▸ hdeep
  · exact List.mem_singleton.1 hpart ▸ hcomponent.isStep

theorem start_deepFiles : deepFiles.start (FilePath.under ⟨"/", ["t"]⟩ (List.replicate 16 deepName ++ [deepBinary])).toText =
    .error .nameTooLong := by
  have htidy : FilePath.Tidy ⟨"/", ["t"]⟩ := tidy_ofText "/t"
  have hlong : pathLimit ≤ byteLength (FilePath.under ⟨"/", ["t"]⟩ (List.replicate 16 deepName ++ [deepBinary])).toText := by
    obtain ⟨bytes, hbytes, hlength⟩ := encode_deepWay 16
    have hfront : Utf8.encodeName ((⟨"/", ["t"]⟩ : FilePath).toText ++ "/") = .ok [47, 116, 47] := by decide
    rw [htidy.toText_under (by decide) (by simp) isStep_deep,
      byteLength_of_ok (Utf8.encodeFrom_append.2 ⟨_, _, hfront, hbytes, rfl⟩), List.length_append, hlength]
    simp [pathLimit]
  have habsolute : Path.isAbsolute (FilePath.under ⟨"/", ["t"]⟩ (List.replicate 16 deepName ++ [deepBinary])).toText = true := by
    rw [htidy.isAbsolute_under isStep_deep]
    decide
  rw [start_cases (toText_ne_nil _) (.inl habsolute), if_pos hlong]

theorem named?_of_start (h : fs.start (p.under (below ++ [name])).toText = .error .nameTooLong) :
    ∃ e, fs.named? p name below = .error e := by
  simp only [FileSystem.named?, FileSystem.node?, FileSystem.status, FileSystem.place, h, bind, Except.bind]
  exact ⟨_, rfl⟩

/-- In the deepest directory the binary cannot be asked for. -/
theorem search_deepFiles : ∃ e, e.isSystem = true ∧ deepFiles.search ⟨"/", ["t"]⟩ deepBinary = .error e := by
  obtain ⟨hcomponent, -⟩ := isComponent_deepBinary deepBinary (List.mem_cons_self ..)
  obtain ⟨e, hlast⟩ := named?_of_start start_deepFiles
  have hdeepest : List.replicate 16 deepName ∈ deepFiles.directoriesBelow ["t"] :=
    mem_directoriesBelow ⟨0o755, get?_deepFiles (by decide : 16 < 17)⟩
  obtain ⟨e, he, hrun⟩ := filterMapM_error hdeepest hlast fun below _ e => named?_isSystem
  exact ⟨e, he, by rw [search_eq reached_deepFiles hcomponent (by decide), hrun]; rfl⟩

/-- No file has a name of the binary, and looking for it fails for another reason. -/
theorem locateBinary_too_deep : deepFiles.Sound ∧ deepFiles.Reached ⟨"/", ["t"]⟩ ["t"] ∧ IsComponent deepBinary ∧
    Glob.hasWildcard deepBinary = false ∧ byteLength deepBinary ≤ 251 ∧ deepFiles.IsWithout ["t"] deepBinary ∧
    ∃ e, e.isSystem = true ∧ exec (locateBinary ⟨"/", ["t"]⟩ deepBinary) (serving [] deepFiles) = (.error e, serving [] deepFiles) := by
  obtain ⟨hcomponent, -⟩ := isComponent_deepBinary deepBinary (List.mem_cons_self ..)
  refine ⟨sound_deepFiles, reached_deepFiles, hcomponent, by decide, by decide,
    fun name _ below => not_hasFile_deepFiles below name, ?_⟩
  have htop : ∀ name ∈ binaryNames deepBinary, ∃ b, exec (isFileAt ((⟨"/", ["t"]⟩ : FilePath) / name)) (serving [] deepFiles) =
      (.ok b, serving [] deepFiles) ∧ (b = true ↔ False) := by
    intro name hname
    obtain ⟨hcomponent, hshort, hroom⟩ := isComponent_deepBinary name hname
    rw [div_eq_under (⟨"/", ["t"]⟩ : FilePath) hcomponent.noSlash, Path.names_of_part hcomponent.isName.1 hcomponent.noSlash]
    obtain ⟨hnode, hlong⟩ := reached_deepFiles.node?_under (by simpa using hcomponent) (by simpa using hshort) (by simp) hroom
    obtain ⟨b, hb, hshows⟩ := isFile_decides (m := serving [] deepFiles) hlong
    refine ⟨b, hb, hshows.trans ⟨?_, False.elim⟩⟩
    rintro ⟨-, node, hg, hfile⟩
    exact not_hasFile_deepFiles [] name ⟨node, Except.ok.inj (hnode.symm.trans hg), hfile⟩
  obtain ⟨e, he, hsearch⟩ := search_deepFiles
  refine ⟨e, he, ?_⟩
  have hnone : exec ((binaryNames deepBinary).findM? fun name => isFileAt ((⟨"/", ["t"]⟩ : FilePath) / name)) (serving [] deepFiles) =
      (.ok none, serving [] deepFiles) := by
    rcases findM?_decides htop with ⟨hrun, -⟩ | ⟨_, _, _, -, -, hfalse, -⟩
    · exact hrun
    · exact hfalse.elim
  have hraise : exec (raiseNested ⟨"/", ["t"]⟩ deepBinary) (serving [] deepFiles) = (.error e, serving [] deepFiles) := by
    rw [raiseNested, exec_bind_of_ok exec_files]
    exact exec_bind_of_error (by rw [exec_ofExcept, show (serving [] deepFiles).files = deepFiles from rfl, hsearch])
  simp only [locateBinary]
  rw [exec_bind_of_ok hnone]
  exact exec_bind_of_error (by rw [binaryNames, List.findSomeM?]; exact exec_bind_of_error hraise)

end Prebuilt
