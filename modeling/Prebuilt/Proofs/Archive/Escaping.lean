import Prebuilt.Proofs.Actions.Replacing
import Prebuilt.Proofs.Archive.Confinement
import Prebuilt.Proofs.Files.Lexical
/-!
What the check of member names refuses. Where there are no links it goes by the names alone: a member is refused if the components
that its name leads to from the target do not continue those of the target. What is there already makes no difference.
-/
set_option autoImplicit false

namespace Prebuilt

open FileSystem

variable {m : Machine} {target name path : Text} {names : List Text} {start : List Text} {p : FilePath}

/-- By its name a member does not lead into the target: its components are neither those of the target nor do they continue them. -/
def Path.LeadsOut (start : List Text) (target name : Text) : Prop := ¬ lexical start target <+: lexical start (join target name)

instance (start : List Text) (target name : Text) : Decidable (Path.LeadsOut start target name) :=
  inferInstanceAs (Decidable (¬ _ <+: _))

/-- What begins with the same letters lies beside the target; an absolute name may lead back into it. -/
example : Path.LeadsOut ["w"] "t" "../tt/x" ∧ ¬ Path.LeadsOut ["w"] "t" "a/../../../w//t/./x" ∧ ¬ Path.LeadsOut ["w"] "t" "/w/t" := by
  decide

namespace Action

/-- What can be relied on of the machine and the target: no links, and a proper working directory where it matters. -/
structure Plain (m : Machine) (target : Text) : Prop where
  noLinks : ∀ l, ¬ m.files.IsLink l
  homed : Path.isAbsolute target = false → m.files.Homed
  sendable : Path.isAbsolute target = false → IsSendable m.files.workingPath

theorem Plain.of_same {m' : Machine} (h : Plain m target) (hlinks : ∀ l, ¬ m'.files.IsLink l)
    (hcwd : m'.files.workingDirectory = m.files.workingDirectory) : Plain m' target where
  noLinks := hlinks
  homed ha := by
    obtain ⟨hname, hslash, hcanonical, hshort⟩ := h.homed ha
    constructor <;> rwa [hcwd]
  sendable ha := by
    rw [workingPath, hcwd]
    exact h.sendable ha

/-- Without links, resolving takes the components as they are. -/
theorem exec_resolve_of_no_links (hlinks : ∀ l, ¬ m.files.IsLink l) (hsend : IsSendable p.toText)
    (hhome : Path.isAbsolute p.toText = false → m.files.Homed) :
    exec (resolve p) m = (.ok ⟨"/", Path.lexical m.files.workingDirectory p.toText⟩, m) := by
  have hne := status_ne_tooManyLinks hlinks (FilePath.toText ⟨"/", Path.lexical m.files.workingDirectory p.toText⟩) true
  rw [resolve, exec_bind_of_ok (hsend.exec m), exec_bind_of_ok exec_files]
  simp only [ofText_resolvedText hlinks hhome]
  split
  · rename_i e he
    have hloop : e ≠ .tooManyLinks := fun hloop => hne (hloop ▸ he)
    rw [if_neg hloop]
    rfl
  · rfl

/-- The components of the target are names, and can be handed to the system. -/
theorem Plain.of_mem_lexical (h : Plain m target) (htarget : IsSendable target) {part : Text}
    (hpart : part ∈ Path.lexical m.files.workingDirectory target) : IsComponent part ∧ IsSendable part := by
  rcases Path.mem_foldl_step hpart with hstart | ⟨hmem, hne⟩
  · split at hstart
    · cases hstart
    · rename_i hrel
      have ha : Path.isAbsolute target = false := by simpa using hrel
      have hhome := h.homed ha
      rw [← names_workingPath hhome] at hstart
      have hsend := isSendable_of_mem_names (h.sendable ha) hstart
      rw [names_workingPath hhome] at hstart
      exact ⟨⟨hhome.isName part hstart, hhome.noSlash part hstart⟩, hsend⟩
  · exact ⟨⟨⟨Path.isPart_of_mem_names hmem, hne⟩, Path.no_slash_of_mem_names hmem⟩, isSendable_of_mem_names htarget hmem⟩

/-- The root is resolved to the components of the target. -/
theorem Plain.exec_root (h : Plain m target) (htarget : IsSendable target) :
    exec (resolve (FilePath.ofText target)) m = (.ok ⟨"/", Path.lexical m.files.workingDirectory target⟩, m) := by
  have hsend : IsSendable (FilePath.ofText target).toText := by
    refine isSendable_toText ?_ fun part hpart => isSendable_of_mem_names htarget hpart
    rcases (FilePath.tidy_ofText target).root with hroot | hroot | hroot <;> rw [hroot] <;> exact ⟨_, rfl, by decide⟩
  have hsame : Path.lexical m.files.workingDirectory (FilePath.ofText target).toText = Path.lexical m.files.workingDirectory target := by
    rw [Path.lexical, names_ofText, isAbsolute_ofText, Path.lexical]
  rw [exec_resolve_of_no_links h.noLinks hsend fun ha => h.homed (isAbsolute_ofText target ▸ ha), hsame]

/-- A member is resolved to the components of its name as it is seen from the target. -/
theorem Plain.exec_member (h : Plain m target) (htarget : IsSendable target) (hname : IsSendable name) :
    exec (resolve ((⟨"/", Path.lexical m.files.workingDirectory target⟩ : FilePath) / name)) m =
      (.ok ⟨"/", Path.lexical m.files.workingDirectory (Path.join target name)⟩, m) := by
  by_cases habs : Path.isAbsolute name = true
  · have hplain : Plain m name := ⟨h.noLinks, fun ha => by simp [habs] at ha, fun ha => by simp [habs] at ha⟩
    rw [FilePath.div_of_absolute _ habs, hplain.exec_root hname, Path.join_of_absolute habs]
  have hparts : (⟨"/", Path.lexical m.files.workingDirectory target⟩ : FilePath) / name =
      ⟨"/", Path.lexical m.files.workingDirectory target ++ Path.names name⟩ := by
    show FilePath.append _ (FilePath.ofText name) = _
    rw [FilePath.append, isEmpty_root, if_pos (by simpa using habs)]
    rfl
  have hroot : FilePath.Tidy ⟨"/", Path.lexical m.files.workingDirectory target⟩ :=
    ⟨.inr (.inl rfl), fun part hpart => (h.of_mem_lexical htarget hpart).1.isName.1, fun part hpart =>
      (h.of_mem_lexical htarget hpart).1.noSlash⟩
  have htidy := hroot.div name
  rw [hparts] at htidy ⊢
  have hsend : IsSendable (FilePath.toText ⟨"/", Path.lexical m.files.workingDirectory target ++ Path.names name⟩) := by
    refine isSendable_toText isSendable_slash fun part hpart => ?_
    exact (List.mem_append.1 hpart).elim (fun hpart => (h.of_mem_lexical htarget hpart).2) (isSendable_of_mem_names hname)
  have habsolute : Path.isAbsolute (FilePath.toText ⟨"/", Path.lexical m.files.workingDirectory target ++ Path.names name⟩) = true :=
    htidy.isAbsolute_toText
  have hlexical : Path.lexical m.files.workingDirectory
      (FilePath.toText ⟨"/", Path.lexical m.files.workingDirectory target ++ Path.names name⟩) =
        Path.lexical m.files.workingDirectory (Path.join target name) :=
    calc
      _ = (Path.lexical m.files.workingDirectory target ++ Path.names name).foldl Path.step [] := by
        rw [Path.lexical, htidy.names_toText, if_pos habsolute]
      _ = (Path.names name).foldl Path.step (Path.lexical m.files.workingDirectory target) := by
        rw [List.foldl_append, Path.foldl_step_of_ne fun part hpart => (h.of_mem_lexical htarget hpart).1.isName.2, List.nil_append]
      _ = Path.lexical (Path.lexical m.files.workingDirectory target) name := (congrArg (List.foldl Path.step · (Path.names name)) (if_neg habs)).symm
      _ = Path.lexical m.files.workingDirectory (Path.join target name) := (Path.lexical_join ..).symm
  rw [exec_resolve_of_no_links h.noLinks hsend fun ha => (Bool.noConfusion (habsolute.symm.trans ha)), hlexical]

theorem isWithin_iff {a b : List Text} : isWithin ⟨"/", a⟩ ⟨"/", b⟩ = true ↔ a <+: b := by
  simp only [isWithin, FilePath.mk.injEq, true_and, Bool.or_eq_true, decide_eq_true_eq, beq_self_eq_true, Bool.true_and,
    List.isPrefixOf_iff_prefix]
  exact ⟨fun h => h.elim (fun he => he ▸ List.prefix_rfl) id, .inr⟩

/-- One name is checked. -/
theorem Plain.exec_check (h : Plain m target) (htarget : IsSendable target) (hname : IsSendable name) : exec (do
      let path ← resolve ((⟨"/", Path.lexical m.files.workingDirectory target⟩ : FilePath) / name)
      if !isWithin ⟨"/", Path.lexical m.files.workingDirectory target⟩ path then throw (Error.download (.escapingMember name))) m =
    (if Path.LeadsOut m.files.workingDirectory target name then .error (.download (.escapingMember name)) else .ok (), m) := by
  have hcheck : (!isWithin ⟨"/", Path.lexical m.files.workingDirectory target⟩
      ⟨"/", Path.lexical m.files.workingDirectory (Path.join target name)⟩) = true ↔ Path.LeadsOut m.files.workingDirectory target name := by
    rw [Bool.not_eq_true', ← Bool.not_eq_true, isWithin_iff, Path.LeadsOut]
  rw [exec_bind_of_ok (h.exec_member htarget hname)]
  by_cases hout : Path.LeadsOut m.files.workingDirectory target name
  · rw [if_pos hout, if_pos (hcheck.2 hout), exec_throw]
  · rw [if_neg hout, if_neg fun h => hout (hcheck.1 h), exec_pure]

/-- The names are checked one after the other, and the first that leads out is reported; nothing is changed. -/
theorem Plain.exec_checkMembers (h : Plain m target) (htarget : IsSendable target) (hnames : ∀ name ∈ names, IsSendable name) :
    exec (checkMembers target names) m =
      (match names.find? (Path.LeadsOut m.files.workingDirectory target) with
        | none => .ok ()
        | some name => .error (.download (.escapingMember name)), m) := by
  rw [checkMembers, exec_bind_of_ok (h.exec_root htarget)]
  induction names with
  | nil => rfl
  | cons name rest ih =>
    obtain ⟨hname, hrest⟩ := List.forall_mem_cons.1 hnames
    have hfirst := h.exec_check htarget hname
    by_cases hout : Path.LeadsOut m.files.workingDirectory target name
    · rw [if_pos hout] at hfirst
      rw [List.find?_cons_of_pos (by simpa using hout)]
      exact exec_bind_of_error hfirst
    · rw [if_neg hout] at hfirst
      rw [List.find?_cons_of_neg (by simpa using hout)]
      exact (exec_bind_of_ok hfirst).trans (ih hrest)

/-- The check refuses exactly the members that lead out by their names. It reports the first of them by its name, leaves everything as
it is, and would say the same on any other files without links. -/
theorem checkMembers_decides (h : Plain m target) (htarget : IsSendable target) (hnames : ∀ name ∈ names, IsSendable name) :
    exec (checkMembers target names) m =
        (match names.find? (Path.LeadsOut m.files.workingDirectory target) with
          | none => .ok ()
          | some name => .error (.download (.escapingMember name)), m) ∧
      (∀ name, (Error.download (.escapingMember name)).message = "Archive member escapes extraction directory: " ++ name) ∧
      ∀ m' : Machine, (∀ l, ¬ m'.files.IsLink l) → m'.files.workingDirectory = m.files.workingDirectory →
        (exec (checkMembers target names) m').1 = (exec (checkMembers target names) m).1 := by
  refine ⟨h.exec_checkMembers htarget hnames, fun name => rfl, fun m' hlinks hcwd => ?_⟩
  rw [h.exec_checkMembers htarget hnames, (h.of_same hlinks hcwd).exec_checkMembers htarget hnames, hcwd]

/-- A machine that works in the directory `w`. -/
def working : Machine :=
  { unpacking [] with files := ⟨[(["w"], .directory 0o755), (["w", "t"], .directory 0o755)], 0, ["w"]⟩ }

theorem plain_working (target : Text) : Plain working target where
  noLinks l hlink := by
    obtain ⟨text, htext⟩ := hlink
    have hmem := mem_nodes_of_get? htext (by rintro rfl; cases htext)
    simp [working] at hmem
  homed _ := by
    have hname : IsName "w" := ⟨by decide, by decide⟩
    exact ⟨fun name h => List.mem_singleton.1 h ▸ hname, by decide, by decide, by decide⟩
  sendable _ := ⟨_, rfl, by decide⟩

/-- Two dots and back are fine. What only begins like the target is not, and comes first. -/
theorem checkMembers_decides_beside : exec (checkMembers "t" ["a/../b", "../t/x", "../tt/x", "/"]) working =
    (.error (.download (.escapingMember "../tt/x")), working) := by
  have hnames : ∀ name ∈ ([("a/../b" : Text), "../t/x", "../tt/x", "/"] : List Text), IsSendable name := by
    simp only [List.forall_mem_cons, List.not_mem_nil, false_imp_iff, implies_true, and_true]
    exact ⟨⟨_, rfl, by decide⟩, ⟨_, rfl, by decide⟩, ⟨_, rfl, by decide⟩, ⟨_, rfl, by decide⟩⟩
  have hfirst : ([("a/../b" : Text), "../t/x", "../tt/x", "/"] : List Text).find?
      (Path.LeadsOut working.files.workingDirectory "t") = some ("../tt/x" : Text) := by decide
  rw [(checkMembers_decides (plain_working "t") ⟨_, rfl, by decide⟩ hnames).1, hfirst]

end Action

end Prebuilt
