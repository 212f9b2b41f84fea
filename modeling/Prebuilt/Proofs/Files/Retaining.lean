import Prebuilt.Proofs.Files.Entries
/-!
Finding the same thing again. Where directories stay directories and nothing else that is there changes, a path that has led to a
file leads to the same file.
-/
set_option autoImplicit false

namespace Prebuilt.FileSystem

variable {fs fs' fs'' : FileSystem} {l : Location} {node : Node} {path : Text}

/-- Directories stay, and what is none stays as it is. -/
structure Retains (fs fs' : FileSystem) : Prop where
  dir : ∀ l, fs.IsDir l → fs'.IsDir l
  other : ∀ l node, fs.get? l = some node → node.isDirectory = false → fs'.get? l = some node
  cwd : fs'.workingDirectory = fs.workingDirectory

theorem Retains.trans (h : fs.Retains fs') (h' : fs'.Retains fs'') : fs.Retains fs'' where
  dir l hl := h'.dir l (h.dir l hl)
  other l node hg hnode := h'.other l node (h.other l node hg hnode) hnode
  cwd := h'.cwd.trans h.cwd

theorem Retains.start {d : Location} (h : fs.Retains fs') (hstart : fs.start path = .ok d) : fs'.start path = .ok d :=
  (Extends.start ⟨h.dir, fun l _ ht => h.other l _ ht rfl, fun _ => h.cwd⟩ hstart).1

/-- What stays may be a directory with another mode. -/
theorem Retains.walk {purpose : Purpose} {links : Nat} {d : Location} {parts : List Text} (h : fs.Retains fs')
    (hwalk : fs.walk purpose links d parts = .ok (.taken l node)) (hnode : node.isDirectory = false) :
    fs'.walk purpose links d parts = .ok (.taken l node) := by
  fun_induction FileSystem.walk fs purpose links d parts with
  | case1 links d =>
    cases hg : fs.get? d with
    | none =>
      rw [hg] at hwalk
      cases hwalk
      cases hnode
    | some there =>
      rw [hg] at hwalk
      cases hwalk
      rw [FileSystem.walk, h.other _ _ hg hnode]
  | case2 links d part rest hskip ih =>
    rw [FileSystem.walk, if_pos hskip]
    exact ih hwalk
  | case3 links d rest _ ih =>
    rw [walk_up]
    exact ih hwalk
  | case9 links d part rest hname hup hslashes hlong name location mode hg hrest ih =>
    obtain ⟨mode', hg'⟩ := h.dir _ ⟨mode, hg⟩
    rw [FileSystem.walk, if_neg hname, if_neg hup, if_neg hslashes, if_neg hlong]
    simp only [show fs'.get? (d ++ [Name.canonical part]) = some (.directory mode') from hg', if_neg hrest]
    exact ih hwalk
  | case10 links d part rest hname hup hslashes hlong name location target hg hend =>
    rw [FileSystem.walk, if_neg hname, if_neg hup, if_neg hslashes, if_neg hlong]
    simp only [show fs'.get? (d ++ [Name.canonical part]) = some (.link target) from h.other _ _ hg rfl, if_pos hend]
    exact hwalk
  | case12 d part rest hname hup hslashes hlong name location target hg hend links ih =>
    rw [FileSystem.walk, if_neg hname, if_neg hup, if_neg hslashes, if_neg hlong]
    simp only [show fs'.get? (d ++ [Name.canonical part]) = some (.link target) from h.other _ _ hg rfl, if_neg hend]
    exact ih hwalk
  | case13 links d part rest hname hup hslashes hlong name location there hdir hlink hg hend =>
    obtain ⟨-, rfl⟩ := Place.taken.inj (Except.ok.inj hwalk)
    have hg' : fs'.get? (d ++ [Name.canonical part]) = some there := h.other _ _ hg hnode
    rw [FileSystem.walk, if_neg hname, if_neg hup, if_neg hslashes, if_neg hlong]
    cases there with
    | directory mode => exact absurd rfl (hdir mode)
    | link target => exact absurd rfl (hlink target)
    | file number mode content =>
      simp only [hg', if_pos hend]
      exact hwalk
    | special number mode =>
      simp only [hg', if_pos hend]
      exact hwalk
  | case8 =>
    obtain ⟨-, rfl⟩ := Place.taken.inj (Except.ok.inj hwalk)
    cases hnode
  | case4 | case5 | case6 | case7 | case11 | case14 => cases hwalk

theorem Retains.status (h : fs.Retains fs') {followLast : Bool} (hstatus : fs.status path followLast = .ok (l, node))
    (hnode : node.isDirectory = false) : fs'.status path followLast = .ok (l, node) := by
  unfold FileSystem.status FileSystem.place at hstatus ⊢
  cases hstart : fs.start path with
  | error e =>
    rw [hstart] at hstatus
    cases hstatus
  | ok d =>
    rw [hstart] at hstatus
    rw [h.start hstart]
    simp only [bind, Except.bind] at hstatus ⊢
    cases hwalk : fs.walk (if followLast = true then .target else .entry) linkLimit d (Text.splitOn '/' path) with
    | error e =>
      rw [hwalk] at hstatus
      cases hstatus
    | ok place =>
      rw [hwalk] at hstatus
      cases place with
      | free => cases hstatus
      | taken l' node' =>
        cases hstatus
        rw [h.walk hwalk hnode]

end Prebuilt.FileSystem
