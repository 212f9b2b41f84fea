import Prebuilt.Proofs.Actions.Running
import Prebuilt.Proofs.Files.Beside
/-!
Moving something out of the way, putting something else in its place, and removing what was moved. For paths of entries of one
directory each of these either does its work or leaves the files as they are.
-/
set_option autoImplicit false

namespace Prebuilt

namespace Action

open FileSystem

variable {m m' : Machine} {path source target name : Text} {s t : Location}

theorem isSendable_append {a b : Text} : IsSendable (a ++ b) ↔ IsSendable a ∧ IsSendable b := by
  constructor
  · rintro ⟨_, hbytes, hzero⟩
    obtain ⟨x, y, hx, hy, rfl⟩ := Utf8.encodeFrom_append.1 hbytes
    simp only [List.contains_eq_mem, List.mem_append, decide_eq_false_iff_not, not_or] at hzero
    exact ⟨⟨x, hx, by simpa using hzero.1⟩, y, hy, by simpa using hzero.2⟩
  · rintro ⟨⟨x, hx, hzero⟩, y, hy, hzero'⟩
    refine ⟨x ++ y, Utf8.encodeFrom_append.2 ⟨x, y, hx, hy, rfl⟩, ?_⟩
    simp only [List.contains_eq_mem, decide_eq_false_iff_not] at hzero hzero' ⊢
    simp [hzero, hzero']

theorem isSendable_slash : IsSendable "/" := ⟨[47], by decide, by decide⟩

theorem isSendable_joinWith_iff {names : List Text} : IsSendable (Text.joinWith "/" names) ↔ ∀ part ∈ names, IsSendable part := by
  induction names with
  | nil => exact iff_of_true ⟨[], rfl, rfl⟩ (by simp)
  | cons part rest ih =>
    cases rest with
    | nil => simp [Text.joinWith]
    | cons next more => simp only [Text.joinWith, isSendable_append, isSendable_slash, and_true, ih, List.forall_mem_cons]

theorem isSendable_of_mem_names {part : Text} (hpath : IsSendable path) (h : part ∈ Path.names path) : IsSendable part := by
  rw [← Text.joinWith_splitOn '/' path] at hpath
  exact isSendable_joinWith_iff.1 hpath part (List.mem_filter.1 h).1

/-- A path of components that can be handed to the system can be handed to it as well. -/
theorem isSendable_toText {p : FilePath} (hroot : IsSendable p.root) (hparts : ∀ part ∈ p.parts, IsSendable part) :
    IsSendable p.toText := by
  rw [FilePath.toText]
  split
  · exact ⟨[46], by decide, by decide⟩
  · exact isSendable_append.2 ⟨hroot, isSendable_joinWith_iff.2 hparts⟩

/-! ## Moving aside -/

/-- The machine after one more identifier was given out. -/
def counted (m : Machine) : Machine := { m with identifiers := m.identifiers + 1 }

/-- The path that something is moved to next. -/
def nextAside (m : Machine) (path : Text) : Text := asidePath path (Text.hex 32 (m.identifiers + 1))

theorem exec_moveAside (path : Text) (m : Machine) : exec (moveAside path) m =
    match exec (rename path (nextAside m path)) (counted m) with
    | (.ok _, m') => (.ok (some (nextAside m path)), m')
    | (.error (.system e), m') => if e.errno = .noEntry then (.ok none, m') else (.error (.system e), m')
    | (.error e, m') => (.error e, m') := by
  have hfresh : exec freshIdentifier m = (.ok (Text.hex 32 (m.identifiers + 1)), counted m) := rfl
  rw [moveAside, exec_bind_of_ok hfresh]
  simp only
  rw [exec_bind_of_ok (exec_attempt _), ← nextAside]
  rcases exec (rename path (nextAside m path)) (counted m) with ⟨r, m'⟩
  cases r with
  | ok _ => rfl
  | error e =>
    cases e with
    | system e =>
      simp only
      split <;> rfl
    | _ => rfl

/-- Both the path and a name beside it are such as the system takes. -/
def Suits (p : FilePath) (name : Text) : Prop :=
  (Fits p p.name ∧ IsSendable p.toText) ∧ Fits p name ∧ IsSendable (p.beside name).toText

/-- What stands at a path is moved to the next name beside it, if there is anything; or the files are as they were. -/
theorem exec_moveAside_beside {p : FilePath} {d : Location} (hhome : m.files.Home p d) (hne : p.parts ≠ [])
    (hname : IsComponent p.name) (hshort : byteLength p.name ≤ nameLimit) (haside : nextAside m p.toText = (p.beside name).toText)
    (hnext : IsComponent name) (hdiff : Name.canonical p.name ≠ Name.canonical name)
    (hfree : m.files.get? (child d name) = none) :
    (∃ e, exec (moveAside p.toText) m = (.error e, counted m) ∧ ¬ Suits p name) ∨
      Fits p p.name ∧ IsSendable p.toText ∧ (m.files.get? (child d p.name) = none ∧
          exec (moveAside p.toText) m = (.ok none, counted m) ∨
        Fits p name ∧ IsSendable (p.beside name).toText ∧ m.files.get? (child d p.name) ≠ none ∧
          exec (moveAside p.toText) m = (.ok (some (p.beside name).toText),
            { counted m with files := m.files.move (child d p.name) (child d name) })) := by
  have hcases := hhome.rename_cases hname hshort hnext hdiff hfree
  rw [FilePath.beside_name hne] at hcases
  rw [exec_moveAside, haside, rename]
  by_cases hsend : IsSendable p.toText ∧ IsSendable (p.beside name).toText
  · rw [exec_requestTwo hsend.1 hsend.2]
    have hfiles : (counted m).files = m.files := rfl
    simp only [hfiles]
    rcases hcases with ⟨e, he, hrename, hlong⟩ | ⟨hfits, ⟨hnone, hrename⟩ | ⟨hfits', hthere, hrename⟩⟩
    · rw [hrename]
      exact .inl ⟨.system ⟨e, some p.toText, some (p.beside name).toText⟩, by simp [he], fun h => hlong ⟨h.1.1, h.2.1⟩⟩
    · rw [hrename]
      exact .inr ⟨hfits, hsend.1, .inl ⟨hnone, by simp⟩⟩
    · rw [hrename]
      exact .inr ⟨hfits, hsend.1, .inr ⟨hfits', hsend.2, hthere, rfl⟩⟩
  · obtain ⟨e, hsystem, he⟩ : ∃ e, e.isSystem = false ∧ exec (requestTwo p.toText (p.beside name).toText
        (·.rename p.toText (p.beside name).toText)) (counted m) = (.error e, counted m) :=
      exec_requestTwo_unsendable hsend (counted m)
    rw [he]
    refine .inl ⟨e, ?_, fun h => hsend ⟨h.1.2, h.2.2⟩⟩
    cases e <;> first | rfl | cases hsystem

/-! ## Entries that a core leaves free -/

/-- The path of an entry that the core leaves free, so that it leads there whatever stands at it. -/
structure Slot (core : FileSystem) (path : Text) (l : Location) : Prop where
  addresses : core.Addresses path l
  vacant : core.Vacant l
  sendable : IsSendable path

variable {core : FileSystem}

theorem Slot.rename (hs : Slot core source s) (ht : Slot core target t) (hst : Siblings s t) (hext : core.Extends m.files) :
    exec (Action.rename source target) m = match m.files.renamed s t with
      | .ok fs => (.ok (), { m with files := fs })
      | .error e => (.error (.system ⟨e, some source, some target⟩), m) := by
  have hrename := (hs.addresses.of_extends hext).rename (ht.addresses.of_extends hext) hst.not_prefix_dropLast
    hst.symm.not_prefix_dropLast
  rw [← hrename]
  exact exec_requestTwo hs.sendable ht.sendable m

/-- What is left when whatever stands at a location is gone. -/
def cleared (fs : FileSystem) (l : Location) : FileSystem :=
  match fs.get? l with
  | none => fs
  | some (.directory _) => fs.without l
  | some _ => fs.erase l

theorem get?_cleared {fs : FileSystem} {l l' : Location} (hroot : fs.Rooted) (hne : l ≠ []) :
    (cleared fs l).get? l' = if l <+: l' then none else fs.get? l' := by
  unfold cleared
  split
  · rename_i hnone
    split
    · exact vacant_of_none hroot hnone l' ‹_›
    · rfl
  · rw [get?_without hne]
  · rename_i node hnode hg
    rw [get?_erase hne]
    by_cases hl : l' = l
    · simp [hl]
    · rw [if_neg hl]
      split
      · rename_i hp
        by_contra hthere
        obtain ⟨mode, hm⟩ := hroot.isDir_of_below hp hl hthere
        exact hnode mode (Option.some.inj (hg.symm.trans hm))
      · rfl

theorem Slot.removeTree {mode : Nat} (h : Slot core path s) (hext : core.Extends m.files)
    (hdir : m.files.get? s = some (.directory mode)) :
    exec (Action.removeTree path) m = (.ok (), { m with files := m.files.without s }) := by
  have hremove := (h.addresses.of_extends (hext.without h.vacant)).removeTree hdir
  rw [Action.removeTree, exec_bind_of_ok (h.sendable.exec m), exec_bind_of_ok exec_files, hremove]
  rfl

/-- Where a directory stands it is removed. -/
theorem exec_discard {mode : Nat} (h : m.files.Addresses path s) (hsend : IsSendable path)
    (hdir : m.files.get? s = some (.directory mode)) : exec (Action.discard path) m = exec (Action.removeTree path) m := by
  have hentry := h.status (.inl (rfl : false = false))
  have htarget := h.status (.inr (by simp [IsLink, hdir]) : true = false ∨ _)
  rw [hdir] at hentry htarget
  rw [Action.discard, exec_bind_of_ok (hsend.exec m), exec_bind_of_ok exec_files]
  simp only [htarget]
  rw [exec_bind_of_ok (exec_isLink path), FileSystem.isLink, hentry]
  rfl

theorem Slot.removePath (h : Slot core path s) (hext : core.Extends m.files) :
    exec (Action.removePath path) m = (.ok (), { m with files := cleared m.files s }) := by
  have hhere := h.addresses.of_extends hext
  have hentry := hhere.status (.inl (rfl : false = false))
  have hunlink := hhere.unlink
  have hexec : exec (Action.removePath path) m = exec (if m.files.isDirectory path && !m.files.isLink path then Action.removeTree path
      else if m.files.hasEntry path then unlink path else return ()) m := by
    rw [Action.removePath, exec_bind_of_ok (exec_isDirectory path), exec_bind_of_ok (exec_isLink path)]
    split
    · rfl
    · rw [exec_bind_of_ok (exec_hasEntry path)]
  cases hg : m.files.get? s with
  | none =>
    have hlink : ¬ m.files.IsLink s := by simp [IsLink, hg]
    have htarget := hhere.status (.inr hlink : true = false ∨ _)
    rw [hg] at hentry htarget
    simp only [hexec, FileSystem.isDirectory, FileSystem.hasEntry, hentry, htarget, cleared, hg]
    rfl
  | some node =>
    rw [hg] at hentry hunlink
    by_cases hdir : node.isDirectory = true
    · obtain ⟨mode, rfl⟩ : ∃ mode, node = .directory mode := by cases node <;> simp_all [Node.isDirectory]
      have hlink : ¬ m.files.IsLink s := by simp [IsLink, hg]
      have htarget := hhere.status (.inr hlink : true = false ∨ _)
      rw [hg] at htarget
      simp only [hexec, FileSystem.isDirectory, FileSystem.isLink, hentry, htarget, cleared, hg]
      exact h.removeTree hext hg
    · have hskip : (m.files.isDirectory path && !m.files.isLink path) = false := by
        by_cases hlink : m.files.IsLink s
        · obtain ⟨target, ht⟩ := hlink
          rw [hg] at ht
          cases ht
          simp [FileSystem.isLink, hentry, Node.isLink]
        · have htarget := hhere.status (.inr hlink : true = false ∨ _)
          rw [hg] at htarget
          simp [FileSystem.isDirectory, htarget, hdir]
      have hthere : m.files.hasEntry path = true := by simp [FileSystem.hasEntry, hentry]
      have herase : m.files.unlink path = .ok (m.files.erase s) ∧ cleared m.files s = m.files.erase s := by
        cases node <;> simp_all [cleared, Node.isDirectory]
      rw [hexec, hskip, hthere, herase.2]
      simp only [Bool.false_eq_true, if_false, if_true]
      rw [Action.unlink, exec_request h.sendable]
      simp only [herase.1]

end Action

end Prebuilt
