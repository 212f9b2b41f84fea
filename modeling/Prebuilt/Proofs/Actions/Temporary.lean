import Prebuilt.Proofs.Actions.Confined
import Prebuilt.Proofs.Actions.Replacing
/-!
Temporary directories. One is made under a name that was free, and with it goes all that was done in it.
-/
set_option autoImplicit false

namespace Prebuilt.Action

open FileSystem

variable {m m' : Machine} {directory start path : Text} {s : Location} {links : Links} {roots : List Location}
  {base fs : FileSystem} {mode : Nat}

/-- A name that starts like this and may be free. -/
def temporaryPath (directory start : Text) (attempt : Nat) : Text := Path.join directory (start ++ temporaryEnding attempt)

/-- A directory is made, or nothing is. -/
theorem makeTemporary_cases (directory start : Text) (m : Machine) :
    (∃ e, exec (makeTemporary directory start) m = (.error e, m)) ∨
      ∃ attempt fs, exec (makeTemporary directory start) m =
          (.ok (temporaryPath directory start attempt), { m with files := fs }) ∧
        m.files.makeDirectory (temporaryPath directory start attempt) 0o700 = .ok fs ∧
        IsSendable (temporaryPath directory start attempt) := by
  suffices h : ∀ fuel attempt, (∃ e, exec (makeTemporary.go directory start fuel attempt) m = (.error e, m)) ∨
      ∃ attempt' fs, exec (makeTemporary.go directory start fuel attempt) m =
          (.ok (temporaryPath directory start attempt'), { m with files := fs }) ∧
        m.files.makeDirectory (temporaryPath directory start attempt') 0o700 = .ok fs ∧
        IsSendable (temporaryPath directory start attempt') from h nameAttempts 0
  intro fuel
  induction fuel with
  | zero => exact fun _ => .inl ⟨_, rfl⟩
  | succ fuel ih =>
    intro attempt
    simp only [makeTemporary.go]
    rw [exec_bind_of_ok (exec_attempt _), ← temporaryPath]
    rcases request_cases (temporaryPath directory start attempt) (·.makeDirectory (temporaryPath directory start attempt) 0o700) m
      with ⟨e, he⟩ | ⟨fs, hfs, he⟩
    · have he : exec (makeDirectory (temporaryPath directory start attempt) 0o700) m = (.error e, m) := he
      simp only [he]
      cases e with
      | system e =>
        by_cases hthere : e.errno = .entryExists
        · simpa only [hthere, if_true] using ih (attempt + 1)
        · exact .inl ⟨.system e, by simp [hthere]⟩
      | _ => exact .inl ⟨_, rfl⟩
    · have hsend := isSendable_of_request he
      have he : exec (makeDirectory (temporaryPath directory start attempt) 0o700) m = (.ok (), { m with files := fs }) := he
      simp only [he]
      exact .inr ⟨attempt, fs, rfl, hfs, hsend⟩

/-- Where a temporary directory comes to lie. -/
structure Fresh (fs : FileSystem) (path : Text) (s : Location) : Prop where
  addresses : fs.Addresses path s
  none : fs.get? s = none
  nameable : Nameable s
  isDir : fs.IsDir s.dropLast
  sendable : IsSendable path

theorem fresh_of_makeDirectory (hroot : base.Rooted) (hslash : Path.endsInSlash path = false) (hsend : IsSendable path)
    (h : base.makeDirectory path mode = .ok fs) : ∃ s mode', Fresh base path s ∧ fs = base.put s (.directory mode') := by
  obtain ⟨s, mode', hs, rfl⟩ := makeDirectory_ok h
  obtain ⟨-, hnone, hdir, hname⟩ := newEntry_denotes hroot hs
  exact ⟨s, mode', ⟨(addresses_of_newEntry hroot hs hslash).1, hnone, hname, hdir, hsend⟩, rfl⟩

/-- A temporary directory is new, or nothing is. -/
theorem exec_makeTemporary (directory : Text) (hroot : m.files.Rooted) (hname : ∀ attempt, IsComponent (start ++ temporaryEnding attempt)) :
    (∃ e, exec (makeTemporary directory start) m = (.error e, m)) ∨
      ∃ attempt s mode, exec (makeTemporary directory start) m =
          (.ok (temporaryPath directory start attempt), { m with files := m.files.put s (.directory mode) }) ∧
        Fresh m.files (temporaryPath directory start attempt) s := by
  refine (makeTemporary_cases directory start m).imp_right ?_
  rintro ⟨attempt, fs, he, hmade, hsend⟩
  obtain ⟨s, mode, hfresh, rfl⟩ := fresh_of_makeDirectory hroot
    (Path.endsInSlash_join (hname attempt).ne_nil (hname attempt).noSlash) hsend hmade
  exact ⟨attempt, s, mode, he, hfresh⟩

theorem Fresh.slot (h : Fresh base path s) (hroot : base.Rooted) : Slot base path s :=
  ⟨h.addresses, vacant_of_none hroot h.none, h.sendable⟩

theorem Fresh.barren (h : Fresh base path s) (hbase : Barren roots base) : Barren (s :: roots) (base.put s (.directory mode)) :=
  hbase.cons h.nameable h.none h.isDir

theorem Fresh.extends (h : Fresh base path s) (hbase : Barren roots base)
    (hfs : Sealed links (s :: roots) (base.put s (.directory mode)) fs) : base.Extends fs :=
  (extends_put h.nameable.ne_nil h.none).trans (hfs.extends (h.barren hbase))

/-- With a temporary directory goes all that was done in it. -/
theorem Fresh.removeTree (h : Fresh base path s) (hbase : Barren roots base)
    (hfs : Sealed links (s :: roots) (base.put s (.directory mode)) m.files) :
    exec (Action.removeTree path) m = (.ok (), { m with files := m.files.without s }) ∧
      Sealed links roots base (m.files.without s) := by
  obtain ⟨mode', hdir⟩ := hfs.dirs s ⟨mode, by rw [get?_put h.nameable.ne_nil, if_pos rfl]⟩
  exact ⟨(h.slot hbase.rooted).removeTree (h.extends hbase hfs) hdir,
    hfs.withdraw h.nameable (vacant_of_none hbase.rooted h.none)⟩

/-- The same by the request that takes a fault for what it is. -/
theorem Fresh.discard (h : Fresh base path s) (hbase : Barren roots base)
    (hfs : Sealed links (s :: roots) (base.put s (.directory mode)) m.files) :
    exec (Action.discard path) m = (.ok (), { m with files := m.files.without s }) ∧
      Sealed links roots base (m.files.without s) := by
  obtain ⟨mode', hdir⟩ := hfs.dirs s ⟨mode, by rw [get?_put h.nameable.ne_nil, if_pos rfl]⟩
  obtain ⟨hremove, hleft⟩ := h.removeTree hbase hfs
  have haddr := h.addresses.of_extends (h.extends hbase hfs)
  exact ⟨(exec_discard haddr h.sendable hdir).trans hremove, hleft⟩

theorem addresses_ne_nil (h : fs.Addresses path s) : path ≠ [] := by
  cases h with
  | intro hsplit _ _ hstart =>
    rintro rfl
    cases hstart

/-! ## Where a temporary directory was made -/

/-- A temporary directory was made. -/
structure Lodged (m : Machine) (path : Text) (t : Location) (mode : Nat) (m₁ : Machine) : Prop where
  sound : m.files.Sound
  fresh : Fresh m.files path t
  machine : m₁ = { m with files := m.files.put t (.directory mode) }

variable {m₁ : Machine} {t : Location} {name : Text}

theorem Lodged.get? (h : Lodged m path t mode m₁) : m₁.files.get? t = some (.directory mode) := by
  rw [h.machine, get?_put h.fresh.nameable.ne_nil, if_pos rfl]

theorem Lodged.extends (h : Lodged m path t mode m₁) : m.files.Extends m₁.files := by
  rw [h.machine]
  exact extends_put h.fresh.nameable.ne_nil h.fresh.none

theorem Lodged.addresses (h : Lodged m path t mode m₁) : m₁.files.Addresses path t := h.fresh.addresses.of_extends h.extends

theorem Lodged.status (h : Lodged m path t mode m₁) : m₁.files.status path true = .ok (t, .directory mode) := by
  rw [h.addresses.status (.inr (by simp [IsLink, h.get?])), h.get?]

theorem Lodged.server (h : Lodged m path t mode m₁) : m₁.server = m.server := by rw [h.machine]

theorem Lodged.sameLinks (h : Lodged m path t mode m₁) : m.files.SameLinks m₁.files := by
  rw [h.machine]
  exact sameLinks_put h.fresh.nameable.ne_nil h.fresh.none

theorem Lodged.empty (h : Lodged m path t mode m₁) : m₁.files.get? (child t name) = none := by
  have hvacant := vacant_of_none h.sound.rooted h.fresh.none (child t name) (List.prefix_append ..)
  rwa [h.machine, get?_put h.fresh.nameable.ne_nil, if_neg fun he => absurd (congrArg List.length he) (by simp [child])]

theorem Lodged.barren (h : Lodged m path t mode m₁) : Barren [t] m₁.files := by
  rw [h.machine]
  exact h.fresh.barren (barren_nil h.sound)

theorem Lodged.staysInward (h : Lodged m path t mode m₁) (hbarren : Barren roots m₁.files) (ht : t ∈ roots) (hname : IsComponent name) :
    StaysInward .none roots m₁.files (Path.join path name) := by
  refine staysInward_join nofun hbarren ht h.status (addresses_ne_nil h.addresses)
    (Path.isAbsolute_of_no_slash hname.noSlash) fun part hpart => ?_
  rw [Path.names_of_part hname.isName.1 hname.noSlash, List.mem_singleton] at hpart
  exact hpart ▸ hname.isName.2

end Prebuilt.Action
