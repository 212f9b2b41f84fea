import Mathlib.Data.List.Basic
import Mathlib.Tactic.Common
import Prebuilt.Platform
/-!
Which hosts have a platform. A host's key joins two names with a dash, each of them looked up in a table or left as the host gives
it, so a key could also come about by accident: from a name that holds a dash, or from one that no table knows.
-/
set_option autoImplicit false

namespace Prebuilt

theorem Table.get?_eq_none {α : Type} {key : Text} {table : Table α} (h : key ∉ Table.keys table) : Table.get? key table = none := by
  induction table with
  | nil => rfl
  | cons entry rest ih =>
    obtain ⟨hne, hrest⟩ := List.ne_and_not_mem_of_not_mem_cons (show key ∉ entry.1 :: Table.keys rest from h)
    rw [Table.get?, if_neg hne.symm, ih hrest]

/-- A table gives a value to a name if it does so to the few names for which this is not plain: the table's own and the value. -/
theorem tableName_eq_iff {table : List (Text × Text)} {value : Text} {names : List Text}
    (htable : ∀ name ∈ value :: Table.keys table, tableName table name = value ↔ name ∈ names)
    (hnames : ∀ name ∈ names, name ∈ value :: Table.keys table) (name : Text) :
    tableName table name = value ↔ name ∈ names := by
  by_cases hname : name ∈ value :: Table.keys table
  · exact htable name hname
  · rw [List.mem_cons, not_or] at hname
    have hnone : Table.get? name table = none := Table.get?_eq_none hname.2
    rw [tableName, hnone, Option.getD_none]
    exact ⟨fun h => absurd h hname.1, fun h => absurd (hnames name h) (by simpa using hname)⟩

namespace Platform

/-- What stands before the dash of a key. -/
def system : Platform → Text
  | darwinX64 | darwinArm64 => "darwin"
  | linuxX64 | linuxArm64 => "linux"
  | win32X64 => "win32"

/-- What stands behind the dash of a key. -/
def machine : Platform → Text
  | darwinX64 | linuxX64 | win32X64 => "x64"
  | darwinArm64 | linuxArm64 => "arm64"

/-- The names that an operating system goes by. -/
def systems : Platform → List Text
  | darwinX64 | darwinArm64 => ["darwin"]
  | linuxX64 | linuxArm64 => ["linux"]
  | win32X64 => ["windows", "win32"]

def machines : Platform → List Text
  | darwinX64 | linuxX64 | win32X64 => ["x86_64", "amd64", "x64"]
  | darwinArm64 | linuxArm64 => ["aarch64", "arm64"]

theorem key_eq (p : Platform) : p.key = p.system ++ CodePoint.char '-' :: p.machine := by cases p <;> rfl

theorem dash_notMem_system (p : Platform) : CodePoint.char '-' ∉ p.system := by cases p <;> decide

theorem dash_notMem_machine (p : Platform) : CodePoint.char '-' ∉ p.machine := by cases p <;> decide

theorem ofKey?_eq_some_iff {key : Text} {p : Platform} : ofKey? key = some p ↔ p.key = key := by
  constructor
  · intro h
    simpa using List.find?_some h
  · rintro rfl
    cases p <;> decide

theorem isKnownKey_iff {key : Text} : isKnownKey key = true ↔ ∃ p : Platform, p.key = key := by
  rw [isKnownKey, Option.isSome_iff_exists]
  exact exists_congr fun p => ofKey?_eq_some_iff

theorem tableName_system_iff (p : Platform) (name : Text) :
    tableName systemNames name = p.system ↔ name ∈ p.systems := by
  refine tableName_eq_iff ?_ ?_ name <;> cases p <;> decide

theorem tableName_machine_iff (p : Platform) (name : Text) :
    tableName machineNames name = p.machine ↔ name ∈ p.machines := by
  refine tableName_eq_iff ?_ ?_ name <;> cases p <;> decide

end Platform

namespace Host

/-- Both names are, in lower case, among those that a platform with archives goes by. -/
def IsSupported (h : Host) : Prop :=
  h.system.lower ∈ (["darwin", "linux"] : List Text) ∧
      h.machine.lower ∈ (["x86_64", "amd64", "x64", "aarch64", "arm64"] : List Text) ∨
    h.system.lower ∈ (["windows", "win32"] : List Text) ∧
      h.machine.lower ∈ (["x86_64", "amd64", "x64"] : List Text)

instance (h : Host) : Decidable h.IsSupported := inferInstanceAs (Decidable (_ ∨ _))

/-- A platform's key has one dash, so a host has this key only through the platform's own two names. -/
theorem key_eq_iff (h : Host) (p : Platform) :
    h.key = p.key ↔ h.system.lower ∈ p.systems ∧ h.machine.lower ∈ p.machines := by
  have hkey : h.key = tableName systemNames h.system.lower ++
      CodePoint.char '-' :: tableName machineNames h.machine.lower := by
    rw [key, List.append_assoc]
    rfl
  rw [hkey, p.key_eq, eq_comm, List.append_cons_inj_of_notMem p.dash_notMem_system p.dash_notMem_machine,
    ← p.tableName_system_iff, ← p.tableName_machine_iff]
  exact ⟨fun ⟨hs, _, hm⟩ => ⟨hs.symm, hm.symm⟩, fun ⟨hs, hm⟩ => ⟨hs.symm, rfl, hm.symm⟩⟩

theorem isSupported_iff (h : Host) : h.IsSupported ↔ ∃ p : Platform, p.key = h.key := by
  simp only [eq_comm (b := h.key), key_eq_iff]
  constructor
  · rintro (⟨hs, hm⟩ | ⟨hs, hm⟩)
    · have hm : h.machine.lower ∈ Platform.machines .linuxX64 ∨ h.machine.lower ∈ Platform.machines .linuxArm64 :=
        List.mem_append.1 hm
      rcases List.mem_pair.1 hs with hs | hs <;> rcases hm with hm | hm
      · exact ⟨.darwinX64, List.mem_singleton.2 hs, hm⟩
      · exact ⟨.darwinArm64, List.mem_singleton.2 hs, hm⟩
      · exact ⟨.linuxX64, List.mem_singleton.2 hs, hm⟩
      · exact ⟨.linuxArm64, List.mem_singleton.2 hs, hm⟩
    · exact ⟨.win32X64, hs, hm⟩
  · rintro ⟨p, hs, hm⟩
    have hboth {a b : List Text} (hm : h.machine.lower ∈ a ∨ h.machine.lower ∈ b) : h.machine.lower ∈ a ++ b := List.mem_append.2 hm
    cases p with
    | darwinX64 => exact .inl ⟨List.mem_pair.2 (.inl (List.mem_singleton.1 hs)), hboth (.inl hm)⟩
    | darwinArm64 => exact .inl ⟨List.mem_pair.2 (.inl (List.mem_singleton.1 hs)), hboth (a := ["x86_64", "amd64", "x64"]) (.inr hm)⟩
    | linuxX64 => exact .inl ⟨List.mem_pair.2 (.inr (List.mem_singleton.1 hs)), hboth (.inl hm)⟩
    | linuxArm64 => exact .inl ⟨List.mem_pair.2 (.inr (List.mem_singleton.1 hs)), hboth (a := ["x86_64", "amd64", "x64"]) (.inr hm)⟩
    | win32X64 => exact .inr ⟨hs, hm⟩

/-- Exactly the supported hosts have a known key, and these have the platform of that key. The error for the others names the key. -/
theorem platform_recognised (h : Host) :
    (Platform.isKnownKey h.key = true ↔ h.IsSupported) ∧
      ((h.IsSupported ∧ ∃ p : Platform, p.key = h.key ∧ h.platform = .ok p) ∨
        (¬h.IsSupported ∧ h.platform = .error (.unsupportedPlatform h.key))) := by
  refine ⟨Platform.isKnownKey_iff.trans h.isSupported_iff.symm, ?_⟩
  by_cases hs : h.IsSupported
  · obtain ⟨p, hp⟩ := h.isSupported_iff.mp hs
    refine .inl ⟨hs, p, hp, ?_⟩
    rw [platform, Platform.ofKey?_eq_some_iff.mpr hp]
  · have hnone : Platform.ofKey? h.key = none := by
      refine Option.eq_none_iff_forall_ne_some.mpr fun p hp => hs (h.isSupported_iff.mpr ⟨p, ?_⟩)
      exact Platform.ofKey?_eq_some_iff.mp hp
    refine .inr ⟨hs, ?_⟩
    rw [platform, hnone]

end Host

end Prebuilt
