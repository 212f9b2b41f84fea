import Mathlib.Logic.Relation
import Prebuilt.Proofs.Files.Soundness
/-!
Changes that leave directories alone. Unpacking an archive adds, changes and unlinks; whatever it makes of the files by that,
a directory that was there is there at the end, and relative paths start where they did.
-/
set_option autoImplicit false

namespace Prebuilt.FileSystem

/-- Something new is put where nothing was, something is changed and stays what it is, or a name goes that is no directory's. -/
inductive Alters (fs : FileSystem) : FileSystem → Prop
  | add {s : Location} {node : Node} {next : Nat} :
    s ≠ [] → fs.get? s = none → Alters fs { fs.put s node with nextNumber := next }
  | change {s : Location} {change : Node → Node} : Node.Mild change → Alters fs (fs.update s change)
  | remove {s : Location} : s ≠ [] → ¬ fs.IsDir s → Alters fs (fs.erase s)

variable {fs fs' : FileSystem} {path old target : Text} {l : Location} {mode : Nat} {followLast : Bool}

/-! ## Requests -/

theorem alters_of_newEntry {slashAllowed : Bool} {node : Node} {next : Nat} (h : fs.newEntry path slashAllowed = .ok l) :
    fs.Alters { fs.put l node with nextNumber := next } := by
  obtain ⟨found, name, -, -, -, rfl, hnone⟩ := newEntry_ok h
  exact .add child_ne_nil hnone

theorem alters_of_makeDirectory (h : fs.makeDirectory path mode = .ok fs') : fs.Alters fs' := by
  obtain ⟨l, mode', hl, rfl⟩ := makeDirectory_ok h
  exact alters_of_newEntry hl

theorem alters_of_makeSpecial (h : fs.makeSpecial path = .ok fs') : fs.Alters fs' := by
  obtain ⟨l, hl, rfl⟩ := makeSpecial_ok h
  exact alters_of_newEntry hl

theorem alters_of_makeLink (h : fs.makeLink target path = .ok fs') : fs.Alters fs' := by
  obtain ⟨l, hl, rfl⟩ := makeLink_ok h
  exact alters_of_newEntry hl

theorem alters_of_addName (h : fs.addName old path = .ok fs') : fs.Alters fs' := by
  obtain ⟨t, node, l, -, hl, rfl⟩ := addName_ok h
  exact alters_of_newEntry hl

theorem alters_of_truncate (h : fs.truncate path = .ok fs') : fs.Alters fs' := by
  rcases truncate_ok h with ⟨l, node, -, -, rfl⟩ | ⟨directory, name, hp, rfl⟩
  · exact .change (Node.mild_withContent [])
  · exact .add (by simp) (place_vacant hp)

theorem alters_of_setMode (h : fs.setMode path mode = .ok fs') : fs.Alters fs' := by
  obtain ⟨l, node, -, rfl⟩ := setMode_ok h
  exact .change (Node.mild_withMode _)

theorem alters_of_setOwner (h : fs.setOwner path followLast = .ok fs') : fs.Alters fs' := by
  obtain ⟨l, node, -, rfl⟩ := setOwner_ok h
  exact .change Node.mild_handedOver

theorem alters_of_unlink (h : fs.unlink path = .ok fs') : fs.Alters fs' := by
  obtain ⟨found, name, -, -, hdir, rfl⟩ := unlink_ok h
  exact .remove child_ne_nil hdir

/-! ## What lasts -/

theorem Alters.isDir (h : fs.Alters fs') (hl : fs.IsDir l) : fs'.IsDir l := by
  cases h with
  | add hne hnone => exact isDir_put hne hnone hl
  | change hchange => exact (isDir_update hchange).2 hl
  | @remove s hne hs =>
    obtain ⟨mode, hm⟩ := hl
    have hls : l ≠ s := fun he => hs (he ▸ ⟨mode, hm⟩)
    exact ⟨mode, by rw [get?_erase hne, if_neg hls, hm]⟩

theorem Alters.workingDirectory (h : fs.Alters fs') : fs'.workingDirectory = fs.workingDirectory := by
  cases h with
  | add => rfl
  | change => exact workingDirectory_update ..
  | remove => rfl

/-- Directories last, however much is altered, and so does the one that relative paths start in. -/
theorem lasts_of_alters (h : Relation.ReflTransGen Alters fs fs') :
    (∀ l, fs.IsDir l → fs'.IsDir l) ∧ fs'.workingDirectory = fs.workingDirectory := by
  induction h with
  | refl => exact ⟨fun _ hl => hl, rfl⟩
  | tail _ hstep ih => exact ⟨fun l hl => hstep.isDir (ih.1 l hl), hstep.workingDirectory.trans ih.2⟩

end Prebuilt.FileSystem
