import Prebuilt.Proofs.Files.Paths
import Prebuilt.Proofs.Text.Quoting
/-!
Names that can be written down. A path without lone surrogates has none in its components, and what is put together from such
paths and names has none either.
-/
set_option autoImplicit false

namespace Prebuilt

namespace Text

variable {t u : Text} {sep : CodePoint}

theorem isString_of_subset (h : u ⊆ t) (ht : t.isString = true) : u.isString = true :=
  isString_iff.2 fun c hc => isString_iff.1 ht c (h hc)

theorem isString_of_mem_splitOn {part : Text} (h : part ∈ splitOn sep t) (ht : t.isString = true) : part.isString = true := by
  have hsubset : part ⊆ joinWith [sep] (splitOn sep t) := subset_joinWith h
  rw [joinWith_splitOn] at hsubset
  exact isString_of_subset hsubset ht

theorem isString_afterLast (sep : CodePoint) (ht : t.isString = true) : (afterLast sep t).isString = true := by
  refine isString_of_subset (fun c hc => ?_) ht
  rcases eq_afterLast_or sep t with h | ⟨a, h⟩
  · rwa [h]
  · rw [h]
    simp [hc]

theorem isString_joinWith {parts : List Text} (hsep : sep.isChar = true) (h : ∀ part ∈ parts, part.isString = true) :
    (joinWith [sep] parts).isString = true := by
  induction parts with
  | nil => rfl
  | cons part rest ih =>
    obtain ⟨hpart, hrest⟩ := List.forall_mem_cons.1 h
    cases rest with
    | nil => exact hpart
    | cons next more =>
      have hmark : Text.isString [sep] = true := by simp [isString, hsep]
      simp only [joinWith, isString_append, hpart, hmark, ih hrest, Bool.and_self]

end Text

theorem Path.isString_join {path next : Text} (hpath : path.isString = true) (hnext : next.isString = true) :
    (Path.join path next).isString = true := by
  have hslash : Text.isString "/" = true := rfl
  unfold Path.join
  split
  · exact hnext
  · split <;> simp only [Text.isString_append, hpath, hnext, hslash, Bool.and_self]

namespace FilePath

variable {p : FilePath} {path next : Text}

/-- The path can be written down. -/
structure IsWritable (p : FilePath) : Prop where
  root : p.root.isString = true
  parts : ∀ part ∈ p.parts, part.isString = true

theorem isWritable_ofText (h : path.isString = true) : (ofText path).IsWritable where
  root := by
    simp only [ofText, Path.leadingSlashes]
    split <;> rfl
  parts part hpart := Text.isString_of_mem_splitOn (List.mem_of_mem_filter hpart) h

theorem IsWritable.isString_toText (h : p.IsWritable) : p.toText.isString = true := by
  have hall : (p.root ++ Text.joinWith "/" p.parts).isString = true := by
    rw [Text.isString_append, h.root, Bool.true_and]
    exact Text.isString_joinWith rfl h.parts
  simp only [FilePath.toText]
  split
  · rfl
  · exact hall

theorem IsWritable.parent (h : p.IsWritable) : p.parent.IsWritable := ⟨h.root, fun part hpart => h.parts part (List.mem_of_mem_dropLast hpart)⟩

theorem IsWritable.isString_name (h : p.IsWritable) : p.name.isString = true := by
  unfold FilePath.name
  cases hlast : p.parts.getLast? with
  | none => rfl
  | some part => exact h.parts part (List.mem_of_getLast? hlast)

theorem IsWritable.div (h : p.IsWritable) (hnext : next.isString = true) : (p / next).IsWritable := by
  have hpath := isWritable_ofText hnext
  show (p.append (ofText next)).IsWritable
  unfold append
  split
  · exact ⟨h.root, fun part hpart => (List.mem_append.1 hpart).elim (h.parts part) (hpath.parts part)⟩
  · exact hpath

end FilePath

end Prebuilt
