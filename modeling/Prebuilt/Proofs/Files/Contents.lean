import Mathlib.Data.List.Basic
import Mathlib.Data.List.Infix
import Prebuilt.Files.Requests
/-!
What stands where after a change. Each change of a file system is described by what `get?` gives afterwards, so that
nothing below this module looks at the list of nodes again.
-/
set_option autoImplicit false

namespace Prebuilt.FileSystem

variable {fs : FileSystem} {l l' s t : Location} {n : Node}

/-! ## Lookup after a change -/

@[simp] theorem get?_nil : fs.get? [] = some (.directory 0o755) := by simp [get?]

theorem get?_of_ne (h : l ≠ []) : fs.get? l = (fs.nodes.find? (·.1 = l)).map (·.2) := by
  simp [get?, h]

/-- More nodes elsewhere make no difference. -/
theorem get?_append (nodes more : List (Location × Node)) {next next' : Nat} {directory directory' : Location}
    (h : ∀ x ∈ more, x.1 ≠ l) :
    (⟨nodes ++ more, next, directory⟩ : FileSystem).get? l = (⟨nodes, next', directory'⟩ : FileSystem).get? l := by
  have hmore : more.find? (·.1 = l) = none := List.find?_eq_none.2 fun x hx => by simpa using h x hx
  simp only [get?, List.find?_append, hmore, Option.or_none]

theorem find?_filter_fst (nodes : List (Location × Node)) (keep : Location → Bool) (l : Location) :
    (nodes.filter fun e => keep e.1).find? (·.1 = l) = if keep l then nodes.find? (·.1 = l) else none := by
  induction nodes with
  | nil => simp
  | cons e r ih =>
    by_cases he : e.1 = l
    · subst he
      by_cases hk : keep e.1 <;> simp [hk, ih]
    · by_cases hk : keep e.1 <;> simp [hk, he, ih]

theorem get?_filter (fs : FileSystem) (l : Location) (keep : Location → Bool) (h : keep [] = true) :
    ({ fs with nodes := fs.nodes.filter fun e => keep e.1 } : FileSystem).get? l =
      if keep l then fs.get? l else none := by
  by_cases hl : l = []
  · subst hl
    simp [h]
  · rw [get?_of_ne hl, get?_of_ne hl, find?_filter_fst]
    split <;> rfl

theorem get?_erase (h : s ≠ []) : (fs.erase s).get? l = if l = s then none else fs.get? l := by
  have hh := get?_filter fs l (fun l => decide (l ≠ s)) (by simpa using h.symm)
  by_cases hl : l = s <;> simp_all [erase]

theorem isPrefixOf_eq (a b : Location) : a.isPrefixOf b = decide (a <+: b) := by
  rw [Bool.eq_iff_iff, List.isPrefixOf_iff_prefix, decide_eq_true_iff]

theorem get?_eraseBelow :
    (fs.eraseBelow s).get? l = if s <+: l ∧ l ≠ s then none else fs.get? l := by
  have hh := get?_filter fs l (fun l => !(s.isPrefixOf l && l != s)) (by
    cases s <;> simp)
  by_cases hs : s <+: l <;> by_cases hl : l = s <;> simp_all [eraseBelow, isPrefixOf_eq]

theorem get?_put (h : s ≠ []) : (fs.put s n).get? l = if l = s then some n else fs.get? l := by
  by_cases hl : l = []
  · subst hl
    simp [h.symm]
  · have he : (fs.erase s).get? l = if l = s then none else fs.get? l := get?_erase h
    rw [get?_of_ne hl] at he ⊢
    by_cases hs : l = s
    · have hnone : (fs.erase s).nodes.find? (·.1 = l) = none := by simpa [hs] using he
      simp only [put, List.find?_append, hnone]
      simp [hs]
    · rw [if_neg hs] at he ⊢
      rw [← he]
      simp [put, Ne.symm hs]

theorem put_inj {t : Location} {n' : Node} (h : fs.put s n = fs.put t n') : s = t ∧ n = n' := by
  have hnodes := congrArg FileSystem.nodes h
  simpa using List.append_inj_right' hnodes rfl

theorem get?_addFile (mode : Nat) (content : Bytes) (h : s ≠ []) :
    (fs.addFile s mode content).get? l = if l = s then some (.file fs.nextNumber mode content) else fs.get? l :=
  get?_put h

theorem get?_map (fs : FileSystem) (change : Location → Node → Node) (h : l ≠ []) :
    ({ fs with nodes := fs.nodes.map fun e => (e.1, change e.1 e.2) } : FileSystem).get? l =
      (fs.get? l).map (change l) := by
  rw [get?_of_ne h, get?_of_ne h]
  induction fs.nodes with
  | nil => simp
  | cons e r ih =>
    by_cases he : e.1 = l
    · subst he
      simp
    · simpa [he] using ih

/-- A change reaches the other names of a file, and nothing else. -/
theorem get?_update (change : Node → Node) (h : l ≠ []) :
    (fs.update s change).get? l = (fs.get? s).elim (fs.get? l) fun node =>
      (fs.get? l).map fun other => if isSame (s, node) (l, other) then change other else other := by
  cases hs : fs.get? s with
  | none => simp [update, hs]
  | some node =>
    have hh := get?_map fs (fun l other => if isSame (s, node) (l, other) then change other else other) h
    rw [Option.elim_some, ← hh]
    simp only [update, hs]
    congr 2
    refine List.map_congr_left fun e _ => ?_
    split <;> rfl

/-! ## Moving -/

/-- The file system with nothing at the location or beneath it. -/
def without (fs : FileSystem) (s : Location) : FileSystem := (fs.erase s).eraseBelow s

theorem without_nodes (fs : FileSystem) (s : Location) :
    (fs.without s).nodes = fs.nodes.filter fun e => decide ¬ s <+: e.1 := by
  simp only [without, erase, eraseBelow, List.filter_filter]
  refine List.filter_congr fun e _ => ?_
  by_cases hs : e.1 = s
  · simp [hs]
  · simp [isPrefixOf_eq, hs]

theorem get?_without (h : s ≠ []) : (fs.without s).get? l = if s <+: l then none else fs.get? l := by
  have hs : s <+: s := List.prefix_rfl
  rw [without, get?_eraseBelow, get?_erase h]
  by_cases hl : l = s <;> by_cases hp : s <+: l <;> simp_all

theorem moveLocation_append (r : Location) : moveLocation s t (s ++ r) = t ++ r := by
  simp [moveLocation, isPrefixOf_eq]

theorem moveLocation_of_outside (h : ¬ s <+: l) : moveLocation s t l = l := by
  simp [moveLocation, isPrefixOf_eq, h]

theorem move_nodes (fs : FileSystem) (s t : Location) :
    (fs.move s t).nodes = (fs.without t).nodes.map fun e => (moveLocation s t e.1, e.2) := rfl

theorem find?_move_target (nodes : List (Location × Node)) (r : Location) :
    (((nodes.filter fun e => decide ¬ t <+: e.1).map fun e => (moveLocation s t e.1, e.2)).find?
        (·.1 = t ++ r)).map (·.2) =
      if t <+: s ++ r then none else (nodes.find? (·.1 = s ++ r)).map (·.2) := by
  induction nodes with
  | nil => simp
  | cons e rest ih =>
    by_cases ht : t <+: e.1
    · by_cases he : e.1 = s ++ r
      · simp_all
      · simpa [ht, he] using ih
    · by_cases he : e.1 = s ++ r
      · rw [he] at ht
        simp [ht, he, moveLocation_append]
      · have hm : moveLocation s t e.1 ≠ t ++ r := by
          by_cases hs : s <+: e.1
          · obtain ⟨q, hq⟩ := hs
            rw [← hq, moveLocation_append]
            rw [← hq] at he
            simpa using he
          · rw [moveLocation_of_outside hs]
            intro hh
            exact ht (hh ▸ List.prefix_append t r)
        simpa [ht, he, hm] using ih

theorem find?_move_other (nodes : List (Location × Node)) (hl : ¬ t <+: l) :
    ((nodes.filter fun e => decide ¬ t <+: e.1).map fun e => (moveLocation s t e.1, e.2)).find?
        (·.1 = l) = if s <+: l then none else nodes.find? (·.1 = l) := by
  induction nodes with
  | nil => simp
  | cons e rest ih =>
    by_cases ht : t <+: e.1
    · have he : e.1 ≠ l := by rintro rfl; exact hl ht
      simpa [ht, he] using ih
    · by_cases hs : s <+: e.1
      · obtain ⟨q, hq⟩ := hs
        have hm : moveLocation s t e.1 ≠ l := by
          rw [← hq, moveLocation_append]
          rintro rfl
          exact hl (by simp)
        by_cases he : e.1 = l
        · have hsl : s <+: l := he ▸ ⟨q, hq⟩
          simpa [ht, hm, hsl] using ih
        · simpa [ht, hm, he] using ih
      · by_cases he : e.1 = l
        · subst he
          simp [ht, hs, moveLocation_of_outside]
        · simpa [ht, he, moveLocation_of_outside hs] using ih

/-- A move takes the source with all beneath it to the target, and what stood at the target is gone. -/
theorem get?_move (hst : ¬ s <+: t) (hts : ¬ t <+: s) :
    (fs.move s t).get? l =
      if t <+: l then fs.get? (s ++ l.drop t.length) else if s <+: l then none else fs.get? l := by
  have hs : s ≠ [] := by rintro rfl; simp at hst
  have ht : t ≠ [] := by rintro rfl; simp at hts
  by_cases hl : l = []
  · simp [hl, hs, ht]
  · rw [get?_of_ne hl, move_nodes, without_nodes]
    by_cases htl : t <+: l
    · obtain ⟨r, rfl⟩ := htl
      have hr : ¬ t <+: s ++ r := by
        intro h
        rcases List.prefix_or_prefix_of_prefix h (List.prefix_append s r) with h | h
        · exact hts h
        · exact hst h
      rw [find?_move_target, if_neg hr, get?_of_ne (by simp [hs])]
      simp
    · rw [find?_move_other _ htl, get?_of_ne hl, if_neg htl]
      split <;> rfl

/-! ## Names in a directory -/

theorem get?_isSome_iff (h : l ≠ []) : (fs.get? l).isSome ↔ ∃ node, (l, node) ∈ fs.nodes := by
  rw [get?_of_ne h]
  simp [List.find?_isSome]

theorem mem_children {name : Name} : name ∈ fs.children l ↔ (fs.get? (l ++ [name])).isSome := by
  rw [get?_isSome_iff (by simp)]
  simp only [children, List.mem_filterMap]
  constructor
  · rintro ⟨⟨l', node⟩, hmem, h⟩
    split at h
    · rename_i hl
      have hl' := List.dropLast_append_getLast? name h
      exact ⟨node, by rw [← hl, hl']; exact hmem⟩
    · cases h
  · rintro ⟨node, hmem⟩
    exact ⟨(l ++ [name], node), hmem, by simp⟩

theorem isEmptyDirectory_iff : fs.isEmptyDirectory l = true ↔ ∀ name, fs.get? (l ++ [name]) = none := by
  simp only [isEmptyDirectory, List.isEmpty_iff, List.eq_nil_iff_forall_not_mem, mem_children,
    Option.not_isSome_iff_eq_none]

end Prebuilt.FileSystem
