import Prebuilt.Proofs.Files.Entries
/-!
What stands behind every file system: things lie in directories, their names are names, and no number is used twice. What
requests do to a file system leaves it so.
-/
set_option autoImplicit false

namespace Prebuilt

namespace Node

/-- The same kind of node, the same file. -/
def IsLike : Node → Node → Prop
  | .directory _, .directory _ => True
  | .file number _ _, .file number' _ _ => number = number'
  | .link target, .link target' => target = target'
  | .special number _, .special number' _ => number = number'
  | _, _ => False

/-- A change that leaves every node what it is. -/
def Mild (change : Node → Node) : Prop := ∀ node : Node, node.IsLike (change node)

theorem isLike_refl (node : Node) : node.IsLike node := by cases node <;> simp [IsLike]

theorem IsLike.number?_eq {a b : Node} (h : a.IsLike b) : a.number? = b.number? := by
  cases a <;> cases b <;> simp_all [IsLike, number?]

theorem mild_withMode (mode : Nat) : Mild (withMode mode) := fun node => by cases node <;> simp [IsLike, withMode]

theorem mild_withContent (content : Bytes) : Mild (withContent content) := fun node => by
  cases node <;> simp [IsLike, withContent]

theorem mild_handedOver : Mild handedOver := fun node => by
  unfold handedOver
  split
  · exact isLike_refl node
  · exact mild_withMode _ node

end Node

namespace FileSystem

variable {fs : FileSystem} {l s t : Location} {node : Node}

/-- The number of the file at a location. -/
def number? (fs : FileSystem) (l : Location) : Option Nat := (fs.get? l).bind Node.number?

theorem number?_eq_some_iff {number : Nat} :
    fs.number? l = some number ↔ ∃ node, fs.get? l = some node ∧ node.number? = some number :=
  Option.bind_eq_some_iff

/-- All numbers of files are below the next one. -/
def Numbered (fs : FileSystem) : Prop :=
  ∀ l node number, fs.get? l = some node → node.number? = some number → number < fs.nextNumber

/-- Locations are made of names as they stand in directories. -/
def Named (fs : FileSystem) : Prop := ∀ l, fs.get? l ≠ none → ∀ name ∈ l, IsEntryName name

structure Sound (fs : FileSystem) : Prop where
  rooted : fs.Rooted
  named : fs.Named
  numbered : fs.Numbered

theorem mem_nodes_of_get? (h : fs.get? l = some node) (hl : l ≠ []) : (l, node) ∈ fs.nodes := by
  rw [get?_of_ne hl] at h
  obtain ⟨⟨l', node'⟩, hfind, rfl⟩ := Option.map_eq_some_iff.1 h
  obtain rfl : l' = l := by simpa using List.find?_some hfind
  exact List.mem_of_find?_eq_some hfind

/-- A file system is sound if what it lists is. -/
theorem sound_of_nodes (hdir : ∀ x ∈ fs.nodes, fs.IsDir x.1.dropLast) (hname : ∀ x ∈ fs.nodes, ∀ name ∈ x.1, IsEntryName name)
    (hnumber : ∀ x ∈ fs.nodes, ∀ number, x.2.number? = some number → number < fs.nextNumber) : fs.Sound := by
  refine ⟨fun l hl => ?_, fun l hl name hin => ?_, fun l node number hg hn => ?_⟩
  · obtain ⟨node, hg⟩ := Option.ne_none_iff_exists'.1 hl
    by_cases hnil : l = []
    · subst hnil
      exact isDir_nil
    · exact hdir _ (mem_nodes_of_get? hg hnil)
  · obtain ⟨node, hg⟩ := Option.ne_none_iff_exists'.1 hl
    exact hname _ (mem_nodes_of_get? hg (List.ne_nil_of_mem hin)) name hin
  · by_cases hnil : l = []
    · subst hnil
      rw [get?_nil] at hg
      cases hg
      cases hn
    · exact hnumber _ (mem_nodes_of_get? hg hnil) number hn

theorem Sound.number?_lt {number : Nat} (h : fs.Sound) (hn : fs.number? l = some number) : number < fs.nextNumber := by
  obtain ⟨node, hg, hn⟩ := number?_eq_some_iff.1 hn
  exact h.numbered l node number hg hn

theorem Sound.congr {fs' : FileSystem} (h : fs.Sound) (hget : ∀ l, fs'.get? l = fs.get? l) (hnext : fs'.nextNumber = fs.nextNumber) :
    fs'.Sound where
  rooted l hl := by
    rw [IsDir, hget]
    exact h.rooted l (hget l ▸ hl)
  named l hl := h.named l (hget l ▸ hl)
  numbered l node number hg hn := by
    rw [hnext]
    exact h.numbered l node number (hget l ▸ hg) hn

theorem Nameable.ne_nil (h : Nameable s) : s ≠ [] := by
  obtain ⟨d, part, rfl, -⟩ := h
  exact child_ne_nil

theorem Nameable.isEntryName (h : Nameable s) : ∃ d name, s = d ++ [name] ∧ IsEntryName name := by
  obtain ⟨d, part, rfl, hname, hslash, hlen⟩ := h
  exact ⟨d, _, rfl, isEntryName_canonical hname hslash hlen⟩

/-! ## Something new -/

theorem isDir_put (hne : s ≠ []) (hnone : fs.get? s = none) (h : fs.IsDir l) : (fs.put s node).IsDir l := by
  obtain ⟨mode, hm⟩ := h
  have hl : l ≠ s := by
    rintro rfl
    rw [hnone] at hm
    cases hm
  exact ⟨mode, by rw [get?_put hne, if_neg hl, hm]⟩

theorem Sound.put {next : Nat} (h : fs.Sound) (hname : Nameable s) (hnone : fs.get? s = none) (hdir : fs.IsDir s.dropLast)
    (hnext : fs.nextNumber ≤ next) (hnumber : ∀ number, node.number? = some number → number < next) :
    ({ fs.put s node with nextNumber := next } : FileSystem).Sound := by
  have hne := hname.ne_nil
  have hget (l : Location) :
      ({ fs.put s node with nextNumber := next } : FileSystem).get? l = if l = s then some node else fs.get? l :=
    get?_put hne
  refine ⟨?_, ?_, ?_⟩
  · intro l hl
    rw [hget] at hl
    by_cases he : l = s
    · rw [he]
      exact isDir_put hne hnone hdir
    · rw [if_neg he] at hl
      exact isDir_put hne hnone (h.rooted l hl)
  · intro l hl name hmem
    rw [hget] at hl
    by_cases he : l = s
    · obtain ⟨d, last, rfl, hlast⟩ := hname.isEntryName
      rw [List.dropLast_concat] at hdir
      obtain ⟨mode, hm⟩ := hdir
      rcases List.mem_append.1 (he ▸ hmem) with hmem | hmem
      · exact h.named d (by simp [hm]) name hmem
      · rwa [List.mem_singleton.1 hmem]
    · rw [if_neg he] at hl
      exact h.named l hl name hmem
  · intro l other number hg hn
    rw [hget] at hg
    split at hg
    · cases hg
      exact hnumber number hn
    · exact (h.numbered l other number hg hn).trans_le hnext

theorem Sound.putDirectory {mode : Nat} (h : fs.Sound) (hname : Nameable s) (hnone : fs.get? s = none)
    (hdir : fs.IsDir s.dropLast) : (fs.put s (.directory mode)).Sound :=
  h.put hname hnone hdir le_rfl (by simp [Node.number?])

/-! ## Something less -/

theorem Sound.erase (h : fs.Sound) (hne : s ≠ []) (hs : ¬ fs.IsDir s) : (fs.erase s).Sound := by
  have hget {l : Location} {other : Node} (hg : (fs.erase s).get? l = some other) : fs.get? l = some other := by
    rw [get?_erase hne] at hg
    split at hg
    · cases hg
    · exact hg
  have hthere {l : Location} (hl : (fs.erase s).get? l ≠ none) : fs.get? l ≠ none := by
    obtain ⟨other, hg⟩ := Option.ne_none_iff_exists'.1 hl
    simp [hget hg]
  refine ⟨fun l hl => ?_, fun l hl => h.named l (hthere hl), fun l other number hg => h.numbered l other number (hget hg)⟩
  obtain ⟨mode, hm⟩ := h.rooted l (hthere hl)
  have hls : l.dropLast ≠ s := by
    rintro he
    exact hs ⟨mode, he ▸ hm⟩
  exact ⟨mode, by rw [get?_erase hne, if_neg hls, hm]⟩

theorem Sound.without (h : fs.Sound) (hne : s ≠ []) : (fs.without s).Sound := by
  have hget {l : Location} {other : Node} (hg : (fs.without s).get? l = some other) : fs.get? l = some other := by
    rw [get?_without hne] at hg
    split at hg
    · cases hg
    · exact hg
  have hthere {l : Location} (hl : (fs.without s).get? l ≠ none) : ¬ s <+: l ∧ fs.get? l ≠ none := by
    rw [get?_without hne] at hl
    split at hl
    · exact absurd rfl hl
    · exact ⟨‹_›, hl⟩
  refine ⟨fun l hl => ?_, fun l hl => h.named l (hthere hl).2, fun l other number hg => h.numbered l other number (hget hg)⟩
  obtain ⟨hs, hl⟩ := hthere hl
  obtain ⟨mode, hm⟩ := h.rooted l hl
  refine ⟨mode, ?_⟩
  rw [get?_without hne, if_neg fun hp => hs (hp.trans (List.dropLast_prefix l)), hm]

/-! ## Something moved -/

theorem get?_move_eq_some (hst : ¬ s <+: t) (hts : ¬ t <+: s) (h : (fs.move s t).get? l = some node) :
    (∃ more, l = t ++ more ∧ fs.get? (s ++ more) = some node) ∨ ¬ t <+: l ∧ ¬ s <+: l ∧ fs.get? l = some node := by
  rw [get?_move hst hts] at h
  split at h
  · rename_i hl
    obtain ⟨more, rfl⟩ := hl
    exact .inl ⟨more, rfl, by simpa using h⟩
  · split at h
    · cases h
    · exact .inr ⟨‹_›, ‹_›, h⟩

theorem Sound.move (h : fs.Sound) (hst : ¬ s <+: t) (hts : ¬ t <+: s) (hname : Nameable t) (hdir : fs.IsDir t.dropLast) :
    (fs.move s t).Sound := by
  have hne := hname.ne_nil
  have hpast {l : Location} (hs : ¬ s <+: l) (ht : ¬ t <+: l) : (fs.move s t).get? l = fs.get? l := by
    rw [get?_move hst hts, if_neg ht, if_neg hs]
  refine ⟨fun l hl => ?_, fun l hl name hmem => ?_, fun l node number hg hn => ?_⟩
  · obtain ⟨node, hg⟩ := Option.ne_none_iff_exists'.1 hl
    rcases get?_move_eq_some hst hts hg with ⟨more, rfl, hold⟩ | ⟨ht, hs, hold⟩
    · rcases List.eq_nil_or_concat more with rfl | ⟨init, name, rfl⟩
      · rw [List.append_nil]
        obtain ⟨mode, hm⟩ := hdir
        refine ⟨mode, (hpast (fun hp => hst (hp.trans (List.dropLast_prefix t))) fun hp => ?_).trans hm⟩
        have hlen := hp.length_le
        have hpos := List.length_pos_iff.2 hne
        rw [List.length_dropLast] at hlen
        omega
      · rw [List.concat_eq_append, ← List.append_assoc] at hold
        obtain ⟨mode, hm⟩ := h.rooted _ (Option.ne_none_iff_exists'.2 ⟨node, hold⟩)
        rw [List.dropLast_concat] at hm
        rw [List.concat_eq_append, ← List.append_assoc, List.dropLast_concat]
        exact ⟨mode, by rw [get?_move hst hts, if_pos (List.prefix_append ..), List.drop_left, hm]⟩
    · obtain ⟨mode, hm⟩ := h.rooted l (by simp [hold])
      have hup {x : Location} (hx : ¬ x <+: l) : ¬ x <+: l.dropLast := fun hp => hx (hp.trans (List.dropLast_prefix l))
      exact ⟨mode, (hpast (hup hs) (hup ht)).trans hm⟩
  · obtain ⟨node, hg⟩ := Option.ne_none_iff_exists'.1 hl
    rcases get?_move_eq_some hst hts hg with ⟨more, rfl, hold⟩ | ⟨-, -, hold⟩
    · rcases List.mem_append.1 hmem with hmem | hmem
      · obtain ⟨d, last, rfl, hlast⟩ := hname.isEntryName
        rw [List.dropLast_concat] at hdir
        obtain ⟨mode, hm⟩ := hdir
        rcases List.mem_append.1 hmem with hmem | hmem
        · exact h.named d (by simp [hm]) name hmem
        · rwa [List.mem_singleton.1 hmem]
      · exact h.named _ (by simp [hold]) name (List.mem_append_right s hmem)
    · exact h.named l (by simp [hold]) name hmem
  · rcases get?_move_eq_some hst hts hg with ⟨more, -, hold⟩ | ⟨-, -, hold⟩
    · exact h.numbered _ node number hold hn
    · exact h.numbered l node number hold hn

/-! ## Changes of what is there -/

theorem update_cases (fs : FileSystem) (s : Location) {change : Node → Node} (hchange : Node.Mild change) (l : Location) :
    (fs.get? l = none ∧ (fs.update s change).get? l = none) ∨
      ∃ node node', fs.get? l = some node ∧ (fs.update s change).get? l = some node' ∧ node.IsLike node' := by
  by_cases hl : l = []
  · subst hl
    exact .inr ⟨_, _, get?_nil, get?_nil, Node.isLike_refl _⟩
  · rw [get?_update change hl]
    cases hs : fs.get? s with
    | none =>
      cases hg : fs.get? l with
      | none => exact .inl ⟨rfl, rfl⟩
      | some node => exact .inr ⟨node, node, rfl, rfl, Node.isLike_refl _⟩
    | some at_ =>
      cases hg : fs.get? l with
      | none => exact .inl ⟨rfl, rfl⟩
      | some node =>
        refine .inr ⟨node, _, rfl, rfl, ?_⟩
        show node.IsLike (if isSame (s, at_) (l, node) then change node else node)
        split
        · exact hchange node
        · exact Node.isLike_refl _

theorem isDir_update {change : Node → Node} (hchange : Node.Mild change) :
    (fs.update s change).IsDir l ↔ fs.IsDir l := by
  rcases update_cases fs s hchange l with ⟨h, h'⟩ | ⟨node, node', h, h', hlike⟩
  · simp [IsDir, h, h']
  · cases node <;> cases node' <;> simp_all [IsDir, Node.IsLike]

@[simp] theorem nextNumber_update (fs : FileSystem) (s : Location) (change : Node → Node) :
    (fs.update s change).nextNumber = fs.nextNumber := by
  unfold FileSystem.update
  split <;> rfl

@[simp] theorem workingDirectory_update (fs : FileSystem) (s : Location) (change : Node → Node) :
    (fs.update s change).workingDirectory = fs.workingDirectory := by
  unfold FileSystem.update
  split <;> rfl

@[simp] theorem number?_update {change : Node → Node} (hchange : Node.Mild change) :
    (fs.update s change).number? l = fs.number? l := by
  rcases update_cases fs s hchange l with ⟨h, h'⟩ | ⟨before, after, h, h', hlike⟩
  · rw [number?, number?, h, h']
  · rw [number?, number?, h, h', Option.bind_some, Option.bind_some, hlike.number?_eq]

theorem get?_update_ne_none {change : Node → Node} (hchange : Node.Mild change) :
    (fs.update s change).get? l ≠ none ↔ fs.get? l ≠ none := by
  rcases update_cases fs s hchange l with ⟨h, h'⟩ | ⟨before, after, h, h', -⟩ <;> simp [h, h']

theorem Sound.update {change : Node → Node} (h : fs.Sound) (hchange : Node.Mild change) : (fs.update s change).Sound where
  rooted l hl := (isDir_update hchange).2 (h.rooted l ((get?_update_ne_none hchange).1 hl))
  named l hl := h.named l ((get?_update_ne_none hchange).1 hl)
  numbered l node number hg hn := by
    obtain ⟨before, hb, he⟩ := number?_eq_some_iff.1
      ((number?_update hchange).symm.trans (number?_eq_some_iff.2 ⟨node, hg, hn⟩))
    rw [nextNumber_update]
    exact h.numbered l before number hb he

end FileSystem

end Prebuilt
