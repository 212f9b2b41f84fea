import Prebuilt.Proofs.Files.Siblings
/-!
Changes that stay beneath some directories. `Sealed links roots base fs` says that `fs` came from `base` by work beneath the
roots alone: all else is as it was, what lies beneath a root is such as allowed, and no file there has a second name outside.
-/
set_option autoImplicit false

namespace Prebuilt

namespace FileSystem

/-- What may be made besides files and directories: symbolic links to such targets, hard links or not, and special files or
not. -/
structure Links where
  symbolic : Text → Prop
  hard : Prop
  special : Prop

namespace Links

/-- Files and directories alone. -/
def none : Links := ⟨fun _ => False, False, False⟩

structure Within (links links' : Links) : Prop where
  symbolic : ∀ target, links.symbolic target → links'.symbolic target
  hard : links.hard → links'.hard
  special : links.special → links'.special

theorem none_within (links : Links) : none.Within links := ⟨fun _ => False.elim, False.elim, False.elim⟩

/-- Nodes that may stand there. -/
def Allows (links : Links) : Node → Prop
  | .link target => links.symbolic target
  | .special _ _ => links.special
  | _ => True

theorem Within.allows {links links' : Links} {node : Node} (h : links.Within links') (hnode : links.Allows node) :
    links'.Allows node := by
  cases node with
  | link target => exact h.symbolic target hnode
  | special number mode => exact h.special hnode
  | _ => trivial

theorem Allows.of_isLike {links : Links} {a b : Node} (h : links.Allows a) (hlike : a.IsLike b) : links.Allows b := by
  cases a <;> cases b <;> simp_all [Allows, Node.IsLike]

end Links

variable {links : Links} {fs fs' base : FileSystem} {roots : List Location} {d l l' s t : Location} {node : Node} {path : Text}

/-- At one of the locations or beneath it. -/
def Beneath (roots : List Location) (l : Location) : Prop := ∃ r ∈ roots, r <+: l

theorem Beneath.append (h : Beneath roots l) (more : Location) : Beneath roots (l ++ more) := by
  obtain ⟨r, hr, hp⟩ := h
  exact ⟨r, hr, hp.trans (List.prefix_append ..)⟩

/-- Places with nothing at them or beneath them but directories. -/
structure Barren (roots : List Location) (base : FileSystem) : Prop where
  each : ∀ l, Beneath roots l → base.get? l ≠ none → base.IsDir l
  sound : base.Sound

structure Sealed (links : Links) (roots : List Location) (base fs : FileSystem) : Prop where
  outside : ∀ l, ¬ Beneath roots l → fs.get? l = base.get? l
  dirs : ∀ l, base.IsDir l → fs.IsDir l
  allowed : ∀ l node, Beneath roots l → fs.get? l = some node → links.Allows node
  fresh : ∀ l node number, Beneath roots l → fs.get? l = some node → node.number? = some number →
    base.nextNumber ≤ number
  single : ¬ links.hard → ∀ l l' number, Beneath roots l → Beneath roots l' → fs.number? l = some number →
    fs.number? l' = some number → l = l'
  sound : fs.Sound
  cwd : fs.workingDirectory = base.workingDirectory
  next : base.nextNumber ≤ fs.nextNumber

theorem Barren.rooted (h : Barren roots base) : base.Rooted := h.sound.rooted

theorem Sealed.rooted (h : Sealed links roots base fs) : fs.Rooted := h.sound.rooted

theorem Barren.not_isLink (h : Barren roots base) (hl : Beneath roots l) : ¬ base.IsLink l := by
  rintro ⟨target, ht⟩
  exact not_isDir_of_isLink ⟨target, ht⟩ (h.each l hl (by simp [ht]))

theorem Barren.sealed (h : Barren roots base) : Sealed links roots base base where
  outside _ _ := rfl
  dirs _ hl := hl
  allowed l node hl hg := by
    obtain ⟨mode, hm⟩ := h.each l hl (by simp [hg])
    rw [hm] at hg
    cases hg
    trivial
  fresh l node number hl hg hn := by
    obtain ⟨mode, hm⟩ := h.each l hl (by simp [hg])
    rw [hm] at hg
    cases hg
    cases hn
  single _ l _ number hl _ hn _ := by
    obtain ⟨node, hg, hn⟩ := number?_eq_some_iff.1 hn
    obtain ⟨mode, hm⟩ := h.each l hl (by simp [hg])
    rw [hm] at hg
    cases hg
    cases hn
  sound := h.sound
  cwd := rfl
  next := le_rfl

theorem Sealed.mono {links' : Links} (h : Sealed links roots base fs) (hlinks : links.Within links') :
    Sealed links' roots base fs :=
  ⟨h.outside, h.dirs, fun l node hl hg => hlinks.allows (h.allowed l node hl hg), h.fresh,
    fun hhard => h.single (hhard ∘ hlinks.hard), h.sound, h.cwd, h.next⟩

theorem Sealed.linked {target : Text} (h : Sealed links roots base fs) (hl : Beneath roots l)
    (ht : fs.get? l = some (.link target)) : links.symbolic target := h.allowed l _ hl ht

/-- Where paths led they lead as before. -/
theorem Sealed.extends (hbase : Barren roots base) (h : Sealed links roots base fs) : base.Extends fs where
  dir := h.dirs
  link l target ht := by
    have hl : ¬ Beneath roots l := fun hl => hbase.not_isLink hl ⟨target, ht⟩
    rw [h.outside l hl, ht]
  cwd _ := h.cwd

theorem Sealed.not_isLink (hnone : ∀ target, ¬ links.symbolic target) (h : Sealed links roots base fs) (hl : Beneath roots l) :
    ¬ fs.IsLink l := fun ⟨target, ht⟩ => hnone target (h.linked hl ht)

theorem Sealed.sameLinks (hnone : ∀ target, ¬ links.symbolic target) (hbase : Barren roots base)
    (h : Sealed links roots base fs) : base.SameLinks fs := by
  intro l target
  by_cases hl : Beneath roots l
  · exact iff_of_false (fun hg => hbase.not_isLink hl ⟨target, hg⟩) fun hg => h.not_isLink hnone hl ⟨target, hg⟩
  · rw [h.outside l hl]

/-! ## Requests -/

/-- A new node beneath a root; its number, if it has one, was not given out before the work began, and never before unless
hard links may be made. -/
theorem Sealed.add {next : Nat} (h : Sealed links roots base fs) (hin : Beneath roots s) (hname : Nameable s)
    (hnone : fs.get? s = none) (hdir : fs.IsDir s.dropLast) (hnode : links.Allows node)
    (hnext : fs.nextNumber ≤ next)
    (hnumber : ∀ number, node.number? = some number →
      base.nextNumber ≤ number ∧ number < next ∧ (¬ links.hard → fs.nextNumber ≤ number)) :
    Sealed links roots base { fs.put s node with nextNumber := next } := by
  have hne := hname.ne_nil
  have hget (l : Location) :
      ({ fs.put s node with nextNumber := next } : FileSystem).get? l = if l = s then some node else fs.get? l :=
    get?_put hne
  refine ⟨?_, fun l hl => isDir_put hne hnone (h.dirs l hl), ?_, ?_, ?_,
    h.sound.put hname hnone hdir hnext fun number hn => (hnumber number hn).2.1, h.cwd, h.next.trans hnext⟩
  · intro l hl
    have hls : l ≠ s := by
      rintro rfl
      exact hl hin
    rw [hget, if_neg hls, h.outside l hl]
  · intro l other hl hg
    rw [hget] at hg
    split at hg
    · exact Option.some.inj hg ▸ hnode
    · exact h.allowed l other hl hg
  · intro l other number hl hg hn
    rw [hget] at hg
    split at hg
    · cases hg
      exact (hnumber number hn).1
    · exact h.fresh l other number hl hg hn
  · intro hhard l l' number hl hl' hn hn'
    have hold {l : Location} (hls : l ≠ s) : FileSystem.number? { fs.put s node with nextNumber := next } l = fs.number? l := by
      rw [number?, hget, if_neg hls, number?]
    have hnew (hn : FileSystem.number? { fs.put s node with nextNumber := next } s = some number) : fs.nextNumber ≤ number := by
      rw [number?, hget, if_pos rfl] at hn
      exact (hnumber number hn).2.2 hhard
    by_cases hls : l = s <;> by_cases hls' : l' = s
    · rw [hls, hls']
    · rw [hls] at hn
      exact absurd (h.sound.number?_lt (hold hls' ▸ hn')) (Nat.not_lt.2 (hnew hn))
    · rw [hls'] at hn'
      exact absurd (h.sound.number?_lt (hold hls ▸ hn)) (Nat.not_lt.2 (hnew hn'))
    · exact h.single hhard l l' number hl hl' (hold hls ▸ hn) (hold hls' ▸ hn')

theorem Sealed.addDirectory {mode : Nat} (h : Sealed links roots base fs) (hin : Beneath roots s) (hname : Nameable s)
    (hnone : fs.get? s = none) (hdir : fs.IsDir s.dropLast) : Sealed links roots base (fs.put s (.directory mode)) :=
  h.add hin hname hnone hdir trivial le_rfl (by simp [Node.number?])

theorem Sealed.addLink {target : Text} (h : Sealed links roots base fs) (hin : Beneath roots s) (hname : Nameable s)
    (hnone : fs.get? s = none) (hdir : fs.IsDir s.dropLast) (ht : links.symbolic target) :
    Sealed links roots base (fs.put s (.link target)) :=
  h.add hin hname hnone hdir ht le_rfl (by simp [Node.number?])

theorem Sealed.addFile {mode : Nat} {content : Bytes} (h : Sealed links roots base fs) (hin : Beneath roots s)
    (hname : Nameable s) (hnone : fs.get? s = none) (hdir : fs.IsDir s.dropLast) :
    Sealed links roots base (fs.addFile s mode content) :=
  h.add hin hname hnone hdir trivial (Nat.le_succ _) (by simpa [Node.number?] using h.next)

theorem Sealed.addSpecial {mode : Nat} (h : Sealed links roots base fs) (hin : Beneath roots s) (hname : Nameable s)
    (hnone : fs.get? s = none) (hdir : fs.IsDir s.dropLast) (hspecial : links.special) :
    Sealed links roots base (fs.addSpecial s mode) :=
  h.add hin hname hnone hdir hspecial (Nat.le_succ _) (by simpa [Node.number?] using h.next)

/-- A second name beneath the roots for something that lies there. -/
theorem Sealed.addName (h : Sealed links roots base fs) (hin : Beneath roots s) (hname : Nameable s)
    (hnone : fs.get? s = none) (hdir : fs.IsDir s.dropLast) (hhard : links.hard) (ht : Beneath roots t) (hg : fs.get? t = some node) :
    Sealed links roots base (fs.put s node) :=
  h.add hin hname hnone hdir (h.allowed t node ht hg) le_rfl fun number hn =>
    ⟨h.fresh t node number ht hg hn, h.sound.numbered t node number hg hn, absurd hhard⟩

/-- A name beneath the roots goes that is no directory's. -/
theorem Sealed.erase (h : Sealed links roots base fs) (hin : Beneath roots s) (hne : s ≠ []) (hs : ¬ fs.IsDir s) :
    Sealed links roots base (fs.erase s) := by
  have hget {l : Location} {other : Node} (hg : (fs.erase s).get? l = some other) : fs.get? l = some other := by
    rw [get?_erase hne] at hg
    split at hg
    · cases hg
    · exact hg
  have hother {l : Location} (hl : l ≠ s) : (fs.erase s).get? l = fs.get? l := by rw [get?_erase hne, if_neg hl]
  refine ⟨?_, ?_, fun l node hl hg => h.allowed l node hl (hget hg),
    fun l other number hl hg hn => h.fresh l other number hl (hget hg) hn, fun hhard l l' number hl hl' hn hn' => ?_,
    h.sound.erase hne hs, h.cwd, h.next⟩
  · intro l hl
    rw [hother, h.outside l hl]
    rintro rfl
    exact hl hin
  · intro l hl
    obtain ⟨mode, hm⟩ := h.dirs l hl
    refine ⟨mode, (hother ?_).trans hm⟩
    rintro rfl
    exact hs ⟨mode, hm⟩
  · have hold {l : Location} (hn : (fs.erase s).number? l = some number) : fs.number? l = some number := by
      obtain ⟨other, hg, hn⟩ := number?_eq_some_iff.1 hn
      exact number?_eq_some_iff.2 ⟨other, hget hg, hn⟩
    exact h.single hhard l l' number hl hl' (hold hn) (hold hn')

theorem Sealed.update {change : Node → Node} (hbase : Barren roots base) (h : Sealed links roots base fs)
    (hin : Beneath roots s) (hchange : Node.Mild change) : Sealed links roots base (fs.update s change) := by
  refine ⟨?_, fun l hl => (isDir_update hchange).2 (h.dirs l hl),
    fun l node hl hg => ?_, ?_, ?_, h.sound.update hchange,
    (workingDirectory_update ..).trans h.cwd, (nextNumber_update ..).symm ▸ h.next⟩
  · intro l hl
    by_cases hnil : l = []
    · simp [hnil]
    · rw [get?_update change hnil, ← h.outside l hl]
      cases hs : fs.get? s with
      | none => rfl
      | some at_ =>
        cases hg : fs.get? l with
        | none => rfl
        | some other =>
          -- A second name outside would have a number from before.
          have hdiff : isSame (s, at_) (l, other) = false := by
            rw [isSame, Bool.or_eq_false_iff, beq_eq_false_iff_ne]
            refine ⟨fun he : s = l => hl (he ▸ hin), ?_⟩
            rw [Bool.and_eq_false_imp]
            intro hsome
            obtain ⟨number, hn⟩ := Option.isSome_iff_exists.1 hsome
            rw [beq_eq_false_iff_ne]
            intro he
            have hge := h.fresh s at_ number hin hs hn
            have hlt := hbase.sound.numbered l other number (h.outside l hl ▸ hg) (he ▸ hn)
            omega
          simp [hdiff]
  · rcases update_cases fs s hchange l with ⟨-, hnone⟩ | ⟨before, after, hbefore, hafter, hlike⟩
    · rw [hnone] at hg
      cases hg
    · rw [hafter] at hg
      cases hg
      exact (h.allowed l before hl hbefore).of_isLike hlike
  · intro l node' number hl hg hn
    obtain ⟨before, hg', he⟩ := number?_eq_some_iff.1 ((number?_update hchange).symm.trans (number?_eq_some_iff.2 ⟨node', hg, hn⟩))
    exact h.fresh l before number hl hg' he
  · intro hhard l l' number hl hl' hn hn'
    rw [number?_update hchange] at hn hn'
    exact h.single hhard l l' number hl hl' hn hn'

/-- Files beneath the roots have one name each, as long as no hard links are made. -/
theorem Sealed.single_name {number : Nat} (hbase : Barren roots base) (h : Sealed links roots base fs) (hhard : ¬ links.hard)
    (hl : Beneath roots l) (hn : fs.number? l = some number) (hn' : fs.number? l' = some number) : l' = l := by
  by_cases hl' : Beneath roots l'
  · exact h.single hhard l' l number hl' hl hn' hn
  · obtain ⟨node, hg, hnode⟩ := number?_eq_some_iff.1 hn
    obtain ⟨node', hg', hnode'⟩ := number?_eq_some_iff.1 hn'
    have hge := h.fresh l node number hl hg hnode
    have hlt := hbase.sound.numbered l' node' number (h.outside l' hl' ▸ hg') hnode'
    omega

/-- Something that is no directory moves to a free name. -/
theorem Sealed.moveLeaf (h : Sealed links roots base fs) (hs : Beneath roots s) (ht : Beneath roots t) (hname : Nameable t)
    (hleaf : ¬ fs.IsDir s) (hg : fs.get? s = some node) (hnone : fs.get? t = none) (hdir : fs.IsDir t.dropLast)
    (hcwd : ¬ s <+: fs.workingDirectory) : Sealed links roots base (fs.move s t) := by
  have hthere : fs.get? s ≠ none := by simp [hg]
  obtain ⟨hst, hts⟩ := h.rooted.apart_of_leaf hleaf hthere hnone hdir hname.ne_nil
  have hget := get?_move_leaf h.rooted hleaf hthere hnone hdir hname.ne_nil
  have horigin {l : Location} {other : Node} (hl : (fs.move s t).get? l = some other) :
      ∃ l', fs.get? l' = some other ∧ (l' = l ∧ l ≠ t ∨ l' = s ∧ l = t) := by
    rw [hget] at hl
    split at hl
    · exact ⟨s, hl, .inr ⟨rfl, ‹_›⟩⟩
    · split at hl
      · cases hl
      · exact ⟨l, hl, .inl ⟨rfl, ‹_›⟩⟩
  have hin {l l' : Location} (hl : Beneath roots l) (h : l' = l ∧ l ≠ t ∨ l' = s ∧ l = t) : Beneath roots l' := by
    rcases h with ⟨rfl, -⟩ | ⟨rfl, -⟩
    · exact hl
    · exact hs
  refine ⟨fun l hl => ?_, fun l hl => ?_, fun l other hl hg => ?_, fun l other number hl hg hn => ?_,
    fun hhard l l' number hl hl' hn hn' => ?_, h.sound.move hst hts hname hdir,
    (moveLocation_of_outside hcwd).trans h.cwd, h.next⟩
  · rw [hget, if_neg, if_neg, h.outside l hl]
    · rintro rfl
      exact hl hs
    · rintro rfl
      exact hl ht
  · obtain ⟨mode, hm⟩ := h.dirs l hl
    refine ⟨mode, ?_⟩
    rw [hget, if_neg, if_neg, hm]
    · rintro rfl
      exact hleaf ⟨mode, hm⟩
    · rintro rfl
      rw [hm] at hnone
      cases hnone
  · obtain ⟨l', hg', hl'⟩ := horigin hg
    exact h.allowed l' other (hin hl hl') hg'
  · obtain ⟨l', hg', hl'⟩ := horigin hg
    exact h.fresh l' other number (hin hl hl') hg' hn
  · obtain ⟨a, ha, hna⟩ := number?_eq_some_iff.1 hn
    obtain ⟨b, hb, hnb⟩ := number?_eq_some_iff.1 hn'
    obtain ⟨i, hi, hil⟩ := horigin ha
    obtain ⟨j, hj, hjl⟩ := horigin hb
    have hij := h.single hhard i j number (hin hl hil) (hin hl' hjl) (number?_eq_some_iff.2 ⟨a, hi, hna⟩)
      (number?_eq_some_iff.2 ⟨b, hj, hnb⟩)
    have hgone {l : Location} {other : Node} (hg : (fs.move s t).get? l = some other) (hl : l ≠ t) : l ≠ s := by
      rintro rfl
      rw [hget, if_neg hl, if_pos rfl] at hg
      cases hg
    rcases hil with ⟨rfl, hdiff⟩ | ⟨rfl, rfl⟩ <;> rcases hjl with ⟨rfl, hdiff'⟩ | ⟨rfl, rfl⟩
    · exact hij
    · exact absurd hij (hgone ha hdiff)
    · exact absurd hij.symm (hgone hb hdiff')
    · rfl

/-! ## Roots that come and go -/

theorem barren_nil (h : base.Sound) : Barren [] base :=
  ⟨fun _ hl => absurd hl (by simp [Beneath]), h⟩

/-- A directory that is made is a root of its own. -/
theorem Barren.cons {mode : Nat} (h : Barren roots base) (hname : Nameable s) (hnone : base.get? s = none)
    (hdir : base.IsDir s.dropLast) : Barren (s :: roots) (base.put s (.directory mode)) := by
  have hne := hname.ne_nil
  have hself : (base.put s (.directory mode)).IsDir s := ⟨mode, by rw [get?_put hne, if_pos rfl]⟩
  refine ⟨fun l hl hg => ?_, h.sound.putDirectory hname hnone hdir⟩
  by_cases hls : l = s
  · rw [hls]
    exact hself
  · rw [get?_put hne, if_neg hls] at hg
    obtain ⟨r, hr, hp⟩ := hl
    rcases List.mem_cons.1 hr with rfl | hr
    · exact absurd (vacant_of_none h.rooted hnone l hp) hg
    · exact isDir_put hne hnone (h.each l ⟨r, hr, hp⟩ hg)

/-- Once such a directory is gone, all work in it is. -/
theorem Sealed.withdraw {mode : Nat} (hname : Nameable s) (hvacant : base.Vacant s)
    (h : Sealed links (s :: roots) (base.put s (.directory mode)) fs) : Sealed links roots base (fs.without s) := by
  have hne := hname.ne_nil
  have hput {l : Location} (hl : ¬ s <+: l) : (base.put s (.directory mode)).get? l = base.get? l := by
    rw [get?_put hne, if_neg]
    rintro rfl
    exact hl List.prefix_rfl
  have hget {l : Location} {node : Node} (hg : (fs.without s).get? l = some node) : ¬ s <+: l ∧ fs.get? l = some node := by
    rw [get?_without hne] at hg
    split at hg
    · cases hg
    · exact ⟨‹_›, hg⟩
  have hnumber {l : Location} {number : Nat} (hn : (fs.without s).number? l = some number) : fs.number? l = some number := by
    obtain ⟨node, hg, hn⟩ := number?_eq_some_iff.1 hn
    exact number?_eq_some_iff.2 ⟨node, (hget hg).2, hn⟩
  have hmore {l : Location} (hl : Beneath roots l) : Beneath (s :: roots) l := by
    obtain ⟨r, hr, hp⟩ := hl
    exact ⟨r, List.mem_cons_of_mem s hr, hp⟩
  refine ⟨fun l hl => ?_, fun l hl => ?_, fun l node hl hg => h.allowed l node (hmore hl) (hget hg).2,
    fun l node number hl hg hn => h.fresh l node number (hmore hl) (hget hg).2 hn,
    fun hhard l l' number hl hl' hn hn' => h.single hhard l l' number (hmore hl) (hmore hl') (hnumber hn) (hnumber hn'),
    h.sound.without hne, h.cwd, h.next⟩
  · rw [get?_without hne]
    split
    · rw [hvacant l ‹_›]
    · rename_i hs
      rw [h.outside l, hput hs]
      rintro ⟨r, hr, hp⟩
      rcases List.mem_cons.1 hr with rfl | hr
      · exact hs hp
      · exact hl ⟨r, hr, hp⟩
  · have hs : ¬ s <+: l := fun hp => by
      obtain ⟨mode, hm⟩ := hl
      rw [hvacant l hp] at hm
      cases hm
    obtain ⟨mode', hm⟩ := hl
    obtain ⟨mode'', hm'⟩ := h.dirs l ⟨mode', (hput hs).trans hm⟩
    exact ⟨mode'', by rw [get?_without hne, if_neg hs, hm']⟩

end FileSystem

end Prebuilt
