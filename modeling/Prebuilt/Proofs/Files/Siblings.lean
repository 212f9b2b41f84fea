import Prebuilt.Proofs.Files.Soundness
/-!
Entries of one directory that are moved and removed. As long as the paths of the entries lead through none of them, a core
of the file system without the entries is all that the paths depend on, and every move leaves the core in place.
-/
set_option autoImplicit false

namespace Prebuilt.FileSystem

variable {core fs fs' : FileSystem} {pass pass' : Location → Text → Prop} {d d' l l' s t : Location} {path next last : Text}
  {parts above : List Text} {m n : Nat}

/-! ## What moves leave in place -/

theorem vacant_without (hne : s ≠ []) : (fs.without s).Vacant s := fun l hl => by rw [get?_without hne, if_pos hl]

theorem Vacant.not_prefix (h : core.Vacant s) (hl : core.get? l ≠ none) : ¬ s <+: l := fun hp => hl (h l hp)

theorem Vacant.ne_nil (h : core.Vacant s) : s ≠ [] := by
  rintro rfl
  have := h [] List.prefix_rfl
  simp at this

theorem IsDir.get?_ne_none (h : fs.IsDir l) : fs.get? l ≠ none := by
  obtain ⟨mode, hm⟩ := h
  simp [hm]

/-- What changes nothing that the core has is an extension of it. -/
theorem Extends.congr (h : core.Extends fs) (hget : ∀ l, core.get? l ≠ none → fs'.get? l = fs.get? l)
    (hcwd : core.IsDir core.workingDirectory → fs'.workingDirectory = fs.workingDirectory) : core.Extends fs' where
  dir l hl := by
    obtain ⟨mode, hm⟩ := h.dir l hl
    exact ⟨mode, (hget l hl.get?_ne_none).trans hm⟩
  link l target hl := (hget l (by simp [hl])).trans (h.link l target hl)
  cwd hd := (hcwd hd).trans (h.cwd hd)

theorem Extends.move (h : core.Extends fs) (hs : core.Vacant s) (ht : core.Vacant t) (hst : ¬ s <+: t) (hts : ¬ t <+: s) :
    core.Extends (fs.move s t) := by
  refine h.congr (fun l hl => ?_) fun hd => ?_
  · rw [get?_move hst hts, if_neg (ht.not_prefix hl), if_neg (hs.not_prefix hl)]
  · rw [FileSystem.move, h.cwd hd, moveLocation_of_outside (hs.not_prefix hd.get?_ne_none)]

theorem Extends.without (h : core.Extends fs) (hs : core.Vacant s) : core.Extends (fs.without s) :=
  h.congr (fun l hl => by rw [get?_without hs.ne_nil, if_neg (hs.not_prefix hl)]) fun _ => rfl

theorem Extends.erase (h : core.Extends fs) (hs : core.Vacant s) : core.Extends (fs.erase s) := by
  refine h.congr (fun l hl => ?_) fun _ => rfl
  rw [get?_erase hs.ne_nil, if_neg]
  rintro rfl
  exact hl (hs l List.prefix_rfl)

theorem without_extends (hne : s ≠ []) : (fs.without s).Extends fs :=
  extends_of_without hne (fun _ _ => rfl) fun _ => rfl

/-! ## Paths past a location -/

/-- The components lead past the location: nothing on the way is there or beneath it. -/
def Skirts (fs : FileSystem) (s : Location) : Nat → Location → List Text → Location → Prop :=
  Follows fs fun d part => byteLength part ≤ nameLimit ∧ ¬ s <+: child d part

theorem Follows.and (h : fs.Follows pass n d parts l) (h' : fs.Follows pass' m d parts l') :
    fs.Follows (fun d part => pass d part ∧ pass' d part) n d parts l := by
  induction h generalizing m with
  | nil d => exact .nil d
  | skip hp _ ih =>
    cases h' with
    | skip _ h' => exact .skip hp (ih h')
    | up hu _ => exact absurd hu (not_isPart_dots hp)
    | step hn _ _ _ => simp [hn.1] at hp
    | link hn _ _ _ => simp [hn.1] at hp
  | up hu _ ih =>
    cases h' with
    | skip hp _ => exact absurd hu (not_isPart_dots hp)
    | up _ h' => exact .up hu (ih h')
    | step hn _ _ _ => exact absurd hu hn.2
    | link hn _ _ _ => exact absurd hu hn.2
  | step hn ho hl _ ih =>
    cases h' with
    | skip hp _ => simp [hn.1] at hp
    | up hu _ => exact absurd hu hn.2
    | step _ ho' _ h' => exact .step hn ⟨ho, ho'⟩ hl (ih h')
    | link _ _ hl' _ => exact absurd ⟨_, hl'⟩ hl
  | link hn ho hl _ ih =>
    cases h' with
    | skip hp _ => simp [hn.1] at hp
    | up hu _ => exact absurd hu hn.2
    | step _ _ hl' _ => exact absurd ⟨_, hl⟩ hl'
    | link _ ho' hl' h' =>
      rw [hl] at hl'
      cases hl'
      exact .link hn ⟨ho, ho'⟩ hl (ih h')

/-- Components that lead past a location reach the same without it. -/
theorem Follows.without (hne : s ≠ []) (h : fs.Reaches n d parts l) (h' : fs.Skirts s m d parts l') :
    (fs.without s).Reaches n d parts l := by
  have hget {l : Location} (hl : ¬ s <+: l) : (fs.without s).get? l = fs.get? l := by rw [get?_without hne, if_neg hl]
  have hboth := h.and h'
  clear h h'
  induction hboth with
  | nil d => exact .nil d
  | skip hp _ ih => exact .skip hp ih
  | up hu _ ih => exact .up hu ih
  | step hn ho hl _ ih =>
    obtain ⟨⟨hlen, hthere⟩, -, hs⟩ := ho
    refine .step hn ⟨hlen, ?_⟩ ?_ ih
    · simpa only [IsDir, IsLink, hget hs] using hthere
    · simpa only [IsLink, hget hs] using hl
  | link hn ho hl _ ih =>
    obtain ⟨⟨hlen, hthere⟩, -, hs⟩ := ho
    refine .link hn ⟨hlen, ?_⟩ ((hget hs).trans hl) ih
    simpa only [IsDir, IsLink, hget hs] using hthere

theorem Skirts.of_sameLinks (hlinks : fs.SameLinks fs') (h : fs.Skirts s n d parts l) : fs'.Skirts s n d parts l := by
  unfold Skirts at h ⊢
  induction h with
  | nil d => exact .nil d
  | skip hp _ ih => exact .skip hp ih
  | up hp _ ih => exact .up hp ih
  | step hp ho hl _ ih => exact .step hp ho (hlinks.isLink_iff.not.1 hl) ih
  | link hp ho hl _ ih => exact .link hp ho ((hlinks _ _).1 hl) ih

/-! ## Paths that end in a name -/

/-- The components of such a path but the last reach the directory. -/
theorem Addresses.names (h : fs.Addresses path l) : ∃ above last n d, Path.names path = above ++ [last] ∧ IsName last ∧
    byteLength last ≤ nameLimit ∧ fs.start path = .ok (fs.origin path) ∧ n ≤ linkLimit ∧
      fs.Reaches n (fs.origin path) above d ∧ fs.IsDir d ∧ l = child d last := by
  obtain ⟨hs, hname, hlen, hstart, hn, hr, hdir⟩ := h
  refine ⟨_, _, _, _, ?_, hname, hlen, hstart, hn, follows_filter.2 hr, hdir, rfl⟩
  rw [Path.names, hs, List.filter_append, List.filter_cons_of_pos hname.1]
  rfl

/-- The path value of a directory and a name in it, and what its text stands for. -/
theorem addresses_toText {p : FilePath} (hp : p.Tidy) (hparts : p.parts = above ++ [last]) (hname : IsName last)
    (hlen : byteLength last ≤ nameLimit) (hstart : fs.start p.toText = .ok (fs.origin p.toText)) (hn : n ≤ linkLimit)
    (hr : fs.Reaches n (fs.origin p.toText) above d) (hdir : fs.IsDir d) : fs.Addresses p.toText (child d last) := by
  obtain ⟨empties, hempty, hs⟩ := hp.splitOn_toText (by simp [hparts])
  rw [hparts, ← List.append_assoc] at hs
  have hskip : empties.filter FilePath.isPart = [] := List.filter_eq_nil_iff.2 fun e he => by
    rw [hempty e he]
    decide
  refine .intro hs hname hlen hstart hn (follows_filter.1 ?_) hdir
  rw [List.filter_append, hskip, List.nil_append]
  exact follows_filter.2 hr

/-! ## Entries of one directory -/

/-- Two entries of one directory. -/
structure Siblings (a b : Location) : Prop where
  dropLast : a.dropLast = b.dropLast
  ne : a ≠ b
  left : a ≠ []
  right : b ≠ []

theorem Siblings.symm (h : Siblings s t) : Siblings t s := ⟨h.dropLast.symm, h.ne.symm, h.right, h.left⟩

theorem not_prefix_dropLast (h : s ≠ []) : ¬ s <+: s.dropLast := by
  intro hp
  have hlen := hp.length_le
  have hpos := List.length_pos_iff.2 h
  rw [List.length_dropLast] at hlen
  omega

theorem not_prefix_of_dropLast (h : ¬ s <+: t.dropLast) (hne : s ≠ t) : ¬ s <+: t := by
  intro hp
  rcases List.eq_nil_or_concat t with rfl | ⟨d, name, rfl⟩
  · exact h (by simpa using hp)
  · rw [List.concat_eq_append, List.dropLast_concat] at h
    rw [List.concat_eq_append] at hp hne
    exact (List.prefix_concat_iff.1 hp).elim hne h

theorem Siblings.not_prefix_dropLast (h : Siblings s t) : ¬ s <+: t.dropLast :=
  h.dropLast ▸ FileSystem.not_prefix_dropLast h.left

theorem Siblings.not_prefix (h : Siblings s t) : ¬ s <+: t := not_prefix_of_dropLast h.not_prefix_dropLast h.ne

theorem Siblings.disjoint (h : Siblings s t) (hs : s <+: l) : ¬ t <+: l := fun ht =>
  (List.prefix_or_prefix_of_prefix hs ht).elim h.not_prefix h.symm.not_prefix

theorem Siblings.get?_move (h : Siblings s t) (fs : FileSystem) (l : Location) : (fs.move s t).get? l =
    if t <+: l then fs.get? (s ++ l.drop t.length) else if s <+: l then none else fs.get? l :=
  FileSystem.get?_move h.not_prefix h.symm.not_prefix

theorem siblings_child {part next : Text} (h : Name.canonical part ≠ Name.canonical next) :
    Siblings (child d part) (child d next) where
  dropLast := by simp [child]
  ne := by simpa [child] using h
  left := child_ne_nil
  right := child_ne_nil

theorem Siblings.canonical_ne {part next : Text} (h : Siblings (child d part) (child d next)) :
    Name.canonical part ≠ Name.canonical next := by simpa [child] using h.ne

/-! ## What has nothing beneath it -/

theorem Rooted.get?_below_leaf (hroot : fs.Rooted) (hs : ¬ fs.IsDir s) (hp : s <+: l) (hne : l ≠ s) : fs.get? l = none := by
  by_contra hg
  exact hs (hroot.isDir_of_below hp hne hg)

theorem Rooted.apart_of_leaf (hroot : fs.Rooted) (hs : ¬ fs.IsDir s) (hthere : fs.get? s ≠ none) (hnone : fs.get? t = none)
    (hdir : fs.IsDir t.dropLast) (hne : t ≠ []) : ¬ s <+: t ∧ ¬ t <+: s := by
  have hts : ¬ t <+: s := fun hp => hthere (vacant_of_none hroot hnone s hp)
  refine ⟨not_prefix_of_dropLast (fun hp => ?_) ?_, hts⟩
  · rcases eq_or_ne t.dropLast s with he | hdiff
    · exact hs (he ▸ hdir)
    · exact hdir.get?_ne_none (hroot.get?_below_leaf hs hp hdiff)
  · rintro rfl
    exact hthere hnone

/-- What is no directory moves alone. -/
theorem get?_move_leaf (hroot : fs.Rooted) (hs : ¬ fs.IsDir s) (hthere : fs.get? s ≠ none) (hnone : fs.get? t = none)
    (hdir : fs.IsDir t.dropLast) (hne : t ≠ []) (l : Location) :
    (fs.move s t).get? l = if l = t then fs.get? s else if l = s then none else fs.get? l := by
  obtain ⟨hst, hts⟩ := hroot.apart_of_leaf hs hthere hnone hdir hne
  rw [get?_move hst hts]
  by_cases hlt : t <+: l
  · obtain ⟨more, rfl⟩ := hlt
    rw [if_pos (List.prefix_append _ _), List.drop_left]
    rcases eq_or_ne more [] with rfl | hmore
    · simp
    · rw [hroot.get?_below_leaf hs (List.prefix_append _ _) (by simpa using hmore), if_neg (by simpa using hmore)]
      split
      · rfl
      · exact (vacant_of_none hroot hnone _ (List.prefix_append _ _)).symm
  · have hne' : l ≠ t := by
      rintro rfl
      exact hlt List.prefix_rfl
    rw [if_neg hlt, if_neg hne']
    by_cases hls : s <+: l
    · rw [if_pos hls]
      by_cases he : l = s
      · rw [if_pos he]
      · rw [if_neg he, hroot.get?_below_leaf hs hls he]
    · rw [if_neg hls, if_neg]
      rintro rfl
      exact hls List.prefix_rfl

/-! ## Renaming -/

/-- The path ends in a name that the system takes, and the location is where it lies. -/
def Names (fs : FileSystem) (path : Text) (l : Location) : Prop :=
  ∃ found name, fs.lastName path = .ok found ∧ found.name = some name ∧ byteLength name ≤ nameLimit ∧
    l = child found.directory name

theorem renamed_ok (h : fs.renamed s t = .ok fs') : fs.get? s ≠ none ∧ (fs' = fs ∨ s ≠ t ∧ fs' = fs.move s t) := by
  unfold renamed at h
  cases hs : fs.get? s with
  | none => simp [hs] at h
  | some node =>
    refine ⟨by simp, ?_⟩
    cases ht : fs.get? t with
    | none =>
      simp only [hs, ht, Except.ok.injEq] at h
      refine .inr ⟨?_, h.symm⟩
      rintro rfl
      simp [hs] at ht
    | some other =>
      simp only [hs, ht] at h
      by_cases hsame : isSame (s, node) (t, other) = true
      · rw [if_pos hsame] at h
        exact .inl (Except.ok.inj h).symm
      · rw [if_neg hsame] at h
        have hne : s ≠ t := by
          rintro rfl
          simp [isSame] at hsame
        split at h
        · split at h
          · cases h
          · split at h
            · cases h
            · exact .inr ⟨hne, (Except.ok.inj h).symm⟩
        · split at h
          · cases h
          · exact .inr ⟨hne, (Except.ok.inj h).symm⟩

theorem entry_ok {name : Name} {found : Location × Option Node} (h : fs.entry d name = .ok found) :
    byteLength name ≤ nameLimit ∧ found = (child d name, fs.get? (child d name)) := by
  rw [entry] at h
  split at h
  · cases h
  · rename_i hlen
    exact ⟨Nat.not_lt.1 hlen, (Except.ok.inj h).symm⟩

/-- A rename that is granted moves something to where nothing on the way to it is, or finds the same object at both ends. -/
theorem rename_ok {source target : Text} (h : fs.rename source target = .ok fs') : ∃ s t, fs.Names source s ∧
    fs.Names target t ∧ fs.get? s ≠ none ∧ ¬ s <+: t.dropLast ∧ ¬ t <+: s.dropLast ∧
      (fs' = fs ∨ s ≠ t ∧ fs' = fs.move s t) := by
  simp only [FileSystem.rename, bind, Except.bind, throw, throwThe, MonadExceptOf.throw, pure, Except.pure] at h
  split at h
  · cases h
  rename_i found hfound
  split at h
  · cases h
  rename_i goal hgoal
  split at h
  rotate_left
  · cases h
  rename_i name name' hname hname'
  split at h
  · cases h
  rename_i x hx
  obtain ⟨hlen, rfl⟩ := entry_ok hx
  split at h
  · cases h
  rename_i old node heq
  obtain ⟨rfl, hnode⟩ := Prod.mk.inj heq
  split at h
  · cases h
  rename_i y hy
  obtain ⟨hlen', rfl⟩ := entry_ok hy
  split at h
  · cases h
  split at h
  · cases h
  rename_i hst
  split at h
  · cases h
  rename_i hts
  rw [List.isPrefixOf_iff_prefix] at hst hts
  have hrenamed : fs.renamed (child found.directory name) (child goal.directory name') = .ok fs' := by
    rw [renamed, hnode, ← h]
    cases fs.get? (child goal.directory name') <;> rfl
  exact ⟨_, _, ⟨found, name, hfound, hname, hlen, rfl⟩, ⟨goal, name', hgoal, hname', hlen', rfl⟩, (renamed_ok hrenamed).1,
    by simpa [child] using hst, by simpa [child] using hts, (renamed_ok hrenamed).2⟩

end Prebuilt.FileSystem
