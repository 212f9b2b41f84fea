import Prebuilt.Proofs.Files.Walking
/-!
What `walk` finds. Up to its last component a path has to reach a directory through no more links than the limit; the
rest is decided by what stands under the last component.
-/
set_option autoImplicit false

namespace Prebuilt

/-- Where the result of a walk is, be it there or not. -/
def Place.location : Place → Location
  | .taken l _ => l
  | .free d name => d ++ [name]

end Prebuilt

namespace Prebuilt.FileSystem

variable {fs : FileSystem} {purpose : Purpose} {d d' l : Location} {a b parts rest : List Text} {part : Text}
  {links n mode : Nat} {p : Place} {node : Node}

/-! ## One component -/

theorem walk_skip (h : FilePath.isPart part = false) :
    fs.walk purpose links d (part :: rest) = fs.walk purpose links d rest := by
  rw [walk, if_pos (not_isPart_iff.1 h)]

theorem walk_up : fs.walk purpose links d (".." :: rest) = fs.walk purpose links d.dropLast rest := by
  rw [walk, if_neg (by decide), if_pos rfl]

theorem IsName.ne (h : IsName part) : ¬ (part.isEmpty ∨ part = ".") := by
  rw [← not_isPart_iff, h.1]
  simp

/-- Components that something has to follow: for a file to be made not only slashes. -/
def Continues (purpose : Purpose) (b : List Text) : Prop := b ≠ [] ∧ (purpose = .creation → b.all (·.isEmpty) = false)

theorem Continues.append (h : Continues purpose b) (a : List Text) : Continues purpose (a ++ b) := by
  refine ⟨by simp [h.1], fun hp => ?_⟩
  rw [List.all_append, h.2 hp, Bool.and_false]

theorem continues_cons (h : IsName part) : Continues purpose (part :: rest) := by
  refine ⟨by simp, fun _ => ?_⟩
  have hp : part.isEmpty = false := by simpa using fun he => h.ne (.inl he)
  rw [List.all_cons, hp, Bool.false_and]

theorem walk_name (hn : IsName part) (hrest : Continues purpose rest) :
    fs.walk purpose links d (part :: rest) =
      if nameLimit < byteLength part then .error .nameTooLong
      else match fs.get? (child d part) with
        | none => .error .noEntry
        | some (.directory _) => fs.walk purpose links (child d part) rest
        | some (.link target) =>
          match links with
          | 0 => .error .tooManyLinks
          | links + 1 => fs.walk purpose links (linkStart d target) (Text.splitOn '/' target ++ rest)
        | some _ => .error .notDirectory := by
  have hc : ¬ (purpose = .creation ∧ !rest.isEmpty ∧ rest.all (·.isEmpty)) := by
    rintro ⟨hp, _, ha⟩
    rw [hrest.2 hp] at ha
    cases ha
  have he : rest.isEmpty = false := by simpa using hrest.1
  rw [walk, if_neg hn.ne, if_neg hn.2, if_neg hc]
  simp only [he, child, linkStart]
  rfl

theorem walk_last (hn : IsName part) :
    fs.walk purpose links d [part] =
      if nameLimit < byteLength part then .error .nameTooLong
      else match fs.get? (child d part) with
        | none => .ok (.free d (Name.canonical part))
        | some (.link target) =>
          if purpose = .entry then .ok (.taken (child d part) (.link target))
          else match links with
            | 0 => .error .tooManyLinks
            | links + 1 => fs.walk purpose links (linkStart d target) (Text.splitOn '/' target)
        | some node => .ok (.taken (child d part) node) := by
  rw [walk, if_neg hn.ne, if_neg hn.2, if_neg (by simp)]
  simp only [List.isEmpty_nil, List.append_nil, child, linkStart]
  split
  · rfl
  · cases h : fs.get? (d ++ [Name.canonical part]) with
    | none => rfl
    | some node => cases node <;> cases links <;> simp

/-- A component has no effect, leads up, or is a name. -/
theorem part_cases (part : Text) : FilePath.isPart part = false ∨ part = ".." ∨ IsName part := by
  by_cases hp : FilePath.isPart part = true
  · by_cases hu : part = ".."
    · exact .inr (.inl hu)
    · exact .inr (.inr ⟨hp, hu⟩)
  · exact .inl (by simpa using hp)

/-! ## All components but the last -/

/-- A walk goes on from wherever its first components reach. -/
theorem walk_append_of_reaches (hb : Continues purpose b) (h : fs.Reaches n d a d') (hn : n ≤ links) :
    fs.walk purpose links d (a ++ b) = fs.walk purpose (links - n) d' b := by
  induction links using Nat.strongRecOn generalizing d a n with
  | ind links ihl =>
    induction a generalizing d n with
    | nil =>
      cases h
      simp
    | cons part rest ih =>
      cases h with
      | skip hp h =>
        rw [List.cons_append, walk_skip hp]
        exact ih h hn
      | up hu h =>
        subst hu
        rw [List.cons_append, walk_up]
        exact ih h hn
      | step hname ho hl h =>
        obtain ⟨mode, hm⟩ := ho.isDir hl
        rw [List.cons_append, walk_name hname (hb.append rest), if_neg (Nat.not_lt.2 ho.1)]
        simp only [hm]
        exact ih h hn
      | link hname ho hl h =>
        rename_i m target
        obtain ⟨k, rfl⟩ : ∃ k, links = k + 1 := ⟨links - 1, by omega⟩
        rw [List.cons_append, walk_name hname (hb.append rest), if_neg (Nat.not_lt.2 ho.1)]
        simp only [hl]
        rw [← List.append_assoc, ihl k (by omega) (follows_splitOn.2 h) (by omega)]
        congr 1
        omega

theorem walk_append_ok (hb : Continues purpose b) (h : fs.walk purpose links d (a ++ b) = .ok p) :
    ∃ n d', n ≤ links ∧ fs.Reaches n d a d' ∧ fs.walk purpose (links - n) d' b = .ok p := by
  induction links using Nat.strongRecOn generalizing d a with
  | ind links ihl =>
    induction a generalizing d with
    | nil => exact ⟨0, d, Nat.zero_le _, .nil d, h⟩
    | cons part rest ih =>
      rcases part_cases part with hp | rfl | hname
      · rw [List.cons_append, walk_skip hp] at h
        obtain ⟨n, d', hn, hr, hw⟩ := ih h
        exact ⟨n, d', hn, .skip hp hr, hw⟩
      · rw [List.cons_append, walk_up] at h
        obtain ⟨n, d', hn, hr, hw⟩ := ih h
        exact ⟨n, d', hn, .up rfl hr, hw⟩
      · rw [List.cons_append, walk_name hname (hb.append rest)] at h
        split at h
        · cases h
        · rename_i hlen
          have hlen := Nat.not_lt.1 hlen
          cases hg : fs.get? (child d part) with
          | none => simp [hg] at h
          | some node =>
            cases node with
            | directory mode =>
              simp only [hg] at h
              have hdir : fs.IsDir (child d part) := ⟨mode, hg⟩
              have hl : ¬ fs.IsLink (child d part) := fun hl => not_isDir_of_isLink hl hdir
              obtain ⟨n, d', hn, hr, hw⟩ := ih h
              exact ⟨n, d', hn, .step hname ⟨hlen, .inl hdir⟩ hl hr, hw⟩
            | link target =>
              simp only [hg] at h
              cases links with
              | zero => cases h
              | succ k =>
                simp only [← List.append_assoc] at h
                obtain ⟨n, d', hn, hr, hw⟩ := ihl k (by omega) h
                refine ⟨n + 1, d', by omega, .link hname ⟨hlen, .inr ⟨target, hg⟩⟩ hg (follows_splitOn.1 hr), ?_⟩
                rwa [Nat.add_sub_add_right]
            | file number mode content => simp [hg] at h
            | special number mode => simp [hg] at h

/-! ## Directories -/

/-- A closing slash makes no difference to a path that leads to a directory. -/
theorem walk_slash : fs.walk .target links d (a ++ [[]]) = .ok (.taken l (.directory mode)) ↔
    fs.walk .target links d a = .ok (.taken l (.directory mode)) := by
  induction links using Nat.strongRecOn generalizing d a with
  | ind links ihl =>
    induction a generalizing d with
    | nil => rw [List.nil_append, walk_skip (by decide)]
    | cons part rest ih =>
      have hc : Continues .target (rest ++ [[]]) := ⟨by simp, by simp⟩
      rcases part_cases part with hp | rfl | hname
      · rw [List.cons_append, walk_skip hp, walk_skip hp, ih]
      · rw [List.cons_append, walk_up, walk_up, ih]
      · rw [List.cons_append, walk_name hname hc]
        by_cases hr : rest = []
        · subst hr
          rw [walk_last hname]
          split
          · rfl
          · cases hg : fs.get? (child d part) with
            | none => simp
            | some node =>
              cases node with
              | directory mode => simp [walk, hg]
              | link target =>
                cases links with
                | zero => simp
                | succ k => simpa using ihl k (by omega)
              | file number mode content => simp
              | special number mode => simp
        · rw [walk_name hname ⟨hr, by simp⟩]
          split
          · rfl
          · cases hg : fs.get? (child d part) with
            | none => simp
            | some node =>
              cases node with
              | directory mode => simpa using ih
              | link target =>
                cases links with
                | zero => simp
                | succ k => simpa [List.append_assoc] using ihl k (by omega) (a := Text.splitOn '/' target ++ rest)
              | file number mode content => simp
              | special number mode => simp

theorem walk_directory_iff : fs.walk .target links d parts = .ok (.taken l (.directory mode)) ↔
    ∃ n, n ≤ links ∧ fs.Reaches n d parts l ∧ (fs.get? l).getD (.directory 0o755) = .directory mode := by
  have hc : Continues .target [([] : Text)] := ⟨by simp, by simp⟩
  have hend (k : Nat) (d : Location) :
      fs.walk .target k d [[]] = .ok (.taken d ((fs.get? d).getD (.directory 0o755))) := by
    rw [walk_skip (by decide), walk]
  rw [← walk_slash]
  constructor
  · intro h
    obtain ⟨n, d', hn, hr, hw⟩ := walk_append_ok hc h
    rw [hend] at hw
    simp only [Except.ok.injEq, Place.taken.injEq] at hw
    obtain ⟨rfl, hm⟩ := hw
    exact ⟨n, hn, hr, hm⟩
  · rintro ⟨n, hn, hr, hm⟩
    rw [walk_append_of_reaches hc hr hn, hend, hm]

/-! ## Any result -/

/-- Where a path leads depends on nothing but links, whatever the path is wanted for. -/
theorem walk_leads (hp : purpose ≠ .entry) (h : fs.walk purpose links d parts = .ok p) :
    ∃ n, n ≤ links ∧ fs.Leads n d parts p.location := by
  induction links using Nat.strongRecOn generalizing d parts with
  | ind links ihl =>
    induction parts generalizing d with
    | nil =>
      simp only [walk, Except.ok.injEq] at h
      subst h
      exact ⟨0, Nat.zero_le _, .nil d⟩
    | cons part rest ih =>
      rcases part_cases part with hpart | rfl | hname
      · rw [walk_skip hpart] at h
        obtain ⟨n, hn, hl⟩ := ih h
        exact ⟨n, hn, .skip hpart hl⟩
      · rw [walk_up] at h
        obtain ⟨n, hn, hl⟩ := ih h
        exact ⟨n, hn, .up rfl hl⟩
      · by_cases hr : rest = []
        · subst hr
          rw [walk_last hname] at h
          split at h
          · cases h
          · rename_i hlen
            have hlen := Nat.not_lt.1 hlen
            cases hg : fs.get? (child d part) with
            | none =>
              simp only [hg, Except.ok.injEq] at h
              subst h
              exact ⟨0, Nat.zero_le _, .step hname hlen (by simp [IsLink, hg]) (.nil _)⟩
            | some node =>
              cases node with
              | link target =>
                simp only [hg] at h
                cases links with
                | zero => cases h
                | succ k =>
                  obtain ⟨n, hn, hl⟩ := ihl k (by omega) h
                  refine ⟨n + 1, by omega, .link hname hlen hg (follows_splitOn.1 ?_)⟩
                  rwa [List.append_nil]
              | directory mode | file number mode content | special number mode =>
                simp only [hg, Except.ok.injEq] at h
                subst h
                exact ⟨0, Nat.zero_le _, .step hname hlen (by simp [IsLink, hg]) (.nil _)⟩
        · by_cases hc : Continues purpose rest
          · rw [walk_name hname hc] at h
            split at h
            · cases h
            · rename_i hlen
              have hlen := Nat.not_lt.1 hlen
              cases hg : fs.get? (child d part) with
              | none => simp [hg] at h
              | some node =>
                cases node with
                | directory mode =>
                  simp only [hg] at h
                  obtain ⟨n, hn, hl⟩ := ih h
                  exact ⟨n, hn, .step hname hlen (by simp [IsLink, hg]) hl⟩
                | link target =>
                  simp only [hg] at h
                  cases links with
                  | zero => cases h
                  | succ k =>
                    obtain ⟨n, hn, hl⟩ := ihl k (by omega) h
                    exact ⟨n + 1, by omega, .link hname hlen hg (follows_splitOn.1 hl)⟩
                | file number mode content => simp [hg] at h
                | special number mode => simp [hg] at h
          · have hslash : purpose = .creation ∧ !rest.isEmpty ∧ rest.all (·.isEmpty) := by
              simp only [Continues, not_and_or, ne_eq, hr, not_false_eq_true, not_true_eq_false, false_or,
                Classical.not_imp, Bool.not_eq_false] at hc
              exact ⟨hc.1, by simpa using hr, hc.2⟩
            rw [walk, if_neg hname.ne, if_neg hname.2, if_pos hslash] at h
            cases h

/-- Where a path leads if a link at its end may stay what it is. -/
theorem walk_entry (h : fs.walk purpose links d parts = .ok p) : ∃ n, fs.Leads n d parts p.location ∨
    ∃ above last e, parts = above ++ [last] ∧ IsName last ∧ fs.Leads n d above e ∧ p.location = child e last := by
  have hmore {part : Text} {d e : Location} {rest : List Text} (hcons : ∀ n above l, fs.Leads n d above l →
      ∃ n', fs.Leads n' e (part :: above) l)
      (h : ∃ n, fs.Leads n d rest p.location ∨ ∃ above last e, rest = above ++ [last] ∧ IsName last ∧
        fs.Leads n d above e ∧ p.location = child e last) :
      ∃ n, fs.Leads n e (part :: rest) p.location ∨ ∃ above last e', part :: rest = above ++ [last] ∧ IsName last ∧
        fs.Leads n e above e' ∧ p.location = child e' last := by
    obtain ⟨n, hl | ⟨above, last, e', rfl, hlast, hl, he⟩⟩ := h
    · obtain ⟨n', hl⟩ := hcons n _ _ hl
      exact ⟨n', .inl hl⟩
    · obtain ⟨n', hl⟩ := hcons n _ _ hl
      exact ⟨n', .inr ⟨part :: above, last, e', rfl, hlast, hl, he⟩⟩
  have hend {part : Text} {d : Location} {rest : List Text} (hskip : ¬ (part.isEmpty ∨ part = "."))
      (hup : ¬ part = "..") (hrest : rest.isEmpty = true) (hloc : p.location = child d part) :
      ∃ n, fs.Leads n d (part :: rest) p.location ∨ ∃ above last e, part :: rest = above ++ [last] ∧ IsName last ∧
        fs.Leads n d above e ∧ p.location = child e last := by
    rw [List.isEmpty_iff.1 hrest]
    rw [← not_isPart_iff, Bool.not_eq_false] at hskip
    exact ⟨0, .inr ⟨[], part, d, rfl, ⟨hskip, hup⟩, .nil d, hloc⟩⟩
  by_cases hentry : purpose ≠ .entry
  · obtain ⟨n, -, hl⟩ := walk_leads hentry h
    exact ⟨n, .inl hl⟩
  rw [not_not] at hentry
  fun_induction walk fs purpose links d parts with
  | case1 links d =>
    cases h
    exact ⟨0, .inl (.nil d)⟩
  | case2 links d part rest hskip ih =>
    exact hmore (fun n _ _ hl => ⟨n, .skip (not_isPart_iff.2 hskip) hl⟩) (ih h)
  | case3 links d rest _ ih => exact hmore (fun n _ _ hl => ⟨n, .up rfl hl⟩) (ih h)
  | case4 => cases h
  | case5 => cases h
  | case6 links d part rest hskip hup _ _ name location hg hrest =>
    cases h
    exact hend hskip hup hrest rfl
  | case7 => cases h
  | case8 links d part rest hskip hup _ _ name location mode hg hrest =>
    cases h
    exact hend hskip hup hrest rfl
  | case9 links d part rest hskip hup _ hlen name location mode hg _ ih =>
    rw [← not_isPart_iff, Bool.not_eq_false] at hskip
    refine hmore (fun n _ _ hl => ⟨n, .step ⟨hskip, hup⟩ (Nat.not_lt.1 hlen) ?_ hl⟩) (ih h)
    have hg : fs.get? (child d part) = some (.directory mode) := hg
    simp [IsLink, hg]
  | case10 links d part rest hskip hup _ _ name location target hg hrest =>
    cases h
    exact hend hskip hup hrest.1 rfl
  | case11 => cases h
  | case12 d part rest hskip hup _ hlen name location target hg hrest links ih =>
    rw [← not_isPart_iff, Bool.not_eq_false] at hskip
    have hname : IsName part := ⟨hskip, hup⟩
    have hlen := Nat.not_lt.1 hlen
    obtain ⟨n, hl | ⟨above, last, e, hparts, hlast, hl, he⟩⟩ := ih h
    · exact ⟨n + 1, .inl (.link hname hlen hg (follows_splitOn.1 hl))⟩
    · rcases List.eq_nil_or_concat rest with rfl | ⟨init, x, rfl⟩
      · exact absurd ⟨rfl, hentry⟩ hrest
      · rw [List.concat_eq_append, ← List.append_assoc] at hparts
        rw [List.concat_eq_append]
        obtain ⟨rfl, hx⟩ := List.append_inj' hparts rfl
        cases hx
        exact ⟨n + 1, .inr ⟨part :: init, last, e, rfl, hlast, .link hname hlen hg (follows_splitOn.1 hl), he⟩⟩
  | case13 links d part rest hskip hup _ _ name location node _ _ hg hrest =>
    cases h
    exact hend hskip hup hrest rfl
  | case14 => cases h

/-- Everything lies in a directory. -/
def Rooted (fs : FileSystem) : Prop := ∀ l, fs.get? l ≠ none → fs.IsDir l.dropLast

theorem isDir_nil : fs.IsDir [] := ⟨0o755, get?_nil⟩

theorem IsDir.dropLast (hroot : fs.Rooted) (h : fs.IsDir d) : fs.IsDir d.dropLast := by
  obtain ⟨mode, hm⟩ := h
  exact hroot d (by simp [hm])

theorem isDir_linkStart {target : Text} (h : fs.IsDir d) : fs.IsDir (linkStart d target) := by
  unfold linkStart
  split
  · exact isDir_nil
  · exact h

theorem Follows.isDir (hroot : fs.Rooted) (hd : fs.IsDir d) (h : fs.Reaches n d parts l) : fs.IsDir l := by
  induction h with
  | nil d => exact hd
  | skip _ _ ih => exact ih hd
  | up _ _ ih => exact ih (hd.dropLast hroot)
  | step _ ho hl _ ih => exact ih (ho.isDir hl)
  | link _ _ _ _ ih => exact ih (isDir_linkStart hd)

/-- Nothing is at the location or beneath it. -/
def Vacant (fs : FileSystem) (l : Location) : Prop := ∀ l', l <+: l' → fs.get? l' = none

theorem vacant_of_none (hroot : fs.Rooted) (h : fs.get? l = none) : fs.Vacant l := by
  rintro l' ⟨more, rfl⟩
  induction more using List.reverseRecOn with
  | nil => simpa using h
  | append_singleton more name ih =>
    by_contra hne
    obtain ⟨mode, hm⟩ := hroot _ hne
    rw [← List.append_assoc, List.dropLast_concat, ih] at hm
    cases hm

/-- Whatever has something beneath it is a directory. -/
theorem Rooted.isDir_of_below (hroot : fs.Rooted) (hp : d <+: l) (hne : l ≠ d) (h : fs.get? l ≠ none) : fs.IsDir d := by
  obtain ⟨more, rfl⟩ := hp
  induction more using List.reverseRecOn with
  | nil => simp at hne
  | append_singleton more name ih =>
    have hdir := hroot _ h
    rw [← List.append_assoc, List.dropLast_concat] at hdir
    by_cases hmore : more = []
    · simpa [hmore] using hdir
    · obtain ⟨mode, hm⟩ := hdir
      exact ih (by simpa using hmore) (by simp [hm])

/-- What a walk says of its result: what stands there, or that a directory has the name free. -/
def Holds (fs : FileSystem) : Place → Prop
  | .taken l node => fs.get? l = some node
  | .free d name => fs.IsDir d ∧ fs.get? (d ++ [name]) = none

theorem walk_holds (hroot : fs.Rooted) (hd : fs.IsDir d) (h : fs.walk purpose links d parts = .ok p) :
    fs.Holds p := by
  fun_induction walk fs purpose links d parts with
  | case1 links d =>
    obtain ⟨mode, hm⟩ := hd
    cases h
    simp [Holds, hm]
  | case2 links d part rest _ ih => exact ih hd h
  | case3 links d rest _ ih => exact ih (hd.dropLast hroot) h
  | case4 => cases h
  | case5 => cases h
  | case6 links d part rest _ _ _ _ name location hg _ =>
    cases h
    exact ⟨hd, hg⟩
  | case7 => cases h
  | case8 links d part rest _ _ _ _ name location mode hg _ =>
    cases h
    exact hg
  | case9 links d part rest _ _ _ _ name location mode hg _ ih => exact ih ⟨mode, hg⟩ h
  | case10 links d part rest _ _ _ _ name location target hg _ =>
    cases h
    exact hg
  | case11 => cases h
  | case12 d part rest _ _ _ _ name location target hg _ links ih => exact ih (isDir_linkStart hd) h
  | case13 links d part rest _ _ _ _ name location node _ _ hg _ =>
    cases h
    exact hg
  | case14 => cases h

/-- Nothing stands under a free name. -/
theorem walk_vacant {name : Name} {e : Location} (h : fs.walk purpose links d parts = .ok (.free e name)) :
    fs.get? (e ++ [name]) = none := by
  fun_induction walk fs purpose links d parts with
  | case2 links d part rest _ ih => exact ih h
  | case3 links d rest _ ih => exact ih h
  | case6 links d part rest _ _ _ _ last location hg _ =>
    obtain ⟨rfl, rfl⟩ := Place.free.inj (Except.ok.inj h)
    exact hg
  | case9 links d part rest _ _ _ _ name location mode hg _ ih => exact ih h
  | case12 d part rest _ _ _ _ name location target hg _ links ih => exact ih h
  | _ => cases h

/-- A free name is one that can be given. -/
theorem walk_free {name : Name} {e : Location} (hslash : ∀ part ∈ parts, CodePoint.char '/' ∉ part)
    (h : fs.walk purpose links d parts = .ok (.free e name)) : Nameable (e ++ [name]) := by
  fun_induction walk fs purpose links d parts with
  | case1 => cases h
  | case2 links d part rest _ ih => exact ih (fun p hp => hslash p (by simp [hp])) h
  | case3 links d rest _ ih => exact ih (fun p hp => hslash p (by simp [hp])) h
  | case4 => cases h
  | case5 => cases h
  | case6 links d part rest hskip hup _ hlen last location hg _ =>
    rw [← not_isPart_iff, Bool.not_eq_false] at hskip
    obtain ⟨rfl, rfl⟩ := Place.free.inj (Except.ok.inj h)
    exact ⟨d, part, rfl, ⟨hskip, hup⟩, hslash part (by simp), Nat.not_lt.1 hlen⟩
  | case7 => cases h
  | case8 => cases h
  | case9 links d part rest _ _ _ _ name location mode hg _ ih => exact ih (fun p hp => hslash p (by simp [hp])) h
  | case10 => cases h
  | case11 => cases h
  | case12 d part rest _ _ _ _ name location target hg _ links ih =>
    refine ih (fun p hp => ?_) h
    rcases List.mem_append.1 hp with hp | hp
    · exact Text.not_mem_of_mem_splitOn hp
    · exact hslash p (by simp [hp])
  | case13 => cases h
  | case14 => cases h

end Prebuilt.FileSystem
