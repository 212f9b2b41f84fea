import Prebuilt.Proofs.Files.Sealed
/-!
Paths that lead beneath the roots, and requests about them. Where a path leads depends on links, so what counts is that a
path stays inward whatever links work beneath the roots may leave there.
-/
set_option autoImplicit false

namespace Prebuilt.FileSystem

variable {links : Links} {fs fs' base : FileSystem} {roots : List Location} {d l l' r : Location} {path next : Text}
  {a b parts : List Text} {m n mode : Nat}

/-! ## Inward paths -/

/-- Whatever on the way is not beneath the roots is there. -/
def Founded (fs : FileSystem) (roots : List Location) (path : Text) : Prop :=
  ∀ front l n, front <+: Path.names path → fs.Leads n (fs.origin path) front l → Beneath roots l ∨ fs.get? l ≠ none

/-- A path that leads beneath the roots; the directories on the way are there or beneath the roots too. -/
structure Inward (roots : List Location) (fs : FileSystem) (path : Text) : Prop where
  itself : ∀ l, fs.Denotes path l → Beneath roots l
  above : fs.Founded roots path

/-- The name that a path ends in lies in a directory beneath the roots. -/
def Inside (roots : List Location) (fs : FileSystem) (path : Text) : Prop :=
  ∀ above last n d, Text.splitOn '/' path = above ++ [last] → IsName last → fs.Leads n (fs.origin path) above d →
    Beneath roots d

theorem origin_eq_of_sealed (h : Sealed links roots base fs) (path : Text) : fs.origin path = base.origin path := by
  rw [origin, h.cwd, origin]

theorem SameLinks.symm (h : fs.SameLinks fs') : fs'.SameLinks fs := fun l target => (h l target).symm

theorem Founded.of_front (h : fs.Founded roots path) (hfront : Path.names next <+: Path.names path)
    (horigin : fs.origin next = fs.origin path) : fs.Founded roots next := fun front l n hf hl =>
  h front l n (hf.trans hfront) (horigin ▸ hl)

theorem Founded.denotes {l : Location} (h : fs.Founded roots path) (hl : fs.Denotes path l) :
    Beneath roots l ∨ fs.get? l ≠ none := by
  obtain ⟨n, hl⟩ := hl
  exact h _ l n List.prefix_rfl hl

theorem inside_of_names (h : ∀ above last n d, Path.names path = above ++ [last] → fs.Leads n (fs.origin path) above d →
    Beneath roots d) : Inside roots fs path := by
  intro above last n d hs hlast hl
  refine h (above.filter FilePath.isPart) last n d ?_ (follows_filter.2 hl)
  rw [Path.names, hs, List.filter_append, List.filter_cons_of_pos hlast.1]
  rfl

/-- Components and the place where they start are all that matters. -/
theorem Inward.congr (h : Inward roots fs path) (hnames : Path.names next = Path.names path)
    (habs : Path.isAbsolute next = Path.isAbsolute path) : Inward roots fs next := by
  have horigin : fs.origin next = fs.origin path := by rw [origin, origin, habs]
  refine ⟨?_, h.above.of_front (by rw [hnames]) horigin⟩
  rintro l ⟨n, hl⟩
  rw [horigin, hnames] at hl
  exact h.itself l ⟨n, hl⟩

/-- Everything is beneath the topmost location. -/
theorem beneath_of_nil (h : Beneath roots []) (l : Location) : Beneath roots l := by
  obtain ⟨r, hr, hp⟩ := h
  exact ⟨r, hr, by rw [List.prefix_nil.1 hp]; exact List.nil_prefix⟩

theorem Inward.dropEndSlashes (h : Inward roots fs path) : Inward roots fs (Path.dropEndSlashes path) := by
  by_cases hp : path = []
  · subst hp
    exact h
  · by_cases he : Path.dropEndSlashes path = []
    · obtain ⟨slashes, hall, heq⟩ := Path.dropEndSlashes_append path
      rw [he, List.nil_append] at heq
      have hnames : Path.names path = [] := Path.names_eq_nil_of_all_slash (heq ▸ hall)
      have habs : Path.isAbsolute path = true := by
        cases path with
        | nil => exact absurd rfl hp
        | cons c rest =>
          rw [← heq] at hall
          have hc := (Bool.and_eq_true _ _ ▸ hall).1
          simpa [Path.isAbsolute, Path.isSlash] using hc
      have hnil : Beneath roots [] := h.itself [] ⟨0, by
        rw [hnames, origin, if_pos habs]
        exact .nil []⟩
      exact ⟨fun l _ => beneath_of_nil hnil l, fun _ l _ _ _ => .inl (beneath_of_nil hnil l)⟩
    · exact h.congr (Path.names_dropEndSlashes path) (Path.isAbsolute_of_isPrefix (Path.prefix_dropEndSlashes path) he)

/-- Where the directory at a path is and what it is seen as. -/
theorem status_directory (h : fs.status path true = .ok (l, .directory mode)) :
    ∃ n, n ≤ linkLimit ∧ fs.start path = .ok (fs.origin path) ∧ fs.Reaches n (fs.origin path) (Path.names path) l := by
  simp only [status, if_true, place, bind, Except.bind] at h
  split at h
  · cases h
  · rename_i p hw
    split at hw
    · cases hw
    · rename_i d hd
      obtain ⟨rfl, -⟩ := start_ok hd
      cases h
      obtain ⟨n, hn, hr, -⟩ := walk_directory_iff.1 hw
      exact ⟨n, hn, hd, follows_names.1 hr⟩
  · cases h

theorem status_of_reaches (hstart : fs.start path = .ok (fs.origin path)) (hn : n ≤ linkLimit)
    (hreach : fs.Reaches n (fs.origin path) (Path.names path) l) (hdir : fs.get? l = some (.directory mode)) :
    fs.status path true = .ok (l, .directory mode) := by
  have hw := walk_directory_iff.2 ⟨n, hn, follows_names.2 hreach, by rw [hdir, Option.getD_some]⟩
  simp only [status, if_true, place, hstart, bind, Except.bind, hw]

theorem extends_put {s : Location} {node : Node} (hne : s ≠ []) (hnone : fs.get? s = none) : fs.Extends (fs.put s node) := by
  have hget {l : Location} {other : Node} (h : fs.get? l = some other) : (fs.put s node).get? l = some other := by
    rw [get?_put hne, if_neg, h]
    rintro rfl
    rw [hnone] at h
    cases h
  exact ⟨fun l ⟨mode, hm⟩ => ⟨mode, hget hm⟩, fun l target h => hget h, fun _ => rfl⟩

theorem sameLinks_put {s : Location} {mode : Nat} (hne : s ≠ []) (hnone : fs.get? s = none) :
    fs.SameLinks (fs.put s (.directory mode)) := by
  intro l target
  rw [get?_put hne]
  split
  · rename_i hl
    rw [hl, hnone]
    simp
  · rfl

/-- A directory that was made is where its path leads. -/
theorem status_makeDirectory (hroot : fs.Rooted) (h : fs.makeDirectory path mode = .ok fs') :
    ∃ l mode', fs'.status path true = .ok (l, .directory mode') := by
  obtain ⟨l, mode', hl, rfl⟩ := makeDirectory_ok h
  obtain ⟨found, name, hfound, hname, hlen, rfl, hnone⟩ := newEntry_ok hl
  obtain ⟨n, hn, hstart, hr, hdir, -, hlast⟩ := lastName_ok hroot hfound
  obtain ⟨hisname, hget⟩ := hlast name hname
  have hext : fs.Extends (fs.put (child found.directory name) (.directory mode')) := extends_put child_ne_nil hnone
  have hthere : (fs.put (child found.directory name) (.directory mode')).get? (child found.directory name) =
      some (.directory mode') := by rw [get?_put child_ne_nil, if_pos rfl]
  obtain ⟨hstart', horigin⟩ := hext.start hstart
  rw [← horigin] at hr hstart'
  have hstep : (fs.put (child found.directory name) (.directory mode')).Reaches 0 found.directory [name]
      (child found.directory name) :=
    .step hisname ⟨hlen, .inl ⟨_, hthere⟩⟩ (by simp [IsLink, hthere]) (.nil _)
  have hall := (hr.of_extends hext).append hstep
  rw [List.dropLast_append_getLast? name hget] at hall
  exact ⟨_, mode', status_of_reaches hstart' hn (by simpa using follows_names.1 hall) hthere⟩

theorem Follows.isDir_of_front (hroot : fs.Rooted) (hd : fs.IsDir d) (h : fs.Reaches n d parts l) (hfront : a <+: parts)
    (ha : fs.Leads m d a l') : fs.IsDir l' := by
  obtain ⟨rest, rfl⟩ := hfront
  obtain ⟨d', n₁, n₂, h₁, -, -⟩ := h.split
  rw [(ha.deterministic h₁).2]
  exact h₁.isDir hroot hd

/-- Targets of links that lead down from where the link is. -/
def Inner (links : Links) : Prop := ∀ target, links.symbolic target → Path.isAbsolute target = false ∧ Path.Downward target

/-- Beneath the roots names lead down, and so do links. -/
theorem Sealed.beneath {pass : Location → Text → Prop} (hinner : Inner links) (h : Sealed links roots base fs)
    (hl : fs.Follows pass n d parts l) (hd : Beneath roots d) (hdown : ∀ part ∈ parts, part ≠ "..") : Beneath roots l := by
  induction hl with
  | nil d => exact hd
  | skip _ _ ih => exact ih hd fun part hp => hdown part (by simp [hp])
  | up hu _ _ => exact absurd hu (hdown _ (by simp))
  | step _ _ _ _ ih => exact ih (hd.append _) fun part hp => hdown part (by simp [hp])
  | link _ _ ht _ ih =>
    obtain ⟨hrel, htarget⟩ := hinner _ (h.linked (hd.append _) ht)
    refine ih (by rwa [linkStart, if_neg (by simp [hrel])]) fun part hp => ?_
    rcases List.mem_append.1 hp with hp | hp
    · exact htarget part hp
    · exact hdown part (by simp [hp])

theorem Sealed.reaches (hbase : Barren roots base) (h : Sealed links roots base fs) (hr : r ∈ roots)
    (htarget : base.status path true = .ok (r, .directory mode)) :
    ∃ n, fs.IsDir (fs.origin path) ∧ fs.Reaches n (fs.origin path) (Path.names path) r ∧ Beneath roots r := by
  obtain ⟨n, -, hstart, hreach⟩ := status_directory htarget
  have hdir := h.dirs _ (start_ok hstart).2
  rw [origin_eq_of_sealed h path]
  exact ⟨n, hdir, hreach.of_extends (h.extends hbase), r, hr, List.prefix_rfl⟩

/-- A path that leads inward whatever work beneath the roots has left there. -/
def StaysInward (links : Links) (roots : List Location) (base : FileSystem) (path : Text) : Prop :=
  ∀ fs, Sealed links roots base fs → Inward roots fs path

def StaysFounded (links : Links) (roots : List Location) (base : FileSystem) (path : Text) : Prop :=
  ∀ fs, Sealed links roots base fs → fs.Founded roots path

def StaysInside (links : Links) (roots : List Location) (base : FileSystem) (path : Text) : Prop :=
  ∀ fs, Sealed links roots base fs → Inside roots fs path

theorem StaysInward.founded (h : StaysInward links roots base path) : StaysFounded links roots base path :=
  fun fs hfs => (h fs hfs).above

theorem StaysInward.dropEndSlashes (h : StaysInward links roots base path) :
    StaysInward links roots base (Path.dropEndSlashes path) := fun fs hfs => (h fs hfs).dropEndSlashes

theorem StaysFounded.parent (h : StaysFounded links roots base path) (hne : Path.parent path ≠ []) :
    StaysFounded links roots base (Path.parent path) := by
  intro fs hfs
  refine (h fs hfs).of_front ?_ ?_
  · rw [Path.names_eq_parent_base path]
    exact List.prefix_append _ _
  · rw [origin, origin, Path.isAbsolute_of_isPrefix (Path.prefix_parent path) hne]

theorem origin_joined (hrel : Path.isAbsolute next = false) (hne : path ≠ []) :
    fs.origin (Path.join path next) = fs.origin path := by
  rw [origin, origin, Path.isAbsolute_join hrel hne]

/-- Names beneath a root that is reached lead inward. -/
theorem staysInward_join (hinner : Inner links) (hbase : Barren roots base) (hr : r ∈ roots)
    (htarget : base.status path true = .ok (r, .directory mode)) (hne : path ≠ [])
    (hrel : Path.isAbsolute next = false) (hnames : Path.Downward next) :
    StaysInward links roots base (Path.join path next) := by
  intro fs hfs
  obtain ⟨n, hdir, hreach, hin⟩ := hfs.reaches hbase hr htarget
  have hdown {front : List Text} {l : Location} {k : Nat} (hfront : front <+: Path.names next)
      (hl : fs.Leads k (fs.origin path) (Path.names path ++ front) l) : Beneath roots l := by
    obtain ⟨d', n₁, n₂, h₁, h₂, -⟩ := hl.split
    obtain rfl : d' = r := (h₁.deterministic hreach).2
    exact hfs.beneath hinner h₂ hin fun part hp => hnames part (hfront.subset hp)
  constructor
  · rintro l ⟨k, hl⟩
    rw [origin_joined hrel hne, Path.names_join hrel] at hl
    exact hdown List.prefix_rfl hl
  · intro front l k hfront hl
    rw [origin_joined hrel hne] at hl
    rw [Path.names_join hrel] at hfront
    rcases List.prefix_or_prefix_of_prefix hfront (List.prefix_append (Path.names path) (Path.names next)) with h | h
    · obtain ⟨mode, hm⟩ := hreach.isDir_of_front hfs.rooted hdir h hl
      exact .inr (by simp [hm])
    · obtain ⟨rest, rfl⟩ := h
      exact .inl (hdown ((List.prefix_append_right_inj _).1 hfront) hl)

/-- The same where the way is there, or the root is; no links may be made then. -/
theorem staysInward_join_of_founded (hnone : ∀ target, ¬ links.symbolic target) (hbase : Barren roots base)
    (hfounded : base.Founded roots path) (hroot : ∀ r, base.Denotes path r → Beneath roots r) (hne : path ≠ [])
    (hrel : Path.isAbsolute next = false) (hnames : Path.Downward next) :
    StaysInward links roots base (Path.join path next) := by
  intro fs hfs
  have hlinks := (hfs.sameLinks hnone hbase).symm
  have hdown {front : List Text} {l : Location} {k : Nat} (hfront : front <+: Path.names next)
      (hl : fs.Leads k (fs.origin path) (Path.names path ++ front) l) : Beneath roots l := by
    obtain ⟨r, n₁, n₂, h₁, h₂, -⟩ := hl.split
    have hr : base.Denotes path r := Denotes.of_sameLinks hlinks hfs.cwd.symm ⟨n₁, h₁⟩
    exact hfs.beneath (fun t ht => absurd ht (hnone t)) h₂ (hroot r hr) fun part hp => hnames part (hfront.subset hp)
  constructor
  · rintro l ⟨k, hl⟩
    rw [origin_joined hrel hne, Path.names_join hrel] at hl
    exact hdown List.prefix_rfl hl
  · intro front l k hfront hl
    rw [origin_joined hrel hne] at hl
    rw [Path.names_join hrel] at hfront
    rcases List.prefix_or_prefix_of_prefix hfront (List.prefix_append (Path.names path) (Path.names next)) with h | h
    · by_cases hb : Beneath roots l
      · exact .inl hb
      · rw [hfs.outside l hb]
        rw [origin_eq_of_sealed hfs path] at hl
        exact hfounded front l k h (hl.of_sameLinks hlinks)
    · obtain ⟨rest, rfl⟩ := h
      exact .inl (hdown ((List.prefix_append_right_inj _).1 hfront) hl)

/-- The last of such names lies in a directory beneath the root. -/
theorem Sealed.beneath_above (hinner : Inner links) (hbase : Barren roots base) (hfs : Sealed links roots base fs) (hr : r ∈ roots)
    (htarget : base.status path true = .ok (r, .directory mode)) {above : List Text} {k : Nat} (hdown : ∀ part ∈ above, part ≠ "..")
    (hl : fs.Leads k (fs.origin path) (Path.names path ++ above) d) : Beneath roots d := by
  obtain ⟨n, -, hreach, hin⟩ := hfs.reaches hbase hr htarget
  obtain ⟨d', n₁, n₂, h₁, h₂, -⟩ := hl.split
  obtain rfl : d' = r := (h₁.deterministic hreach).2
  exact hfs.beneath hinner h₂ hin hdown

theorem staysInside_join (hinner : Inner links) (hbase : Barren roots base) (hr : r ∈ roots)
    (htarget : base.status path true = .ok (r, .directory mode)) (hne : path ≠ [])
    (hrel : Path.isAbsolute next = false) (hnames : Path.Downward next) :
    StaysInside links roots base (Path.join path next) := by
  intro fs hfs above last n d hs hlast hl
  obtain ⟨a, ha⟩ := Path.join_eq hrel hne
  have hnamesA : Path.names a = Path.names path := by
    have h : Path.names (Path.join path next) = Path.names path ++ Path.names next := Path.names_join hrel
    rw [ha, Path.names_append_slash] at h
    exact List.append_cancel_right h
  rw [ha, Text.splitOn_append_cons] at hs
  obtain ⟨init, final, hsplit⟩ : ∃ init final, Text.splitOn '/' next = init ++ [final] :=
    ⟨_, _, (List.dropLast_append_getLast (Text.splitOn_ne_nil '/' next)).symm⟩
  rw [hsplit, ← List.append_assoc] at hs
  obtain ⟨rfl, -⟩ := List.append_inj' hs rfl
  rw [origin_joined hrel hne] at hl
  have hdown : ∀ part ∈ init, part ≠ ".." := by
    rintro part hp rfl
    exact hnames ".." (List.mem_filter.2 ⟨hsplit ▸ List.mem_append_left _ hp, isPart_dots⟩) rfl
  have hall : fs.Leads n (fs.origin path) (Path.names path ++ init) d := by
    rw [← hnamesA, Path.names]
    obtain ⟨d', n₁, n₂, h₁, h₂, rfl⟩ := hl.split
    exact (follows_filter.2 h₁).append h₂
  exact hfs.beneath_above hinner hbase hr htarget hdown hall

/-- The same for a path without its closing slashes, as long as there is a name. -/
theorem staysInside_dropEndSlashes (hinner : Inner links) (hbase : Barren roots base) (hr : r ∈ roots)
    (htarget : base.status path true = .ok (r, .directory mode)) (hne : path ≠ []) (hname : Path.names next ≠ [])
    (hrel : Path.isAbsolute next = false) (hnames : Path.Downward next) :
    StaysInside links roots base (Path.dropEndSlashes (Path.join path next)) := by
  intro fs hfs
  have hparts : Path.names (Path.dropEndSlashes (Path.join path next)) = Path.names path ++ Path.names next := by
    rw [Path.names_dropEndSlashes, Path.names_join hrel]
  refine inside_of_names fun above last n d hs hl => ?_
  rw [hparts] at hs
  have hne' : Path.dropEndSlashes (Path.join path next) ≠ [] := by
    intro h
    rw [h] at hparts
    exact hname (List.append_eq_nil_iff.1 hparts.symm).2
  rw [origin, Path.isAbsolute_of_isPrefix (Path.prefix_dropEndSlashes _) hne', ← origin, origin_joined hrel hne] at hl
  obtain ⟨init, final, hsplit⟩ : ∃ init final, Path.names next = init ++ [final] :=
    ⟨_, _, (List.dropLast_append_getLast hname).symm⟩
  rw [hsplit, ← List.append_assoc] at hs
  obtain ⟨rfl, -⟩ := List.append_inj' hs rfl
  exact hfs.beneath_above hinner hbase hr htarget (fun part hp => hnames part (by simp [hsplit, hp])) hl

/-- A root is a directory at its path all along. -/
theorem Sealed.status (hbase : Barren roots base) (h : Sealed links roots base fs)
    (htarget : base.status path true = .ok (r, .directory mode)) :
    ∃ mode', fs.status path true = .ok (r, .directory mode') := by
  obtain ⟨n, hn, hstart, hreach⟩ := status_directory htarget
  obtain ⟨-, hthere⟩ := status_ok hbase.rooted htarget
  obtain ⟨mode', hdir⟩ := h.dirs r ⟨mode, hthere⟩
  have hext := h.extends hbase
  obtain ⟨hstart', horigin⟩ := hext.start hstart
  rw [← horigin] at hstart' hreach
  exact ⟨mode', status_of_reaches hstart' hn (hreach.of_extends hext) hdir⟩

/-- As long as no links were made, the path led inward before. -/
theorem Inward.before (hnone : ∀ target, ¬ links.symbolic target) (hbase : Barren roots base) (h : Sealed links roots base fs)
    (hin : Inward roots fs path) :
    Inward roots base path where
  itself l hl := hin.itself l (hl.of_sameLinks (h.sameLinks hnone hbase) h.cwd)
  above front l n hfront hl := by
    rw [← origin_eq_of_sealed h path] at hl
    by_cases hb : Beneath roots l
    · exact .inl hb
    · rw [← h.outside l hb]
      exact hin.above front l n hfront (hl.of_sameLinks (h.sameLinks hnone hbase))

/-- Where no links may be made, paths lead where they did. -/
theorem staysInward_of_inward (hnone : ∀ target, ¬ links.symbolic target) (hbase : Barren roots base)
    (hin : Inward roots base path) : StaysInward links roots base path := by
  intro fs hfs
  have hlinks := (hfs.sameLinks hnone hbase).symm
  refine ⟨fun l hl => hin.itself l (hl.of_sameLinks hlinks hfs.cwd.symm), fun front l n hfront hl => ?_⟩
  rw [origin_eq_of_sealed hfs path] at hl
  by_cases hb : Beneath roots l
  · exact .inl hb
  · rw [hfs.outside l hb]
    exact hin.above front l n hfront (hl.of_sameLinks hlinks)

/-- Where no link leads up, components lead where they did or beneath the roots. -/
theorem Sealed.beneath_or (hinner : Inner links) (hdirs : ∀ r ∈ roots, base.IsDir r) (h : Sealed links roots base fs)
    (hlinks : base.LinksDownward) (hl : fs.Leads n d parts l) (hdown : ∀ part ∈ parts, part ≠ "..") :
    Beneath roots l ∨ base.Leads n d parts l := by
  induction hl with
  | nil d => exact .inr (.nil d)
  | skip hp _ ih => exact (ih fun part hm => hdown part (by simp [hm])).imp_right (.skip hp)
  | up hu _ _ => exact absurd hu (hdown _ (by simp))
  | step hp ho hlink hrest ih =>
    rename_i d l part rest
    have hrestDown : ∀ p ∈ rest, p ≠ ".." := fun p hm => hdown p (by simp [hm])
    by_cases hb : Beneath roots (child d part)
    · exact .inl (h.beneath hinner hrest hb hrestDown)
    · refine (ih hrestDown).imp_right (.step hp ho ?_)
      rwa [IsLink, ← h.outside _ hb]
  | link hp ho ht hrest ih =>
    rename_i d l part target rest
    have hrestDown : ∀ p ∈ rest, p ≠ ".." := fun p hm => hdown p (by simp [hm])
    by_cases hb : Beneath roots (child d part)
    · -- The link was made, so it does not stand at a root.
      obtain ⟨r, hr, hp'⟩ := hb
      have hd : Beneath roots d := by
        rcases List.prefix_concat_iff.1 hp' with he | hp'
        · exact absurd (h.dirs r (hdirs r hr)) (he ▸ not_isDir_of_isLink ⟨target, ht⟩)
        · exact ⟨r, hr, hp'⟩
      exact .inl (h.beneath hinner (.link hp ho ht hrest) hd hdown)
    · rw [h.outside _ hb] at ht
      refine (ih fun p hm => ?_).imp_right (.link hp ho ht)
      rcases List.mem_append.1 hm with hm | hm
      · exact hlinks _ _ ht p hm
      · exact hrestDown p hm

theorem staysInward_of_linksDownward (hinner : Inner links) (hdirs : ∀ r ∈ roots, base.IsDir r) (hlinks : base.LinksDownward)
    (hdown : Path.Downward path) (hin : Inward roots base path) : StaysInward links roots base path := by
  intro fs hfs
  have horigin := origin_eq_of_sealed hfs path
  constructor
  · rintro l ⟨n, hl⟩
    rw [horigin] at hl
    exact (hfs.beneath_or hinner hdirs hlinks hl hdown).elim id fun hl => hin.itself l ⟨n, hl⟩
  · intro front l n hfront hl
    rw [horigin] at hl
    by_cases hb : Beneath roots l
    · exact .inl hb
    · rw [hfs.outside l hb]
      refine hin.above front l n hfront ?_
      exact (hfs.beneath_or hinner hdirs hlinks hl fun part hp => hdown part (hfront.subset hp)).resolve_left hb

/-! ## Requests -/

theorem Sealed.makeDirectory (h : Sealed links roots base fs)
    (hin : ∀ l, fs.Denotes path l → Beneath roots l ∨ fs.get? l ≠ none) (hok : fs.makeDirectory path mode = .ok fs') :
    Sealed links roots base fs' := by
  obtain ⟨l, mode', hl, rfl⟩ := makeDirectory_ok hok
  obtain ⟨hden, hnone, hdir, hname⟩ := newEntry_denotes h.rooted hl
  exact h.addDirectory ((hin l hden).resolve_right (not_not.2 hnone)) hname hnone hdir

theorem Sealed.makeSpecial (h : Sealed links roots base fs) (hspecial : links.special)
    (hin : ∀ l, fs.Denotes path l → Beneath roots l) (hok : fs.makeSpecial path = .ok fs') : Sealed links roots base fs' := by
  obtain ⟨l, hl, rfl⟩ := makeSpecial_ok hok
  obtain ⟨hden, hnone, hdir, hname⟩ := newEntry_denotes h.rooted hl
  exact h.addSpecial (hin l hden) hname hnone hdir hspecial

theorem Sealed.truncate (hbase : Barren roots base) (h : Sealed links roots base fs) (hin : ∀ l, fs.Denotes path l → Beneath roots l)
    (hok : fs.truncate path = .ok fs') : Sealed links roots base fs' := by
  rcases truncate_ok hok with ⟨l, node, hp, -, rfl⟩ | ⟨directory, name, hp, rfl⟩
  · exact h.update hbase (hin _ (place_ok h.rooted (by decide) hp).1) (Node.mild_withContent [])
  · obtain ⟨hden, hdir, hnone⟩ := place_ok h.rooted (by decide) hp
    exact h.addFile (hin _ hden) (place_free hp) hnone (by simpa using hdir)

theorem Sealed.setMode (hbase : Barren roots base) (h : Sealed links roots base fs) (hin : ∀ l, fs.Denotes path l → Beneath roots l)
    (hok : fs.setMode path mode = .ok fs') : Sealed links roots base fs' := by
  obtain ⟨l, node, hfound, rfl⟩ := setMode_ok hok
  exact h.update hbase (hin _ (status_ok h.rooted hfound).1) (Node.mild_withMode _)

/-- What stands at an inward path lies beneath the roots, be it a link. -/
theorem status_beneath {followLast : Bool} {node : Node} (hroot : fs.Rooted) (hin : Inward roots fs path)
    (hinside : followLast = false → Inside roots fs path) (h : fs.status path followLast = .ok (l, node)) :
    Beneath roots l ∧ fs.get? l = some node := by
  cases followLast with
  | true =>
    obtain ⟨hden, hg⟩ := status_ok hroot h
    exact ⟨hin.itself l hden, hg⟩
  | false =>
    simp only [status, Bool.false_eq_true, if_false, place, bind, Except.bind] at h
    split at h
    · cases h
    · rename_i l' node' hp
      cases h
      split at hp
      · cases hp
      · rename_i d hd
        obtain ⟨rfl, hdir⟩ := start_ok hd
        refine ⟨?_, walk_holds hroot hdir hp⟩
        obtain ⟨n, hl | ⟨above, last, e, hs, hlast, hl, rfl⟩⟩ := walk_entry hp
        · exact hin.itself l ⟨n, follows_names.1 hl⟩
        · exact (hinside rfl above last n e hs hlast hl).append _
    · cases h

theorem Sealed.setOwner {followLast : Bool} (hbase : Barren roots base) (h : Sealed links roots base fs)
    (hin : Inward roots fs path) (hinside : followLast = false → Inside roots fs path)
    (hok : fs.setOwner path followLast = .ok fs') : Sealed links roots base fs' := by
  obtain ⟨l, node, hfound, rfl⟩ := setOwner_ok hok
  exact h.update hbase (status_beneath h.rooted hin hinside hfound).1 Node.mild_handedOver

theorem Sealed.makeLink {target : Text} (h : Sealed links roots base fs) (hin : ∀ l, fs.Denotes path l → Beneath roots l)
    (ht : links.symbolic target) (hok : fs.makeLink target path = .ok fs') : Sealed links roots base fs' := by
  obtain ⟨l, hl, rfl⟩ := makeLink_ok hok
  obtain ⟨hden, hnone, hdir, hname⟩ := newEntry_denotes h.rooted hl
  exact h.addLink (hin l hden) hname hnone hdir ht

/-- A second name for something beneath the roots. -/
theorem Sealed.addNameAt (h : Sealed links roots base fs) (hhard : links.hard) (hold : Inward roots fs next) (hinside : Inside roots fs next)
    (hin : ∀ l, fs.Denotes path l → Beneath roots l) (hok : fs.addName next path = .ok fs') : Sealed links roots base fs' := by
  obtain ⟨t, node, l, hfound, hl, rfl⟩ := addName_ok hok
  obtain ⟨hden, hnone, hdir, hname⟩ := newEntry_denotes h.rooted hl
  obtain ⟨ht, hg⟩ := status_beneath h.rooted hold (fun _ => hinside) hfound
  exact h.addName (hin l hden) hname hnone hdir hhard ht hg

theorem Sealed.unlink (h : Sealed links roots base fs) (hinside : Inside roots fs path)
    (hslash : Path.endsInSlash path = false) (hok : fs.unlink path = .ok fs') : Sealed links roots base fs' := by
  obtain ⟨found, name, hfound, hname, hdir, rfl⟩ := unlink_ok hok
  obtain ⟨n, -, -, hr, -, -, hlast⟩ := lastName_ok h.rooted hfound
  obtain ⟨hisname, hget⟩ := hlast name hname
  rw [dropEndSlashes_of_not_endsInSlash hslash] at hr hget
  have hin := hinside _ name n found.directory (List.dropLast_append_getLast? name hget).symm hisname hr.leads
  exact h.erase (hin.append _) child_ne_nil hdir

end Prebuilt.FileSystem
