import Mathlib.Data.List.Perm.Subperm
import Prebuilt.Files.Resolve
import Prebuilt.Proofs.Files.Entries
/-!
Resolved paths lead where the paths did. Resolving works on text: it can miss a link whose path is too long for the system,
and taking back a component with two dots is right only where the component is no link. So either all paths are absolute
and no link lies too deep, which is called strict here, or no link leads up.
-/
set_option autoImplicit false

namespace Prebuilt.FileSystem

variable {fs : FileSystem} {strict : Prop} {path next target : Text} {d d' e l : Location} {part part' : Text}
  {parts rest : List Text} {m n k c : Nat} {trail : LinkTrail} {pending : List Location}

/-- Nowhere does a link lie so deep that its path is longer than the system takes. -/
def Shallow (fs : FileSystem) : Prop :=
  ∀ parts : List Text, fs.IsLink (parts.map Name.canonical) → byteLength (FilePath.toText ⟨"/", parts⟩) < pathLimit

/-! ## Paths on the way -/

/-- The paths that resolving goes through, each with the location it leads to. -/
inductive Direct (fs : FileSystem) (strict : Prop) : Text → Location → Prop
  | here : ¬ strict → fs.IsDir fs.workingDirectory → Direct fs strict [] fs.workingDirectory
  | top : Direct fs strict "/" []
  | down {path part : Text} {d e : Location} {k : Nat} : Direct fs strict path d → IsName part →
      CodePoint.char '/' ∉ part → fs.Leads k d [part] e → (strict → ¬ fs.IsLink (child d part)) →
      Direct fs strict (Path.join path part) e

theorem Follows.single {pass : Location → Text → Prop} (hname : IsName part) (h : fs.Follows pass n d [part] l) :
    pass d part ∧ (l = child d part ∧ ¬ fs.IsLink (child d part) ∧ n = 0 ∨
      ∃ target k, fs.get? (child d part) = some (.link target) ∧
        fs.Follows pass k (linkStart d target) (Path.names target) l ∧ n = k + 1) := by
  cases h with
  | skip hp _ =>
    rw [hname.1] at hp
    cases hp
  | up hu _ => exact absurd hu hname.2
  | step _ ho hl h =>
    cases h
    exact ⟨ho, .inl ⟨rfl, hl, rfl⟩⟩
  | link _ ho hl h =>
    rw [List.append_nil] at h
    exact ⟨ho, .inr ⟨_, _, hl, h, rfl⟩⟩

theorem Direct.shape (h : fs.Direct strict path d) : path = "/" ∨ Path.endsInSlash path = false := by
  cases h with
  | here _ _ => exact .inr rfl
  | top => exact .inl rfl
  | down _ hname hslash _ _ => exact .inr (Path.endsInSlash_join (FilePath.isPart_iff.1 hname.1).1 hslash)

theorem origin_join (hslash : CodePoint.char '/' ∉ part) : fs.origin (Path.join path part) = fs.origin path := by
  rw [origin, origin, Path.isAbsolute_join_part hslash]

theorem Direct.leads (h : fs.Direct strict path d) : ∃ n, fs.Leads n (fs.origin path) (Path.names path) d := by
  induction h with
  | here _ _ => exact ⟨0, .nil _⟩
  | top => exact ⟨0, .nil _⟩
  | down _ hname hslash hlead _ ih =>
    obtain ⟨n, hn⟩ := ih
    rw [origin_join hslash, Path.names_join_part hname.1 hslash]
    exact ⟨_, hn.append hlead⟩

theorem Direct.unique (h : fs.Direct strict path d) (h' : fs.Direct strict path d') : d = d' := by
  obtain ⟨n, hn⟩ := h.leads
  obtain ⟨m, hm⟩ := h'.leads
  exact (hn.deterministic hm).2

theorem Direct.isName (h : fs.Direct strict path d) : ∀ name ∈ Path.names path, IsName name := by
  induction h with
  | here _ _ => simp
  | top =>
    intro name hmem
    cases hmem
  | down _ hname hslash _ _ ih =>
    intro name hmem
    rw [Path.names_join_part hname.1 hslash, List.mem_append, List.mem_singleton] at hmem
    rcases hmem with hmem | rfl
    · exact ih name hmem
    · exact hname

theorem Direct.isAbsolute (hstrict : strict) (h : fs.Direct strict path d) : Path.isAbsolute path = true := by
  induction h with
  | here hs _ => exact absurd hstrict hs
  | top => rfl
  | down _ _ hslash _ _ ih =>
    rw [Path.isAbsolute_join_part hslash, ih]

theorem Direct.isDir_workingDirectory (h : fs.Direct strict path d) (hrel : Path.isAbsolute path = false) :
    fs.IsDir fs.workingDirectory := by
  induction h with
  | here _ hdir => exact hdir
  | top => cases hrel
  | down _ _ hslash _ _ ih => exact ih (by rwa [Path.isAbsolute_join_part hslash] at hrel)

/-- Two dots take back what was gone through last. -/
theorem Direct.upward (hstrict : strict) (h : fs.Direct strict path d) : fs.Direct strict (upward path) d.dropLast := by
  cases h with
  | here hs _ => exact absurd hstrict hs
  | top => exact .top
  | @down path part d e k h hname hslash hlead hl =>
    obtain ⟨-, ⟨rfl, -, -⟩ | ⟨target, k, hlink, -⟩⟩ := hlead.single hname
    · have hbase : Path.base (Path.join path part) = part := Path.base_join hslash
      have hne : ¬ (Path.join path part).isEmpty = true := by
        intro he
        rw [List.isEmpty_iff.1 he] at hbase
        exact (FilePath.isPart_iff.1 hname.1).1 hbase.symm
      rw [FileSystem.upward, if_neg hne, if_neg (by rw [hbase]; exact hname.2), Path.parent_join hslash h.shape]
      simpa [child] using h
    · exact absurd ⟨target, hlink⟩ (hl hstrict)

/-! ## Links on the way -/

/-- A link is found in a directory that the path reaches. -/
theorem linkTarget?_reaches (hname : IsName part) (hslash : CodePoint.char '/' ∉ part)
    (h : fs.linkTarget? (Path.join path part) = some target) :
    ∃ n d, fs.Reaches n (fs.origin path) (Path.names path) d ∧ fs.get? (child d part) = some (.link target) := by
  obtain ⟨above, hsplit, hfilter⟩ := Path.splitOn_join path hslash
  simp only [linkTarget?] at h
  split at h
  · rename_i l target' hstatus
    cases h
    simp only [FileSystem.status, Bool.false_eq_true, if_false] at hstatus
    split at hstatus
    · cases hstatus
    · rename_i hplace
      cases hstatus
      simp only [place, bind, Except.bind] at hplace
      split at hplace
      · cases hplace
      · rename_i d₀ hstart
        obtain ⟨rfl, -⟩ := start_ok hstart
        rw [hsplit] at hplace
        obtain ⟨n, d, -, hreach, hw⟩ := walk_append_ok (continues_cons hname) hplace
        have hreach := follows_filter.2 hreach
        rw [origin_join hslash, hfilter] at hreach
        refine ⟨n, d, hreach, ?_⟩
        rw [walk_last hname] at hw
        split at hw
        · cases hw
        · cases hg : fs.get? (child d part) with
          | none => simp [hg] at hw
          | some node =>
            cases node with
            | link target' =>
              simp only [hg, if_true, Except.ok.injEq, Place.taken.injEq, Node.link.injEq] at hw
              rw [hw.2]
            | directory mode | file number mode content | special number mode => simp [hg] at hw
    · cases hstatus
  · cases h

theorem linkTarget?_some (hpath : fs.Direct strict path d) (hname : IsName part) (hslash : CodePoint.char '/' ∉ part)
    (h : fs.linkTarget? (Path.join path part) = some target) : fs.get? (child d part) = some (.link target) := by
  obtain ⟨n, d', hreach, hlink⟩ := linkTarget?_reaches hname hslash h
  obtain ⟨m, hm⟩ := hpath.leads
  rwa [(hm.deterministic hreach).2]

theorem joinWith_append_singleton (sep part : Text) (parts : List Text) :
    Text.joinWith sep (parts ++ [part]) =
      if parts = [] then part else Text.joinWith sep parts ++ sep ++ part := by
  induction parts with
  | nil => rfl
  | cons p ps ih =>
    cases ps with
    | nil => simp [Text.joinWith]
    | cons q qs => simpa [Text.joinWith, List.append_assoc] using ih

theorem toText_root (parts : List Text) : FilePath.toText ⟨"/", parts⟩ = "/" ++ Text.joinWith "/" parts := by
  simp [FilePath.toText]

/-- One more component after the text of components. -/
theorem join_toText (hpath : path = FilePath.toText ⟨"/", Path.names path⟩) (hslash : CodePoint.char '/' ∉ part)
    (hend : path = "/" ∨ Path.endsInSlash path = false) :
    Path.join path part = FilePath.toText ⟨"/", Path.names path ++ [part]⟩ := by
  rw [toText_root] at hpath
  rw [toText_root, joinWith_append_singleton]
  rcases Path.join_cases path hslash with ⟨he, -⟩ | ⟨a, ha, hj⟩ | ⟨-, hs, hj⟩
  · rw [he] at hpath
    cases hpath
  · have hroot : path = "/" := hend.resolve_right (by simp [ha, Path.endsInSlash])
    have ha : a = [] := by
      have hlen := congrArg List.length (ha.symm.trans hroot)
      simpa using hlen
    rw [hj, ha, hroot]
    rfl
  · by_cases hnil : Path.names path = []
    · rw [hnil] at hpath
      rw [hpath] at hs
      cases hs
    · rw [if_neg hnil, hj, ← List.append_assoc, ← List.append_assoc, ← hpath, List.append_assoc]
      rfl

/-- The text of a strict path is that of its components, and they are the names down to the location. -/
theorem Direct.eq_toText (hstrict : strict) (h : fs.Direct strict path d) :
    path = FilePath.toText ⟨"/", Path.names path⟩ ∧ (Path.names path).map Name.canonical = d := by
  induction h with
  | here hs _ => exact absurd hstrict hs
  | top => exact ⟨rfl, rfl⟩
  | @down path part d e k h hname hslash hlead hl ih =>
    obtain ⟨-, ⟨rfl, -, -⟩ | ⟨target, k, hlink, -⟩⟩ := hlead.single hname
    · rw [Path.names_join_part hname.1 hslash]
      exact ⟨join_toText ih.1 hslash h.shape, by rw [List.map_append, ih.2]; rfl⟩
    · exact absurd ⟨target, hlink⟩ (hl hstrict)

/-- Directories on the way are reached. -/
theorem Direct.reaches (hstrict : strict) (hroot : fs.Rooted) (h : fs.Direct strict path d) (hdir : fs.IsDir d) :
    fs.Reaches 0 (fs.origin path) (Path.names path) d := by
  induction h with
  | here hs _ => exact absurd hstrict hs
  | top => exact .nil _
  | @down path part d e k h hname hslash hlead hl ih =>
    obtain ⟨hlen, ⟨rfl, hnot, -⟩ | ⟨target, k, hlink, -⟩⟩ := hlead.single hname
    · have habove : fs.IsDir d := by simpa [child] using hdir.dropLast hroot
      rw [origin_join hslash, Path.names_join_part hname.1 hslash]
      exact (ih habove).append (.step hname ⟨hlen, .inl hdir⟩ hnot (.nil _))
    · exact absurd ⟨target, hlink⟩ (hl hstrict)

theorem linkTarget?_isSome (hstrict : strict) (hroot : fs.Rooted) (hshallow : fs.Shallow) (hpath : fs.Direct strict path d)
    (hname : IsName part) (hslash : CodePoint.char '/' ∉ part) (hlen : byteLength part ≤ nameLimit)
    (hlink : fs.get? (child d part) = some (.link target)) : fs.linkTarget? (Path.join path part) = some target := by
  have hdir : fs.IsDir d := by simpa [child] using hroot (child d part) (by simp [hlink])
  have hreach := hpath.reaches hstrict hroot hdir
  obtain ⟨above, hsplit, hfilter⟩ := Path.splitOn_join path hslash
  rw [← hfilter] at hreach
  obtain ⟨htext, hnames⟩ := hpath.eq_toText hstrict
  have habs : Path.isAbsolute (Path.join path part) = true := by
    rw [Path.isAbsolute_join_part hslash, hpath.isAbsolute hstrict]
  have hshort : byteLength (Path.join path part) < pathLimit := by
    rw [join_toText htext hslash hpath.shape]
    refine hshallow _ ⟨target, ?_⟩
    rw [List.map_append, hnames]
    exact hlink
  have hstart : fs.start (Path.join path part) = .ok (fs.origin (Path.join path part)) := by
    have hne : ¬ (Path.join path part).isEmpty = true := by
      intro he
      rw [List.isEmpty_iff.1 he] at habs
      cases habs
    rw [start, if_neg hne, if_neg (Nat.not_le.2 hshort), if_pos habs, origin, if_pos habs]
  have haddress : fs.Addresses (Path.join path part) (child d part) := by
    refine .intro hsplit hname hlen hstart (Nat.zero_le _) ?_ hdir
    rw [origin_join hslash]
    exact follows_filter.1 hreach
  rw [linkTarget?, haddress.status (.inl rfl), hlink]

/-! ## The trail -/

/-- What a link leads to, through so many more links. -/
def LinkLeads (fs : FileSystem) (l : Location) (c : Nat) (e : Location) : Prop :=
  ∃ target, fs.get? l = some (.link target) ∧ fs.Leads c (linkStart l.dropLast target) (Path.names target) e

theorem LinkLeads.unique {c' : Nat} {e' : Location} (h : fs.LinkLeads l c e) (h' : fs.LinkLeads l c' e') :
    c = c' ∧ e = e' := by
  obtain ⟨target, ht, hl⟩ := h
  obtain ⟨target', ht', hl'⟩ := h'
  rw [ht] at ht'
  cases ht'
  exact hl.deterministic hl'

/-- The text stands for the name in the directory. -/
def Spells (fs : FileSystem) (strict : Prop) (next : Text) (l : Location) : Prop :=
  ∃ path part d, next = Path.join path part ∧ fs.Direct strict path d ∧ IsName part ∧ CodePoint.char '/' ∉ part ∧
    l = child d part

theorem Spells.unique {l' : Location} (h : fs.Spells strict next l) (h' : fs.Spells strict next l') : l = l' := by
  obtain ⟨path, part, d, rfl, hpath, -, hslash, rfl⟩ := h
  obtain ⟨path', part', d', hnext, hpath', -, hslash', rfl⟩ := h'
  have hbase := congrArg Path.base hnext
  have hparent := congrArg Path.parent hnext
  rw [Path.base_join hslash, Path.base_join hslash'] at hbase
  rw [Path.parent_join hslash hpath.shape, Path.parent_join hslash' hpath'.shape] at hparent
  subst hbase hparent
  rw [hpath.unique hpath']

/-- What the trail says of a link that was followed to its end is true, and the others are among those still being
followed. -/
structure Trusted (fs : FileSystem) (strict : Prop) (pending : List Location) (trail : LinkTrail) : Prop where
  done : ∀ next resolved, Table.get? next trail = some (some resolved) →
    ∃ l c e, fs.Spells strict next l ∧ fs.LinkLeads l c e ∧ fs.Direct strict resolved e
  unfinished : ∀ next, Table.get? next trail = some none → ∃ l ∈ pending, fs.Spells strict next l

/-- The links that are being followed lead further than what is left to follow. -/
structure Nested (fs : FileSystem) (pending : List Location) (n : Nat) : Prop where
  costs : ∀ l ∈ pending, ∃ c e, fs.LinkLeads l c e ∧ n ≤ c
  nodup : pending.Nodup

theorem Nested.mono (h : fs.Nested pending n) (hm : m ≤ n) : fs.Nested pending m :=
  ⟨fun l hl => let ⟨c, e, hc, hn⟩ := h.costs l hl; ⟨c, e, hc, hm.trans hn⟩, h.nodup⟩

theorem Nested.length_le (h : fs.Nested pending n) : pending.length ≤ fs.nodes.length := by
  have hsub : pending ⊆ fs.nodes.map (·.1) := by
    intro l hl
    obtain ⟨c, e, ⟨target, ht, -⟩, -⟩ := h.costs l hl
    have hne : l ≠ [] := by
      rintro rfl
      rw [get?_nil] at ht
      cases ht
    obtain ⟨node, hmem⟩ := (get?_isSome_iff hne).1 (by rw [ht]; rfl)
    exact List.mem_map.2 ⟨_, hmem, rfl⟩
  simpa using (h.nodup.subperm hsub).length_le

/-- A link that is being followed is not met again on the way. -/
theorem Nested.not_mem (h : fs.Nested pending n) (hl : fs.LinkLeads l c e) (hc : c < n) : l ∉ pending := by
  intro hmem
  obtain ⟨c', e', hl', hn⟩ := h.costs l hmem
  have := (hl.unique hl').1
  omega

theorem Nested.cons (h : fs.Nested pending n) (hl : fs.LinkLeads l c e) (hc : c < n) : fs.Nested (l :: pending) c where
  costs l' hl' := by
    rcases List.mem_cons.1 hl' with rfl | hl'
    · exact ⟨c, e, hl, le_rfl⟩
    · exact (h.mono hc.le).costs l' hl'
  nodup := List.nodup_cons.2 ⟨h.not_mem hl hc, h.nodup⟩

theorem Trusted.opened (h : fs.Trusted strict pending trail) (hl : fs.Spells strict next l) :
    fs.Trusted strict (l :: pending) ((next, none) :: trail) where
  done next' resolved hget := by
    rw [Table.get?] at hget
    split at hget
    · cases hget
    · exact h.done next' resolved hget
  unfinished next' hget := by
    rw [Table.get?] at hget
    split at hget
    · rename_i he
      exact ⟨l, by simp, he ▸ hl⟩
    · obtain ⟨l', hmem, hl'⟩ := h.unfinished next' hget
      exact ⟨l', by simp [hmem], hl'⟩

/-- The link that was followed last is done. -/
theorem Trusted.closed {trail' : LinkTrail} {resolved : Text} (h : fs.Trusted strict pending trail)
    (hl : fs.Spells strict next l) (hleads : fs.LinkLeads l c e) (hdirect : fs.Direct strict resolved e)
    (h' : fs.Trusted strict (l :: pending) trail')
    (hpend : ∀ other, Table.get? other trail' = some none → Table.get? other ((next, none) :: trail) = some none) :
    fs.Trusted strict pending ((next, some resolved) :: trail') where
  done other resolved' hget := by
    rw [Table.get?] at hget
    split at hget
    · rename_i he
      cases hget
      exact ⟨l, c, e, he ▸ hl, hleads, hdirect⟩
    · exact h'.done other resolved' hget
  unfinished other hget := by
    rw [Table.get?] at hget
    split at hget
    · cases hget
    · rename_i hne
      have hbefore := hpend other hget
      rw [Table.get?, if_neg hne] at hbefore
      exact h.unfinished other hbefore

/-! ## Soundness -/

/-- A strict search meets absolute paths alone and no link that is too deep; any other meets no link that leads up. -/
structure Traceable (fs : FileSystem) (strict : Prop) : Prop where
  shallow : strict → fs.Shallow
  downward : ¬ strict → fs.LinksDownward

/-- The components a search may meet. -/
structure Searchable (strict : Prop) (parts : List Text) : Prop where
  noSlash : ∀ part ∈ parts, CodePoint.char '/' ∉ part
  downward : ¬ strict → ∀ part ∈ parts, part ≠ ".."

theorem Searchable.tail (h : Searchable strict (part :: rest)) : Searchable strict rest :=
  ⟨fun p hp => h.noSlash p (by simp [hp]), fun hs p hp => h.downward hs p (by simp [hp])⟩

theorem searchable_splitOn (h : ¬ strict → Path.Downward target) : Searchable strict (Text.splitOn '/' target) where
  noSlash _ hp := Text.not_mem_of_mem_splitOn hp
  downward hs part hp := by
    rintro rfl
    exact h hs ".." (List.mem_filter.2 ⟨hp, isPart_dots⟩) rfl

theorem dots_have_effect : ¬ ((".." : Text).isEmpty ∨ (".." : Text) = ".") := by decide

/-- Components that lead somewhere are resolved to a path that leads there directly; the search goes on from it. -/
theorem resolveFrom_ok (hroot : fs.Rooted) (htrace : fs.Traceable strict) {depth : Nat} (hpath : fs.Direct strict path d)
    (hparts : Searchable strict parts) (hlead : fs.Leads n d parts l) (htrail : fs.Trusted strict pending trail)
    (hnested : fs.Nested pending n) (hdepth : fs.nodes.length ≤ depth + pending.length) :
    ∃ resolved trail', (∀ more, fs.resolveFrom depth trail path (parts ++ more) = fs.resolveFrom depth trail' resolved more) ∧
      fs.Direct strict resolved l ∧ fs.Trusted strict pending trail' ∧
      ∀ next, Table.get? next trail' = some none → Table.get? next trail = some none := by
  induction depth using Nat.strongRecOn generalizing trail path d parts n l pending with
  | ind depth ihd =>
    induction parts generalizing trail path d n with
    | nil =>
      cases hlead
      exact ⟨path, trail, fun _ => rfl, hpath, htrail, fun _ h => h⟩
    | cons part rest ih =>
      rcases part_cases part with hp | rfl | hname
      · simp only [List.cons_append, resolveFrom, if_pos (not_isPart_iff.1 hp)]
        cases hlead with
        | skip _ hlead => exact ih hpath hparts.tail hlead htrail hnested
        | up hu _ => exact absurd hu (not_isPart_dots hp)
        | step hn _ _ _ => simp [hn.1] at hp
        | link hn _ _ _ => simp [hn.1] at hp
      · simp only [List.cons_append, resolveFrom, if_neg dots_have_effect]
        have hstrict : strict := by
          by_contra hs
          exact hparts.downward hs ".." (by simp) rfl
        cases hlead with
        | skip hp _ => cases hp
        | up _ hlead => exact ih (hpath.upward hstrict) hparts.tail hlead htrail hnested
        | step hn _ _ _ => exact absurd rfl hn.2
        | link hn _ _ _ => exact absurd rfl hn.2
      · simp only [List.cons_append, resolveFrom, if_neg hname.ne, if_neg hname.2]
        have hslash := hparts.noSlash part (by simp)
        obtain ⟨e, n₁, n₂, hfirst, hrest, rfl⟩ := Follows.split (a := [part]) hlead
        have hn₂ : n₂ ≤ n₁ + n₂ := Nat.le_add_left ..
        obtain ⟨hlen, hcases⟩ := hfirst.single hname
        cases htarget : fs.linkTarget? (Path.join path part) with
        | none =>
          have hnot : strict → ¬ fs.IsLink (child d part) := by
            rintro hs ⟨target, hlink⟩
            rw [linkTarget?_isSome hs hroot (htrace.shallow hs) hpath hname hslash hlen hlink] at htarget
            cases htarget
          simp only [htarget]
          exact ih (hpath.down hname hslash hfirst hnot) hparts.tail hrest htrail (hnested.mono hn₂)
        | some target =>
          have hlink := linkTarget?_some hpath hname hslash htarget
          obtain ⟨-, hl, -⟩ | ⟨target', k, hlink', hlead', rfl⟩ := hcases
          · exact absurd ⟨target, hlink⟩ hl
          rw [hlink] at hlink'
          cases hlink'
          have hleads : fs.LinkLeads (child d part) k e := ⟨target, hlink, by simpa [child] using hlead'⟩
          have hspell : fs.Spells strict (Path.join path part) (child d part) :=
            ⟨path, part, d, rfl, hpath, hname, hslash, rfl⟩
          have hless : k < k + 1 + n₂ := by omega
          have hnew := hnested.not_mem hleads hless
          cases hget : Table.get? (Path.join path part) trail with
          | some entry =>
            cases entry with
            | some resolved =>
              obtain ⟨l', c', e', hspell', hleads', hres⟩ := htrail.done _ resolved hget
              rw [← hspell.unique hspell'] at hleads'
              rw [← (hleads.unique hleads').2] at hres
              simp only [htarget, hget]
              exact ih hres hparts.tail hrest htrail (hnested.mono hn₂)
            | none =>
              obtain ⟨l', hmem, hspell'⟩ := htrail.unfinished _ hget
              rw [← hspell.unique hspell'] at hmem
              exact absurd hmem hnew
          | none =>
            have hinner := hnested.cons hleads hless
            cases depth with
            | zero =>
              have hle := hinner.length_le
              rw [List.length_cons] at hle
              omega
            | succ depth =>
              have horigin : fs.Direct strict (if Path.isAbsolute target then "/" else path) (linkStart d target) := by
                unfold linkStart
                split
                · exact .top
                · exact hpath
              have hsearch : Searchable strict (Text.splitOn '/' target) :=
                searchable_splitOn fun hs => htrace.downward hs _ target hlink
              obtain ⟨inner, trail', hrun, hdirect, htrail', hpend⟩ := ihd depth (by omega) horigin hsearch
                (follows_names.2 hlead') (htrail.opened hspell) hinner (by rw [List.length_cons]; omega)
              have hrun := hrun []
              rw [List.append_nil, resolveFrom] at hrun
              simp only [htarget, hget, hrun, if_true]
              obtain ⟨resolved, trail'', hrun', hresolved, htrail'', hpend'⟩ :=
                ih hdirect hparts.tail hrest (htrail.closed hspell hleads hdirect htrail' hpend) (hnested.mono hn₂)
              refine ⟨resolved, trail'', hrun', hresolved, htrail'', fun next h => ?_⟩
              have h := hpend' next h
              rw [Table.get?] at h
              split at h
              · cases h
              · rename_i hne
                have h := hpend next h
                rwa [Table.get?, if_neg hne] at h

/-! ## Beyond what is there -/

/-- No link is found where nothing is. -/
theorem linkTarget?_vacant {resolved : Text} {more : List Text} (hvacant : fs.Vacant l)
    (hdirect : fs.Direct strict resolved l) (hnames : Path.names path = Path.names resolved ++ more)
    (horigin : fs.origin path = fs.origin resolved) (hmore : ∀ name ∈ more, IsName name) (hname : IsName part)
    (hslash : CodePoint.char '/' ∉ part) : fs.linkTarget? (Path.join path part) = none := by
  cases htarget : fs.linkTarget? (Path.join path part) with
  | none => rfl
  | some target =>
    obtain ⟨n, d, hreach, hlink⟩ := linkTarget?_reaches hname hslash htarget
    rw [hnames, horigin] at hreach
    obtain ⟨d', n₁, n₂, hfirst, hrest, -⟩ := hreach.split
    obtain ⟨m, hm⟩ := hdirect.leads
    obtain rfl := (hm.deterministic hfirst).2
    have hnone (name : Text) : fs.get? (child l name) = none := hvacant _ (List.prefix_append ..)
    cases more with
    | nil =>
      cases hrest
      rw [hnone part] at hlink
      cases hlink
    | cons name rest =>
      have hisname := hmore name (by simp)
      have hnot (ho : fs.CanEnter l name) : False := by
        rcases ho.2 with ⟨_, h⟩ | ⟨_, h⟩ <;> rw [hnone name] at h <;> cases h
      cases hrest with
      | skip hp _ =>
        rw [hisname.1] at hp
        cases hp
      | up hu _ => exact absurd hu hisname.2
      | step _ ho _ _ => exact (hnot ho).elim
      | link _ ho _ _ => exact (hnot ho).elim

/-- Components beyond what is there are kept. -/
theorem resolveFrom_vacant {resolved : Text} {more : List Text} {depth : Nat} (hvacant : fs.Vacant l)
    (hdirect : fs.Direct strict resolved l) (hnames : Path.names path = Path.names resolved ++ more)
    (horigin : fs.origin path = fs.origin resolved) (hmore : ∀ name ∈ more, IsName name)
    (habs : Path.isAbsolute path = Path.isAbsolute resolved)
    (hslash : ∀ part ∈ parts, CodePoint.char '/' ∉ part) (hdown : ∀ part ∈ parts, part ≠ "..") :
    ∃ final, fs.resolveFrom depth trail path parts = (final, true, trail) ∧
      Path.names final = Path.names path ++ parts.filter FilePath.isPart ∧
      Path.isAbsolute final = Path.isAbsolute path := by
  induction parts generalizing path more with
  | nil => exact ⟨path, by rw [resolveFrom], by simp, rfl⟩
  | cons part rest ih =>
    have hslash' : ∀ p ∈ rest, CodePoint.char '/' ∉ p := fun p hp => hslash p (by simp [hp])
    have hdown' : ∀ p ∈ rest, p ≠ ".." := fun p hp => hdown p (by simp [hp])
    rcases part_cases part with hp | hu | hname
    · rw [resolveFrom, if_pos (not_isPart_iff.1 hp), List.filter_cons_of_neg (by simp [hp])]
      exact ih hnames horigin hmore habs hslash' hdown'
    · exact absurd hu (hdown part (by simp))
    · have hpart := hslash part (by simp)
      have hnext : Path.names (Path.join path part) = Path.names path ++ [part] := Path.names_join_part hname.1 hpart
      have hnone := linkTarget?_vacant hvacant hdirect hnames horigin hmore hname hpart
      rw [resolveFrom, if_neg hname.ne, if_neg hname.2, List.filter_cons_of_pos hname.1]
      simp only [hnone]
      have habs' : Path.isAbsolute (Path.join path part) = Path.isAbsolute path := Path.isAbsolute_join_part hpart
      have hnames' : Path.names (Path.join path part) = Path.names resolved ++ (more ++ [part]) := by
        rw [hnext, hnames, List.append_assoc]
      have hmore' : ∀ name ∈ more ++ [part], IsName name := by
        intro name hmem
        rcases List.mem_append.1 hmem with hmem | hmem
        · exact hmore name hmem
        · rw [List.mem_singleton.1 hmem]
          exact hname
      obtain ⟨final, hrun, hfinal, hfinal'⟩ :=
        ih hnames' ((origin_join hpart).trans horigin) hmore' (habs'.trans habs) hslash' hdown'
      exact ⟨final, hrun, by rw [hfinal, hnext, List.append_assoc]; rfl, hfinal'.trans habs'⟩

/-! ## Resolved paths -/

/-- The working directory has names that are kept as they are. -/
structure Homed (fs : FileSystem) : Prop where
  isName : ∀ name ∈ fs.workingDirectory, IsName name
  noSlash : ∀ name ∈ fs.workingDirectory, CodePoint.char '/' ∉ name
  canonical : ∀ name ∈ fs.workingDirectory, Name.canonical name = name
  short : ∀ name ∈ fs.workingDirectory, byteLength name ≤ nameLimit

theorem reduce_eq {absolute : Bool} {done : List Text} (h : ∀ part ∈ parts, part ≠ "..") :
    Path.reduce absolute done parts = done.reverse ++ parts.filter FilePath.isPart := by
  induction parts generalizing done with
  | nil => simp [Path.reduce]
  | cons part rest ih =>
    have hrest : ∀ p ∈ rest, p ≠ ".." := fun p hp => h p (by simp [hp])
    by_cases hp : FilePath.isPart part = true
    · have hpart : ¬ (part.isEmpty ∨ part = ".") := by
        rw [← not_isPart_iff, hp]
        simp
      simp only [Path.reduce, if_neg hpart, if_neg (h part (by simp)), ih hrest, List.filter_cons_of_pos hp]
      simp
    · rw [Bool.not_eq_true] at hp
      simp only [Path.reduce, if_pos (not_isPart_iff.1 hp), ih hrest]
      rw [List.filter_cons_of_neg (by simp [hp])]

/-- Nothing but slashes and dots is lost where no component leads up. -/
theorem normalize_eq (h : Path.Downward path) : Path.normalize path = (FilePath.ofText path).toText := by
  have hparts : ∀ part ∈ Text.splitOn '/' path, part ≠ ".." := by
    rintro part hpart rfl
    exact h ".." (List.mem_filter.2 ⟨hpart, isPart_dots⟩) rfl
  simp only [Path.normalize, reduce_eq hparts, List.reverse_nil, List.nil_append]
  rfl

theorem names_workingPath (hhome : fs.Homed) : Path.names fs.workingPath = fs.workingDirectory := by
  have htidy : FilePath.Tidy ⟨"/", fs.workingDirectory⟩ :=
    ⟨.inr (.inl rfl), fun name h => (hhome.isName name h).1, hhome.noSlash⟩
  rw [workingPath, ← toText_root, htidy.names_toText]

/-- The working directory is reached by its own text. -/
theorem leads_workingDirectory (hroot : fs.Rooted) (hhome : fs.Homed) (hdir : fs.IsDir fs.workingDirectory) :
    fs.Leads 0 [] fs.workingDirectory fs.workingDirectory := by
  have hall (front : Location) (hfront : front <+: fs.workingDirectory) : fs.IsDir front → fs.Leads 0 [] front front := by
    induction front using List.reverseRecOn with
    | nil => exact fun _ => .nil []
    | append_singleton front name ih =>
      intro hd
      have hmem : name ∈ fs.workingDirectory := hfront.subset (by simp)
      have habove : fs.IsDir front := by simpa using hd.dropLast hroot
      have hchild : child front name = front ++ [name] := by rw [child, hhome.canonical name hmem]
      have hnot : ¬ fs.IsLink (child front name) := fun hl => not_isDir_of_isLink hl (hchild ▸ hd)
      have hstep : fs.Leads 0 front [name] (front ++ [name]) :=
        hchild ▸ .step (hhome.isName name hmem) (hhome.short name hmem) hnot (.nil _)
      exact (ih ((List.prefix_append ..).trans hfront) habove).append hstep
  exact hall _ List.prefix_rfl hdir

theorem isAbsolute_ofText (path : Text) : Path.isAbsolute (FilePath.ofText path).toText = Path.isAbsolute path := by
  rw [(FilePath.tidy_ofText path).isAbsolute_toText]
  cases path with
  | nil => rfl
  | cons c r =>
    simp only [FilePath.ofText, Path.leadingSlashes, Path.isAbsolute, List.head?_cons]
    by_cases hc : c = CodePoint.char '/'
    · subst hc
      rw [List.takeWhile_cons_of_pos (by rfl)]
      split <;> simp_all
    · rw [List.takeWhile_cons_of_neg (by simpa [Path.isSlash] using hc)]
      simp [hc]

theorem isEmpty_root (path : Text) : (FilePath.ofText path).root.isEmpty = !Path.isAbsolute path := by
  rw [← isAbsolute_ofText, (FilePath.tidy_ofText path).isAbsolute_toText, Bool.not_not]

/-- The absolute text of a path has the components of the place where it starts and its own. -/
theorem absolute_names (hhome : fs.Homed) (hdown : ∀ name ∈ Path.names path, IsName name) :
    Path.isAbsolute (fs.absolute path) = true ∧
      Path.names (fs.absolute path) = (if Path.isAbsolute path then [] else fs.workingDirectory) ++ Path.names path := by
  have hnormal (text : Text) (hd : Path.Downward text) (ha : Path.isAbsolute text = true) :
      Path.isAbsolute (Path.normalize text) = true ∧ Path.names (Path.normalize text) = Path.names text := by
    rw [normalize_eq hd]
    exact ⟨(isAbsolute_ofText text).trans ha, (FilePath.tidy_ofText text).names_toText⟩
  rw [absolute]
  by_cases ha : Path.isAbsolute path = true
  · rw [if_pos ha, if_pos ha]
    exact hnormal path (fun name h => (hdown name h).2) ha
  · rw [if_neg ha, if_neg ha]
    rw [Bool.not_eq_true] at ha
    have hnames : Path.names (Path.join fs.workingPath path) = fs.workingDirectory ++ Path.names path := by
      rw [Path.names_join ha, names_workingPath hhome]
    have hne : fs.workingPath ≠ [] := by simp [workingPath]
    have habs : Path.isAbsolute (Path.join fs.workingPath path) = true := by
      rw [Path.isAbsolute_join ha hne]
      rfl
    rw [← hnames]
    refine hnormal _ (fun name h => ?_) habs
    rw [hnames, List.mem_append] at h
    rcases h with h | h
    · exact (hhome.isName name h).2
    · exact (hdown name h).2

/-- Resolving a path keeps what lies beyond what is there, and what stands before leads where it did. -/
theorem resolvedText_ok (path : Text) (front rest : List Text) (hroot : fs.Rooted) (hhome : fs.Homed) (htrace : fs.Traceable strict)
    (habs : strict → Path.isAbsolute path = true) (hdown : ¬ strict → Path.Downward path)
    (hcwd : Path.isAbsolute path = false → fs.IsDir fs.workingDirectory) (hnames : Path.names path = front ++ rest)
    (hlead : fs.Leads n (fs.origin path) front l) (hrest : rest = [] ∨ fs.Vacant l ∧ ∀ name ∈ rest, name ≠ "..") :
    Path.isAbsolute (fs.resolvedText path) = true ∧ (∀ name ∈ Path.names (fs.resolvedText path), IsName name) ∧
      ∃ m before, Path.names (fs.resolvedText path) = before ++ rest ∧ fs.Leads m [] before l := by
  obtain ⟨a, b, hsplit, hfront, hback, hb⟩ : ∃ a b, Text.splitOn '/' path = a ++ b ∧ a.filter FilePath.isPart = front ∧
      b.filter FilePath.isPart = rest ∧ (b = [] ∨ fs.Vacant l ∧ ∀ part ∈ b, part ≠ "..") := by
    rcases hrest with rfl | ⟨hvacant, hd⟩
    · rw [List.append_nil] at hnames
      exact ⟨_, [], (List.append_nil _).symm, hnames, rfl, .inl rfl⟩
    · obtain ⟨a, b, hsplit, hfront, hback⟩ := List.filter_eq_append_iff.1 hnames
      refine ⟨a, b, hsplit, hfront, hback, .inr ⟨hvacant, ?_⟩⟩
      rintro part hpart rfl
      exact hd ".." (hback ▸ List.mem_filter.2 ⟨hpart, isPart_dots⟩) rfl
  have horigin : fs.Direct strict (if Path.isAbsolute path then "/" else "") (fs.origin path) := by
    unfold origin
    split
    · exact .top
    · rename_i hnot
      exact .here (fun hs => hnot (habs hs)) (hcwd (by simpa using hnot))
  have hsearch : Searchable strict (a ++ b) := hsplit ▸ searchable_splitOn hdown
  have hleft : Searchable strict a :=
    ⟨fun p hp => hsearch.noSlash p (by simp [hp]), fun hs p hp => hsearch.downward hs p (by simp [hp])⟩
  have hempty : fs.Trusted strict [] [] := by constructor <;> intros <;> contradiction
  have hnone : fs.Nested [] n := ⟨by simp, List.nodup_nil⟩
  rw [← hfront] at hlead
  obtain ⟨resolved, trail, hrun, hdirect, -, -⟩ :=
    resolveFrom_ok hroot htrace horigin hleft (follows_filter.1 hlead) hempty hnone
      (show fs.nodes.length ≤ 2 * fs.nodes.length + 8 + ([] : List Location).length by omega)
  -- What the search ends with, and how its components continue those of the part that is there.
  obtain ⟨final, hfinal, hfinalNames, hfinalAbs⟩ : ∃ final,
      (fs.resolveFrom (2 * fs.nodes.length + 8) [] (if Path.isAbsolute path then "/" else "")
        (Text.splitOn '/' path)).1 = final ∧ Path.names final = Path.names resolved ++ rest ∧
      Path.isAbsolute final = Path.isAbsolute resolved := by
    rw [hsplit, hrun b, ← hback]
    rcases hb with rfl | ⟨hvacant, hd⟩
    · exact ⟨resolved, by rw [resolveFrom], by simp, rfl⟩
    · obtain ⟨final, hrun', hnames', habs'⟩ := resolveFrom_vacant hvacant hdirect (List.append_nil _).symm rfl (by simp)
        rfl (fun p hp => hsearch.noSlash p (by simp [hp])) hd
      exact ⟨final, by rw [hrun'], hnames', habs'⟩
  have hisname : ∀ name ∈ Path.names final, IsName name := by
    intro name hmem
    rw [hfinalNames, List.mem_append] at hmem
    rcases hmem with hmem | hmem
    · exact hdirect.isName name hmem
    · rcases hrest with rfl | ⟨-, hd⟩
      · cases hmem
      · exact ⟨Path.isPart_of_mem_names (hnames ▸ List.mem_append_right front hmem), hd name hmem⟩
  obtain ⟨habs', hnames'⟩ := absolute_names hhome hisname
  have htext : fs.resolvedText path = fs.absolute final := by
    rw [resolvedText]
    exact congrArg _ hfinal
  obtain ⟨m, hlead'⟩ : ∃ m, fs.Leads m []
      ((if Path.isAbsolute final then [] else fs.workingDirectory) ++ Path.names resolved) l := by
    obtain ⟨m, hm⟩ := hdirect.leads
    rw [hfinalAbs]
    by_cases ha : Path.isAbsolute resolved = true
    · rw [origin, if_pos ha] at hm
      exact ⟨m, by rw [if_pos ha]; exact hm⟩
    · rw [origin, if_neg ha] at hm
      rw [if_neg ha]
      rw [Bool.not_eq_true] at ha
      exact ⟨_, (leads_workingDirectory hroot hhome (hdirect.isDir_workingDirectory ha)).append hm⟩
  rw [htext]
  refine ⟨habs', ?_, ?_⟩
  · intro name hmem
    rw [hnames', List.mem_append] at hmem
    rcases hmem with hmem | hmem
    · split at hmem
      · cases hmem
      · exact hhome.isName name hmem
    · exact hisname name hmem
  · exact ⟨m, _, by rw [hnames', hfinalNames, List.append_assoc], hlead'⟩

end Prebuilt.FileSystem
