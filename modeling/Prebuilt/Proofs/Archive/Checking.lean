import Prebuilt.Archive.Extract
import Prebuilt.Proofs.Actions.Running
import Prebuilt.Proofs.Files.Inward
import Prebuilt.Proofs.Files.Resolving
/-!
What the check of member names is worth. A name that leads down from the target does so by itself; for an absolute name the
check has compared its resolved path with that of the target, and resolved paths lead where the paths did.
-/
set_option autoImplicit false

namespace Prebuilt

namespace FileSystem

variable {fs fs' : FileSystem} {roots : List Location} {target name : Text} {r : Location} {mode : Nat}

/-- Resolving the path can be relied on: no link is missed for the length of its path, or none of them leads up. -/
structure Resolvable (fs : FileSystem) (path : Text) : Prop where
  homed : fs.Homed
  links : Path.isAbsolute path = true ∧ fs.Shallow ∨ fs.LinksDownward ∧ Path.Downward path

theorem Resolvable.of_sameLinks {path : Text} (hlinks : fs.SameLinks fs') (hcwd : fs'.workingDirectory = fs.workingDirectory)
    (h : fs.Resolvable path) : fs'.Resolvable path where
  homed := by
    obtain ⟨hname, hslash, hcanonical, hshort⟩ := h.homed
    constructor <;> rw [hcwd] <;> assumption
  links := by
    rcases h.links with ⟨ha, hs⟩ | ⟨hl, hd⟩
    · exact .inl ⟨ha, fun parts hp => hs parts (hlinks.isLink_iff.2 hp)⟩
    · exact .inr ⟨fun l target hg => hl l target ((hlinks l target).2 hg), hd⟩

theorem Resolvable.traceable {path : Text} (h : fs.Resolvable path) : ∃ strict : Prop, fs.Traceable strict ∧
    (strict → Path.isAbsolute path = true) ∧ (¬ strict → Path.Downward path) := by
  rcases h.links with ⟨ha, hs⟩ | ⟨hl, hd⟩
  · exact ⟨True, ⟨fun _ => hs, fun h => absurd trivial h⟩, fun _ => ha, fun h => absurd trivial h⟩
  · exact ⟨False, ⟨False.elim, fun _ => hl⟩, False.elim, fun _ => hd⟩

theorem origin_ofText (path : Text) : fs.origin (FilePath.ofText path).toText = fs.origin path := by
  rw [origin, origin, isAbsolute_ofText]

theorem names_ofText (path : Text) : Path.names (FilePath.ofText path).toText = Path.names path :=
  (FilePath.tidy_ofText path).names_toText

/-- An absolute name whose resolved path continues that of the target leads inward. -/
theorem inward_of_within (hroot : fs.Rooted) (hlinks : ∀ l, r <+: l → ¬ fs.IsLink l) (hr : r ∈ roots)
    (hfollow : fs.Resolvable target) (htarget : fs.status target true = .ok (r, .directory mode))
    (habs : Path.isAbsolute name = true) (hdown : Path.Downward name)
    (hwithin : Path.names (fs.resolvedText (FilePath.ofText target).toText) <+:
      Path.names (fs.resolvedText (FilePath.ofText name).toText)) : Inward roots fs name := by
  obtain ⟨strict, htrace, hstrict, hdownward⟩ := hfollow.traceable
  obtain ⟨n, -, hstart, hreach⟩ := status_directory htarget
  have hdir := (start_ok hstart).2
  have hrdir := hreach.isDir hroot hdir
  have hcwd : Path.isAbsolute (FilePath.ofText target).toText = false → fs.IsDir fs.workingDirectory := by
    intro ha
    rw [isAbsolute_ofText] at ha
    rwa [origin, if_neg (by simp [ha])] at hdir
  obtain ⟨-, hnames, m, before, hbefore, hm⟩ := resolvedText_ok (FilePath.ofText target).toText
    (Path.names target) [] hroot hfollow.homed htrace (fun hs => (isAbsolute_ofText target).trans (hstrict hs))
    (fun hs => by rw [Path.Downward, names_ofText]; exact hdownward hs) hcwd
    ((names_ofText target).trans (List.append_nil _).symm) (by rw [origin_ofText]; exact hreach.leads) (.inl rfl)
  rw [List.append_nil] at hbefore
  rw [hbefore] at hwithin
  -- Where the first components of the name lead, with whatever follows, beyond what is there or not.
  have hresolved {front rest : List Text} {l : Location} {k : Nat} (hfront : Path.names name = front ++ rest)
      (hl : fs.Leads k (fs.origin name) front l) (hrest : rest = [] ∨ fs.Vacant l) :
      ∃ m' front', before <+: front' ++ rest ∧ fs.Leads m' [] front' l ∧ ∀ part ∈ front' ++ rest, part ≠ ".." := by
    obtain ⟨-, hnames', m', front', hfront', hm'⟩ := resolvedText_ok (FilePath.ofText name).toText
      front rest hroot hfollow.homed htrace (fun _ => (isAbsolute_ofText name).trans habs)
      (fun _ => by rw [Path.Downward, names_ofText]; exact hdown)
      (fun ha => by rw [isAbsolute_ofText, habs] at ha; cases ha) ((names_ofText name).trans hfront)
      (by rw [origin_ofText]; exact hl)
      (hrest.imp_right fun hv => ⟨hv, fun part hp => hdown part (hfront ▸ List.mem_append_right front hp)⟩)
    rw [hfront'] at hwithin hnames'
    exact ⟨m', front', hwithin, hm', fun part hp => (hnames' part hp).2⟩
  -- Components that continue those of the target lead down from it.
  have hbeneath {front : List Text} {l : Location} {k : Nat} (hfront : before <+: front) (hl : fs.Leads k [] front l)
      (hfree : ∀ part ∈ front, part ≠ "..") : Beneath roots l := by
    obtain ⟨more, rfl⟩ := hfront
    obtain ⟨d, n₁, n₂, h₁, h₂, -⟩ := hl.split
    obtain rfl : d = r := (h₁.deterministic hm).2
    rw [h₂.eq_descend hlinks fun part hp => hfree part (by simp [hp])]
    exact ⟨d, hr, List.prefix_append ..⟩
  constructor
  · rintro l ⟨k, hl⟩
    obtain ⟨m', front', hfront, hm', hfree⟩ := hresolved (List.append_nil _).symm hl (.inl rfl)
    rw [List.append_nil] at hfront hfree
    exact hbeneath hfront hm' hfree
  · rintro front l k ⟨rest, hrest⟩ hl
    by_cases hg : fs.get? l = none
    · have hvacant := vacant_of_none hroot hg
      obtain ⟨m', front', hfront, hm', hfree⟩ := hresolved hrest.symm hl (.inr hvacant)
      rcases List.prefix_or_prefix_of_prefix hfront (List.prefix_append front' rest) with h | ⟨more, rfl⟩
      · exact .inl (hbeneath h hm' fun part hp => hfree part (by simp [hp]))
      · obtain ⟨d, n₁, n₂, h₁, h₂, -⟩ := hm.split
        obtain rfl : d = l := (h₁.deterministic hm').2
        have hnone : ∀ l', d <+: l' → ¬ fs.IsLink l' := by
          rintro l' hl' ⟨t, ht⟩
          rw [hvacant l' hl'] at ht
          cases ht
        have hmore : ∀ part ∈ more, part ≠ ".." := by
          intro part hp
          obtain ⟨tail, htail⟩ := hfront
          rw [List.append_assoc, List.append_cancel_left_eq] at htail
          exact hfree part (htail ▸ by simp [hp])
        obtain ⟨mode', hmode⟩ := hrdir
        rw [h₂.eq_descend hnone hmore, descend, hvacant _ (List.prefix_append ..)] at hmode
        cases hmode
    · exact .inr hg

end FileSystem

theorem FilePath.div_of_absolute (p : FilePath) {name : Text} (h : Path.isAbsolute name = true) :
    p / name = ofText name := by
  show p.append (ofText name) = ofText name
  rw [append, FileSystem.isEmpty_root, h]
  rfl

namespace Action

open FileSystem

variable {m m' : Machine} {roots : List Location} {target name : Text} {names : List Text} {r : Location} {mode : Nat}

theorem resolve_ok {path resolved : FilePath} (h : exec (resolve path) m = (.ok resolved, m')) :
    m' = m ∧ resolved = FilePath.ofText (m.files.resolvedText path.toText) := by
  obtain ⟨r, hr⟩ := exec_checkPath path.toText
  rw [resolve, bind_ok] at h
  obtain ⟨_, m₁, hcheck, h⟩ := h
  rw [hr] at hcheck
  cases hcheck
  rw [exec_bind_of_ok exec_files] at h
  simp only at h
  split at h
  · split at h
    · cases h
    · cases h
      exact ⟨rfl, rfl⟩
  · cases h
    exact ⟨rfl, rfl⟩

theorem exec_resolve (path : FilePath) : (exec (resolve path) m).2 = m := by
  obtain ⟨r, hr⟩ := exec_checkPath path.toText
  rw [resolve, exec_bind, hr]
  cases r with
  | error e => rfl
  | ok _ =>
    simp only [exec_bind, exec_files]
    split
    · split <;> rfl
    · rfl

theorem isWithin_parts {directory path : FilePath} (h : isWithin directory path = true) :
    directory.parts <+: path.parts := by
  simp only [isWithin, Bool.or_eq_true, decide_eq_true_eq, Bool.and_eq_true, List.isPrefixOf_iff_prefix] at h
  rcases h with rfl | ⟨-, h⟩
  · exact List.prefix_rfl
  · exact h

theorem keeps_checkMembers {P : Machine → Prop} (target : Text) (names : List Text) : Keeps P (checkMembers target names) := by
  unfold checkMembers
  have hresolve (path : FilePath) : Keeps P (resolve path) := keeps_of_exec fun _ => exec_resolve path
  refine (hresolve _).bind fun root => Keeps.forM fun name _ => (hresolve _).bind fun path => ?_
  exact Keeps.ite (fun _ => keeps_throw _) fun _ => keeps_pure _

/-- The resolved path of every name that passes continues that of the target. -/
theorem checkMembers_ok (h : exec (checkMembers target names) m = (.ok (), m')) : m' = m ∧ ∀ name ∈ names,
    Path.names (m.files.resolvedText (FilePath.ofText target).toText) <+: Path.names
      (m.files.resolvedText (FilePath.ofText (m.files.resolvedText (FilePath.ofText target).toText) / name).toText) := by
  rw [checkMembers, bind_ok] at h
  obtain ⟨root, m₁, hroot, h⟩ := h
  obtain ⟨rfl, rfl⟩ := resolve_ok hroot
  induction names with
  | nil =>
    cases h
    exact ⟨rfl, by simp⟩
  | cons first rest ih =>
    obtain ⟨_, m₂, hfirst, hrest⟩ := bind_ok.1 h
    obtain ⟨path, m₃, hpath, hwithin⟩ := bind_ok.1 hfirst
    obtain ⟨rfl, rfl⟩ := resolve_ok hpath
    split at hwithin
    · cases hwithin
    · rename_i hok
      cases hwithin
      obtain ⟨hm, hall⟩ := ih hrest
      refine ⟨hm, fun name hname => ?_⟩
      rcases List.mem_cons.1 hname with rfl | hname
      · rw [Bool.not_eq_true, Bool.not_eq_false'] at hok
        exact isWithin_parts hok
      · exact hall name hname

/-- Names that lead down and pass the check lead inward. Absolute ones have to be resolved for that, and must not lead through
links on the way that lead up unless no links are made. -/
theorem staysInward_of_check {links : Links} {base : FileSystem} (hinner : Inner links) (hbase : Barren roots base)
    (hdirs : ∀ r ∈ roots, base.IsDir r) (hsealed : Sealed .none roots base m.files) (hr : r ∈ roots) (hne : target ≠ [])
    (htarget : base.status target true = .ok (r, .directory mode)) (hdown : Path.Downward name)
    (hfollow : Path.isAbsolute name = true → base.Resolvable target ∧ (base.LinksDownward ∨ ∀ t, ¬ links.symbolic t))
    (hcheck : exec (checkMembers target names) m = (.ok (), m')) (hname : name ∈ names) :
    StaysInward links roots base (Path.join target name) := by
  by_cases habs : Path.isAbsolute name = true
  · have hwithin := (checkMembers_ok hcheck).2 name hname
    rw [FilePath.div_of_absolute _ habs] at hwithin
    rw [Path.join_of_absolute habs]
    obtain ⟨hresolvable, hlinks⟩ := hfollow habs
    obtain ⟨mode', htarget'⟩ := hsealed.status hbase htarget
    have hnone : ∀ l, r <+: l → ¬ m.files.IsLink l := fun l hl => hsealed.not_isLink (fun _ => id) ⟨r, hr, hl⟩
    have hin := (inward_of_within hsealed.rooted hnone hr (hresolvable.of_sameLinks (hsealed.sameLinks (fun _ => id) hbase) hsealed.cwd)
      htarget' habs hdown hwithin).before (fun _ => id) hbase hsealed
    rcases hlinks with hlinks | hlinks
    · exact staysInward_of_linksDownward hinner hdirs hlinks hdown hin
    · exact staysInward_of_inward hlinks hbase hin
  · exact staysInward_join hinner hbase hr htarget hne (by simpa using habs) hdown

end Action

end Prebuilt
