import Prebuilt.Install.Staging
import Prebuilt.Proofs.Actions.Looking
import Prebuilt.Proofs.Actions.Replacing
/-!
Putting a staging directory in place while nobody else is at work. Either the files stay as they are, or the staging
directory takes the destination's place and nothing is left of what stood there.
-/
set_option autoImplicit false

namespace Prebuilt

open FileSystem Action

variable {m m' : Machine} {i : Installation} {dependency : Dependency} {plan : Plan}

/-! ## Looking for an installation -/

theorem Installation.looks_hasBinary (i : Installation) (binary : Text) : Looks (i.hasBinary binary) := by
  refine (looks_ofExcept _).bind fun path => (looks_isFile _).bind fun there => ?_
  exact Looks.ite (looks_files.bind fun _ => looks_pure _) (looks_pure _)

theorem Installation.looks_marker? (i : Installation) : Looks i.marker? := by
  refine (looks_ofExcept _).bind fun path => Looks.catching ((looks_readText _).map _) fun e action h => ?_
  split at h
  · rw [← Option.some.inj h]
    exact looks_pure _
  · cases h

theorem Installation.looks_isInstalled (i : Installation) (dependency : Dependency) : Looks (i.isInstalled dependency) := by
  refine i.looks_marker?.bind fun marker => ?_
  cases marker with
  | none => exact looks_pure _
  | some text => exact Looks.ite (Looks.allM i.looks_hasBinary) (looks_pure _)

theorem Installation.exec_isInstalled (i : Installation) (dependency : Dependency) (m : Machine) :
    (exec (i.isInstalled dependency) m).2 = m := (i.looks_isInstalled dependency).still m

theorem Installation.exec_isSettled (i : Installation) (plan : Plan) (m : Machine) : (exec (i.isSettled plan) m).2 = m := by
  unfold isSettled
  split
  · rfl
  · exact i.exec_isInstalled _ m

theorem Installation.isSettled_true (h : exec (i.isSettled plan) m = (.ok true, m')) :
    plan.isForced = false ∧ exec (i.isInstalled plan.dependency) m = (.ok true, m') := by
  unfold isSettled at h
  split at h
  · cases h
  · rename_i hforced
    exact ⟨by simpa using hforced, h⟩

/-! ## One attempt -/

/-- A destination, a staging directory and a free name for what is moved aside, side by side: the core is the file system
without any of them, and their paths depend on nothing else. -/
structure Site (core : FileSystem) (p : FilePath) (d : Location) (staged aside : Text) : Prop where
  home : core.Home p d
  parts : p.parts ≠ []
  name : IsComponent p.name
  short : byteLength p.name ≤ nameLimit
  vacant : core.Vacant (child d p.name)
  staging : Slot core (p.beside staged).toText (child d staged)
  apart : Siblings (child d p.name) (child d staged)
  asideName : IsComponent aside
  asideVacant : core.Vacant (child d aside)
  asideApart : Siblings (child d p.name) (child d aside)
  asideStaging : Siblings (child d aside) (child d staged)

variable {core : FileSystem} {p : FilePath} {d : Location} {staged aside : Text}

theorem exec_race (hraces : m.races = []) : exec race m = (.ok (), m) := by
  rw [race, exec_bind_of_ok exec_get, hraces]
  rfl

theorem Installation.exec_place (hraces : m.races = []) {staging destination : FilePath}
    (h : exec (rename staging.toText destination.toText) m = (.ok (), m')) :
    exec (i.place plan staging destination) m = (.ok (some true), m') := by
  rw [place, exec_bind_of_ok (exec_race hraces), exec_bind_of_ok (exec_attempt _), h]
  rfl

/-- Moving something aside, putting the staged tree in its place and removing it is moving the staged tree there. -/
theorem get?_replaced {fs : FileSystem} {a b c : Location} (hsound : fs.Sound) (hab : Siblings a b) (hac : Siblings a c)
    (hcb : Siblings c b) (ha : Nameable a) (hc : Nameable c) (hdir : fs.IsDir a.dropLast) (hfree : fs.get? c = none)
    (l : Location) : (cleared ((fs.move a c).move b a) c).get? l = (fs.move b a).get? l := by
  have hmoved : (fs.move a c).Sound := hsound.move hac.not_prefix hac.symm.not_prefix hc (hac.dropLast ▸ hdir)
  have hdir' : (fs.move a c).IsDir a.dropLast := by
    obtain ⟨mode, hm⟩ := hdir
    exact ⟨mode, by rw [hac.get?_move, if_neg hac.symm.not_prefix_dropLast, if_neg (not_prefix_dropLast hac.left), hm]⟩
  have hplaced := hmoved.move hab.symm.not_prefix hab.not_prefix ha hdir'
  rw [get?_cleared hplaced.rooted hac.right, hab.symm.get?_move]
  by_cases hl : c <+: l
  · rw [if_pos hl, hab.symm.get?_move, if_neg (hac.symm.disjoint hl), if_neg (hcb.disjoint hl),
      vacant_of_none hsound.rooted hfree l hl]
  · rw [if_neg hl, hab.symm.get?_move]
    by_cases hla : a <+: l
    · have hb : b <+: b ++ l.drop a.length := List.prefix_append ..
      rw [if_pos hla, if_pos hla, hac.get?_move, if_neg (hcb.symm.disjoint hb), if_neg (hab.symm.disjoint hb)]
    · by_cases hlb : b <+: l
      · rw [if_neg hla, if_pos hlb, if_neg hla, if_pos hlb]
      · rw [if_neg hla, if_neg hlb, if_neg hla, if_neg hlb, hac.get?_move, if_neg hl, if_neg hla]

/-- The machine with what was staged in the place of what stood at the destination. -/
structure Replaced (m : Machine) (s t : Location) (m' : Machine) : Prop where
  world : m' = { m with files := m'.files, identifiers := m'.identifiers }
  get? : ∀ l, m'.files.get? l = (m.files.move s t).get? l
  next : m'.files.nextNumber = m.files.nextNumber
  cwd : ¬ s <+: m.files.workingDirectory → ¬ t <+: m.files.workingDirectory → m'.files.workingDirectory = m.files.workingDirectory

theorem nextNumber_cleared (fs : FileSystem) (l : Location) : (cleared fs l).nextNumber = fs.nextNumber := by
  unfold cleared
  split <;> rfl

theorem workingDirectory_cleared (fs : FileSystem) (l : Location) : (cleared fs l).workingDirectory = fs.workingDirectory := by
  unfold cleared
  split <;> rfl

theorem workingDirectory_move {fs : FileSystem} {s t : Location} (h : ¬ s <+: fs.workingDirectory) :
    (fs.move s t).workingDirectory = fs.workingDirectory := moveLocation_of_outside h

/-- Nothing changes, or the staged tree replaces what stood at the destination. With force only a name that does not suit is in
the way of that. -/
theorem Installation.settle_alone (i : Installation) (plan : Plan) (hsite : Site core p d staged aside) (hext : core.Extends m.files)
    (hsound : m.files.Sound) (hraces : m.races = []) (hnext : nextAside m p.toText = (p.beside aside).toText)
    (hfree : m.files.get? (child d aside) = none) (hstaged : m.files.IsDir (child d staged)) (left : Nat) :
    (∃ r n, exec (i.settle plan (p.beside staged) p (left + 1)) m = (r, { m with identifiers := n }) ∧ r ≠ .ok true ∧
        (r = .ok false → plan.isForced = false ∧ (exec (i.isInstalled plan.dependency) m).1 = .ok true) ∧
          (plan.isForced = true → ¬ Suits p aside)) ∨
      ∃ m', exec (i.settle plan (p.beside staged) p (left + 1)) m = (.ok true, m') ∧
        Replaced m (child d staged) (child d p.name) m' := by
  have hdest : p.beside p.name = p := FilePath.beside_name hsite.parts
  have hplacing (m₁ : Machine) (hraces : m₁.races = []) (hext : core.Extends m₁.files) (hslot : Slot core p.toText (child d p.name))
      (hnone : m₁.files.get? (child d p.name) = none) (hstaged : m₁.files.get? (child d staged) ≠ none) :
      exec (i.place plan (p.beside staged) p) m₁ =
        (.ok (some true), { m₁ with files := m₁.files.move (child d staged) (child d p.name) }) := by
    refine exec_place hraces ?_
    obtain ⟨node, hg⟩ := Option.ne_none_iff_exists'.1 hstaged
    rw [hsite.staging.rename hslot hsite.apart.symm hext, renamed, hg, hnone]
  have hslot (hfits : Fits p p.name) (hsend : IsSendable p.toText) : Slot core p.toText (child d p.name) := by
    have haddresses := hsite.home.addresses hfits
    rw [hdest] at haddresses
    exact ⟨haddresses, hsite.vacant, hsend⟩
  rw [Installation.settle]
  rcases hlook : exec (i.isSettled plan) m with ⟨r, m₁⟩
  obtain rfl : m₁ = m := by
    have hsame := i.exec_isSettled plan m
    rwa [hlook] at hsame
  cases r with
  | error e =>
    refine .inl ⟨.error e, m₁.identifiers, exec_bind_of_error hlook, by simp, by simp, fun hforced => ?_⟩
    rw [isSettled, if_pos hforced] at hlook
    cases hlook
  | ok current =>
  rw [exec_bind_of_ok hlook]
  cases current with
  | true =>
    obtain ⟨hforced, hinstalled⟩ := i.isSettled_true hlook
    exact .inl ⟨.ok false, m₁.identifiers, rfl, by simp, fun _ => ⟨hforced, by rw [hinstalled]⟩, by simp [hforced]⟩
  | false =>
  simp only [Bool.false_eq_true, if_false]
  rcases exec_moveAside_beside (hsite.home.of_extends hext) hsite.parts hsite.name hsite.short hnext hsite.asideName
    hsite.asideApart.canonical_ne hfree with ⟨e, he, hsuits⟩ | ⟨hfits, hsend, ⟨hnone, he⟩ | ⟨hfits', hsend', hthere, he⟩⟩
  · exact .inl ⟨.error e, _, exec_bind_of_error he, by simp, by simp, fun _ => hsuits⟩
  · have hplace := hplacing (counted m₁) hraces hext (hslot hfits hsend) hnone hstaged.get?_ne_none
    refine .inr ⟨{ counted m₁ with files := m₁.files.move (child d staged) (child d p.name) }, ?_, rfl, fun _ => rfl, rfl,
      fun hs _ => workingDirectory_move hs⟩
    rw [exec_bind_of_ok he, exec_bind_of_ok (by rw [exec_ensure, hplace]; rfl)]
    rfl
  · have hdest := hslot hfits hsend
    have haside : Slot core (p.beside aside).toText (child d aside) := ⟨hsite.home.addresses hfits', hsite.asideVacant, hsend'⟩
    obtain ⟨files, hmoved⟩ : ∃ files, files = m₁.files.move (child d p.name) (child d aside) := ⟨_, rfl⟩
    have hext' : core.Extends files :=
      hmoved ▸ hext.move hsite.vacant hsite.asideVacant hsite.asideApart.not_prefix hsite.asideApart.symm.not_prefix
    have hnone : files.get? (child d p.name) = none := by
      rw [hmoved, hsite.asideApart.get?_move, if_neg hsite.asideApart.symm.not_prefix, if_pos List.prefix_rfl]
    have hstaged' : files.get? (child d staged) ≠ none := by
      rw [hmoved, hsite.asideApart.get?_move, if_neg hsite.asideStaging.not_prefix, if_neg hsite.apart.not_prefix]
      exact hstaged.get?_ne_none
    rw [← hmoved] at he
    have hplace := hplacing { counted m₁ with files } hraces hext' hdest hnone hstaged'
    have hclear := haside.removePath (m := { counted m₁ with files := files.move (child d staged) (child d p.name) })
      (hext'.move hsite.staging.vacant hsite.vacant hsite.apart.symm.not_prefix hsite.apart.not_prefix)
    have hdir : m₁.files.IsDir (child d p.name).dropLast := by simpa [child] using hext.dir d hsite.home.isDir
    refine .inr ⟨{ counted m₁ with
      files := cleared (files.move (child d staged) (child d p.name)) (child d aside) }, ?_, rfl, fun l => ?_, ?_, fun hs ht => ?_⟩
    · rw [exec_bind_of_ok he, exec_bind_of_ok (by rw [exec_ensure, hplace, removeAside, hclear])]
      rfl
    · rw [hmoved]
      exact get?_replaced hsound hsite.apart hsite.asideApart hsite.asideStaging hfits.nameable hfits'.nameable hdir hfree l
    · show (cleared _ _).nextNumber = _
      rw [nextNumber_cleared, hmoved]
      rfl
    · have hcwd : files.workingDirectory = m₁.files.workingDirectory := by rw [hmoved, workingDirectory_move ht]
      show (cleared _ _).workingDirectory = _
      rw [workingDirectory_cleared, workingDirectory_move (by rwa [hcwd]), hcwd]

end Prebuilt
