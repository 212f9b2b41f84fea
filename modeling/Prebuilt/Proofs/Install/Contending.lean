import Mathlib.Algebra.BigOperators.Fin
import Prebuilt.Proofs.Install.Entering
import Prebuilt.Proofs.Install.Racing
/-!
Installers that contend for one destination. Any number of them take their steps in any order, and what they move between the destination,
their staging directories and the names aside are whole trees; so at any time each of these places holds one tree or none.
-/
set_option autoImplicit false

namespace Prebuilt

open FileSystem Action FilePath

/-- The tree of a place where nothing stands. -/
def Tree.bare : Tree := fun _ => none

/-- Installers that carry out one plan, each forced or not, with a staging directory of its own beside the destination. -/
structure Contest (n : Nat) where
  installation : Installation
  plan : Plan
  force : Fin n → Json
  staged : Fin n → Text

namespace Contest

variable {n : Nat} (c : Contest n)

def planOf (k : Fin n) : Plan := { c.plan with force := c.force k }

def staging (k : Fin n) : FilePath := c.plan.path.beside (c.staged k)

/-- How far each has come, on the machine that they share. -/
structure State (n : Nat) where
  stages : Fin n → Stage
  machine : Machine

/-- All are about to make their first attempt. -/
def start (m : Machine) : State n := ⟨fun _ => .checking Installation.attempts, m⟩

/-- One of them takes its next step. -/
def step (s : State n) (k : Fin n) : State n :=
  let (stage, m) := (s.stages k).next c.installation (c.planOf k) (c.staging k) s.machine
  ⟨Function.update s.stages k stage, m⟩

/-- They take their steps in this order. -/
def run (s : State n) (schedule : List (Fin n)) : State n := schedule.foldl c.step s

/-! ## Spots -/

/-- The places that things are moved between. -/
inductive Spot (n : Nat) where
  | destination
  | staging (k : Fin n)
  | aside (j : Fin (Installation.attempts * n))
  deriving DecidableEq

theorem Spot.forall_iff {P : Spot n → Prop} : (∀ x, P x) ↔ P .destination ∧ (∀ k, P (.staging k)) ∧ ∀ j, P (.aside j) := by
  refine ⟨fun h => ⟨h _, fun _ => h _, fun _ => h _⟩, ?_⟩
  rintro ⟨hdestination, hstaging, haside⟩ (_ | k | j)
  · exact hdestination
  · exact hstaging k
  · exact haside j

instance {P : Spot n → Prop} [DecidablePred P] : Decidable (∀ x, P x) := decidable_of_iff _ Spot.forall_iff.symm

/-- The name of each; the names aside are the next that are given out. -/
def name (m : Machine) : Spot n → Text
  | .destination => c.plan.path.name
  | .staging k => c.staged k
  | .aside j => c.plan.path.asideName (Text.hex 32 (m.identifiers + j + 1))

def path (m : Machine) (x : Spot n) : FilePath := c.plan.path.beside (c.name m x)

def spot (m : Machine) (d : Location) (x : Spot n) : Location := child d (c.name m x)

/-- Nothing is different but what stands at the spots, and how many names were given out. -/
structure Apart (core : FileSystem) (d : Location) (m m' : Machine) : Prop where
  world : m' = { m with files := m'.files, identifiers := m'.identifiers }
  sound : m'.files.Sound
  lasting : core.Extends m'.files
  rest : ∀ l, (∀ x, ¬ c.spot m d x <+: l) → m'.files.get? l = m.files.get? l

/-- As long as the tree stands at the destination the check gives this answer, whatever is at the other spots. -/
def Judges (core : FileSystem) (d : Location) (m : Machine) (tree : Tree) (current : Bool) : Prop :=
  ∀ m', c.Apart core d m m' → m'.files.tree (c.spot m d .destination) = tree →
    (exec (c.installation.isInstalled c.plan.dependency) m').1 = .ok current

/-- The directory of the destination is there, and a staging directory in it for each installer, which would be found current at the
destination. About what stands at the destination the check can tell. The core is the file system without the spots; the path of the
destination leads through the core. -/
structure Opening (core : FileSystem) (d : Location) (m : Machine) : Prop where
  sound : m.files.Sound
  races : m.races = []
  destination : c.installation.destination = .ok c.plan.path
  downward : Path.Downward c.plan.path.toText
  home : core.Home c.plan.path d
  lasting : core.Extends m.files
  vacant : ∀ x, core.Vacant (c.spot m d x)
  suits : ∀ x, Fits c.plan.path (c.name m x) ∧ IsSendable (c.path m x).toText
  distinct : ∀ x y, x ≠ y → Name.canonical (c.name m x) ≠ Name.canonical (c.name m y)
  free : ∀ j, m.files.get? (c.spot m d (.aside j)) = none
  staged : ∀ k, m.files.IsDir (c.spot m d (.staging k))
  marked : ∀ k, m.files.get? (child (c.spot m d (.staging k)) Installation.markerName) ≠ none
  complete : ∀ k, c.Judges core d m (m.files.tree (c.spot m d (.staging k))) true
  initial : ∃ current, c.Judges core d m (m.files.tree (c.spot m d .destination)) current

variable {c} {core : FileSystem} {d : Location} {m m₁ : Machine} {x y : Spot n}

theorem apart_refl (hsound : m.files.Sound) (hext : core.Extends m.files) : c.Apart core d m m := ⟨rfl, hsound, hext, fun _ _ => rfl⟩

theorem spot_ne_nil (x : Spot n) : c.spot m d x ≠ [] := child_ne_nil

theorem path_destination (h : c.Opening core d m) : c.path m .destination = c.plan.path :=
  beside_name (ne_nil_of_name (h.suits .destination).1.component)

namespace Opening

variable (h : c.Opening core d m)
include h

theorem siblings (hxy : x ≠ y) : Siblings (c.spot m d x) (c.spot m d y) := siblings_child (h.distinct x y hxy)

theorem slot (x : Spot n) : Slot core (c.path m x).toText (c.spot m d x) := ⟨h.home.addresses (h.suits x).1, h.vacant x, (h.suits x).2⟩

theorem slot_destination : Slot core c.plan.path.toText (c.spot m d .destination) := path_destination h ▸ h.slot .destination

theorem path_inj (hpath : (c.path m x).toText = (c.path m y).toText) : x = y := by
  by_contra hxy
  rw [path, path, toText_beside _ (h.suits x).1.component.ne_nil, toText_beside _ (h.suits y).1.component.ne_nil] at hpath
  exact h.distinct x y hxy (congrArg Name.canonical (List.append_cancel_left hpath))

/-! ## What moves and removals do to the trees -/

theorem tree_move (fs : FileSystem) (hxy : x ≠ y) (z : Spot n) : (fs.move (c.spot m d x) (c.spot m d y)).tree (c.spot m d z) =
    if z = y then fs.tree (c.spot m d x) else if z = x then Tree.bare else fs.tree (c.spot m d z) := by
  funext l
  rw [tree_apply, (h.siblings hxy).get?_move]
  have hout {y : Spot n} (hzy : z ≠ y) : ¬ c.spot m d y <+: c.spot m d z ++ l :=
    (h.siblings hzy).disjoint (List.prefix_append ..)
  by_cases hzy : z = y
  · subst hzy
    rw [if_pos (List.prefix_append ..), if_pos rfl, List.drop_left, tree_apply]
  · rw [if_neg (hout hzy), if_neg hzy]
    by_cases hzx : z = x
    · subst hzx
      rw [if_pos (List.prefix_append ..), if_pos rfl]
      rfl
    · rw [if_neg (hout hzx), if_neg hzx, tree_apply]

theorem tree_cleared {fs : FileSystem} (hroot : fs.Rooted) (x z : Spot n) : (cleared fs (c.spot m d x)).tree (c.spot m d z) =
    if z = x then Tree.bare else fs.tree (c.spot m d z) := by
  funext l
  rw [tree_apply, get?_cleared hroot (spot_ne_nil x)]
  by_cases hzx : z = x
  · subst hzx
    rw [if_pos (List.prefix_append ..), if_pos rfl]
    rfl
  · rw [if_neg ((h.siblings hzx).disjoint (List.prefix_append ..)), if_neg hzx, tree_apply]

theorem apart_move (hm : c.Apart core d m m₁) (hxy : x ≠ y) (identifiers : Nat) :
    c.Apart core d m { m₁ with files := m₁.files.move (c.spot m d x) (c.spot m d y), identifiers := identifiers } where
  world := by rw [hm.world]
  sound := by
    refine hm.sound.move (Siblings.not_prefix (h.siblings hxy)) (Siblings.not_prefix (h.siblings hxy.symm)) (h.suits y).1.nameable ?_
    rw [spot, child, List.dropLast_concat]
    exact hm.lasting.dir d h.home.isDir
  lasting := hm.lasting.move (h.vacant x) (h.vacant y) (Siblings.not_prefix (h.siblings hxy)) (Siblings.not_prefix (h.siblings hxy.symm))
  rest l hl := by rw [(h.siblings hxy).get?_move, if_neg (hl y), if_neg (hl x), hm.rest l hl]

theorem apart_cleared (hm : c.Apart core d m m₁) (x : Spot n) :
    c.Apart core d m { m₁ with files := cleared m₁.files (c.spot m d x) } where
  world := by rw [hm.world]
  sound := by
    unfold cleared
    split
    · exact hm.sound
    · exact hm.sound.without child_ne_nil
    · rename_i node hnode hg
      refine hm.sound.erase child_ne_nil ?_
      rintro ⟨mode, hdir⟩
      exact hnode mode (Option.some.inj (hg.symm.trans hdir))
  lasting := by
    unfold cleared
    split
    · exact hm.lasting
    · exact hm.lasting.without (h.vacant x)
    · exact hm.lasting.erase (h.vacant x)
  rest l hl := by rw [get?_cleared hm.sound.rooted (spot_ne_nil x), if_neg (hl x), hm.rest l hl]

end Opening

/-! ## Who is where -/

/-- What stands at the destination. -/
inductive Occupant (n : Nat) where
  | nothing
  /-- What stood there at the beginning, be it nothing. -/
  | initial
  /-- What an installer has staged. -/
  | staged (k : Fin n)

variable (c) in
def Occupant.tree (d : Location) (m : Machine) : Occupant n → Tree
  | .nothing => Tree.bare
  | .initial => m.files.tree (c.spot m d .destination)
  | .staged k => m.files.tree (c.spot m d (.staging k))

/-- Whether it is current, given whether what stood there at the beginning is. -/
def Occupant.isCurrent (current : Bool) : Occupant n → Bool
  | .nothing => false
  | .initial => current
  | .staged _ => true

end Contest

namespace Stage

/-- The staging directory is still where it was made. -/
def keeps : Stage → Bool
  | .clearing _ _ (.ok (some true)) => false
  | .ended _ => false
  | _ => true

/-- What was moved aside and is to be removed. -/
def aside? : Stage → Option Text
  | .placing _ aside => aside
  | .rechecking _ aside => aside
  | .clearing _ aside _ => aside
  | _ => none

/-- How many more names may be used. -/
def names : Stage → Nat
  | .checking left => left
  | .moving left => left + 1
  | .placing left _ => left
  | .rechecking left _ => left
  | .clearing left _ _ => left
  | _ => 0

theorem keeps_following {left : Nat} {aside : Option Text} {placed : Except Error (Option Bool)} :
    (following left placed).keeps = (clearing left aside placed).keeps := by
  rcases placed with e | _ | _ | _ <;> rfl

theorem aside?_following {left : Nat} {placed : Except Error (Option Bool)} : (following left placed).aside? = none := by
  rcases placed with e | _ | _ | _ <;> rfl

theorem names_following {left : Nat} {placed : Except Error (Option Bool)} : (following left placed).names ≤ left := by
  rcases placed with e | _ | _ | _
  · exact Nat.zero_le _
  · exact Nat.le_refl _
  · exact Nat.zero_le _
  · exact Nat.zero_le _

end Stage

namespace Contest

variable {n : Nat} {c : Contest n} {core : FileSystem} {d : Location} {m m₁ : Machine} {s : State n} {o o' : Occupant n}
  {answer : Bool} {k : Fin n} {stage : Stage}

/-- Who is where: what stands at the destination, which staging directories are still there, and what was moved aside. -/
structure Scene (c : Contest n) (core : FileSystem) (d : Location) (m : Machine) (s : State n) (o : Occupant n) : Prop where
  apart : c.Apart core d m s.machine
  destination : s.machine.files.tree (c.spot m d .destination) = o.tree c d m
  staging : ∀ k, s.machine.files.tree (c.spot m d (.staging k)) =
    if (s.stages k).keeps then m.files.tree (c.spot m d (.staging k)) else Tree.bare
  held : ∀ k path, (s.stages k).aside? = some path →
    ∃ j, path = (c.path m (.aside j)).toText ∧ m.identifiers + j < s.machine.identifiers
  single : ∀ k k' path, (s.stages k).aside? = some path → (s.stages k').aside? = some path → k = k'
  clean : ∀ j, (∀ k, (s.stages k).aside? ≠ some (c.path m (.aside j)).toText) →
    s.machine.files.tree (c.spot m d (.aside j)) = Tree.bare
  given : m.identifiers ≤ s.machine.identifiers
  enough : s.machine.identifiers + ∑ k, (s.stages k).names ≤ m.identifiers + Installation.attempts * n

/-- One step of an installer, and what it does at the destination. -/
inductive Turn (c : Contest n) (current : Bool) (k : Fin n) : Stage → Occupant n → Stage → Occupant n → Prop
  | spent {o : Occupant n} :
      Turn c current k (.checking 0) o (.leaving (.error (.download (.notPlaced c.plan.key c.plan.path.toText)))) o
  | stays {left : Nat} {o : Occupant n} : (c.planOf k).isForced = false → o.isCurrent current = true →
      Turn c current k (.checking (left + 1)) o (.leaving (.ok false)) o
  | begins {left : Nat} {o : Occupant n} : (c.planOf k).isForced = true ∨ o.isCurrent current = false →
      Turn c current k (.checking (left + 1)) o (.moving left) o
  | moves {left : Nat} {aside : Option Text} {o : Occupant n} : Turn c current k (.moving left) o (.placing left aside) .nothing
  | places {left : Nat} {aside : Option Text} :
      Turn c current k (.placing left aside) .nothing (.clearing left aside (.ok (some true))) (.staged k)
  | blocked {left : Nat} {aside : Option Text} {k' : Fin n} :
      Turn c current k (.placing left aside) (.staged k') (.rechecking left aside) (.staged k')
  | rechecks {left : Nat} {aside : Option Text} {o : Occupant n} : Turn c current k (.rechecking left aside) o
      (.clearing left aside (.ok (if o.isCurrent current then some false else none))) o
  | clears {left : Nat} {aside : Option Text} {placed : Except Error (Option Bool)} {o : Occupant n} :
      Turn c current k (.clearing left aside placed) o (.following left placed) o
  | leaves {result : Except Error Bool} {o : Occupant n} : Turn c current k (.leaving result) o (.ended result) o
  | rests {result : Except Error Bool} {o : Occupant n} : Turn c current k (.ended result) o (.ended result) o

theorem sum_update {α : Type} (stages : Fin n → α) (f : α → Nat) (k : Fin n) (stage : α) :
    ∑ k', f (Function.update stages k stage k') + f (stages k) = ∑ k', f (stages k') + f stage := by
  have hcomp : (fun k' => f (Function.update stages k stage k')) = Function.update (fun k' => f (stages k')) k (f stage) :=
    Function.comp_update f stages k stage
  rw [hcomp, Finset.sum_update_of_mem (Finset.mem_univ k), Finset.sum_eq_sum_sdiff_singleton_add (Finset.mem_univ k)]
  omega

/-- A step of one installer changes the scene as far as that installer is concerned. -/
theorem Scene.turn (h : c.Opening core d m) (hs : c.Scene core d m s o) {s' : State n}
    (hself : s'.stages k = stage) (hrest : ∀ k', k' ≠ k → s'.stages k' = s.stages k') (hapart : c.Apart core d m s'.machine)
    (hdestination : s'.machine.files.tree (c.spot m d .destination) = o'.tree c d m)
    (hstaging : ∀ k', s'.machine.files.tree (c.spot m d (.staging k')) =
      if k' = k then (if stage.keeps then m.files.tree (c.spot m d (.staging k)) else Tree.bare)
      else s.machine.files.tree (c.spot m d (.staging k')))
    (haside : ∀ j, stage.aside? = some (c.path m (.aside j)).toText ∨ s'.machine.files.tree (c.spot m d (.aside j)) = Tree.bare ∨
      (s.stages k).aside? ≠ some (c.path m (.aside j)).toText ∧
        s'.machine.files.tree (c.spot m d (.aside j)) = s.machine.files.tree (c.spot m d (.aside j)))
    (hheld : ∀ path, stage.aside? = some path → (s.stages k).aside? = some path ∨
      ∃ j, path = (c.path m (.aside j)).toText ∧ m.identifiers + j = s.machine.identifiers ∧
        s.machine.identifiers < s'.machine.identifiers)
    (hgiven : s.machine.identifiers ≤ s'.machine.identifiers)
    (henough : s'.machine.identifiers + stage.names ≤ s.machine.identifiers + (s.stages k).names) :
    c.Scene core d m s' o' := by
  -- What the installer holds is new, or it held it before; so nobody else does.
  have hother {k' : Fin n} {path : Text} (hnew : stage.aside? = some path) (hold : (s.stages k').aside? = some path) : k' = k := by
    rcases hheld path hnew with hsame | ⟨j, rfl, hj, -⟩
    · exact hs.single k' k path hold hsame
    · obtain ⟨j', hpath, hj'⟩ := hs.held k' _ hold
      cases h.path_inj hpath
      omega
  exact {
    apart := hapart
    destination := hdestination
    staging := fun k' => by
      rw [hstaging]
      by_cases hk : k' = k
      · rw [if_pos hk, hk, hself]
      · rw [if_neg hk, hrest k' hk, hs.staging]
    held := fun k' path hpath => by
      have hold (hpath : (s.stages k').aside? = some path) :
          ∃ j, path = (c.path m (.aside j)).toText ∧ m.identifiers + j < s'.machine.identifiers := by
        obtain ⟨j, rfl, hj⟩ := hs.held k' path hpath
        exact ⟨j, rfl, hj.trans_le hgiven⟩
      by_cases hk : k' = k
      · subst hk
        rcases hheld path (hself ▸ hpath) with hpath | ⟨j, rfl, hj, hlt⟩
        · exact hold hpath
        · exact ⟨j, rfl, hj ▸ hlt⟩
      · exact hold (hrest k' hk ▸ hpath)
    single := fun k₁ k₂ path h₁ h₂ => by
      by_cases hk₁ : k₁ = k <;> by_cases hk₂ : k₂ = k
      · rw [hk₁, hk₂]
      · rw [hk₁]
        rw [hk₁, hself] at h₁
        exact (hother h₁ (hrest k₂ hk₂ ▸ h₂)).symm
      · rw [hk₂]
        rw [hk₂, hself] at h₂
        exact hother h₂ (hrest k₁ hk₁ ▸ h₁)
      · exact hs.single k₁ k₂ path (hrest k₁ hk₁ ▸ h₁) (hrest k₂ hk₂ ▸ h₂)
    clean := fun j hnobody => by
      rcases haside j with hnew | hbare | ⟨hnot, hsame⟩
      · exact absurd (hself ▸ hnew) (hnobody k)
      · exact hbare
      · rw [hsame]
        refine hs.clean j fun k' => ?_
        by_cases hk : k' = k
        · exact hk ▸ hnot
        · exact hrest k' hk ▸ hnobody k'
    given := hs.given.trans hgiven
    enough := by
      have hstages : s'.stages = Function.update s.stages k stage := funext fun k' => by
        by_cases hk : k' = k
        · rw [hk, hself, Function.update_self]
        · rw [hrest k' hk, Function.update_of_ne hk]
      have hsum := sum_update s.stages Stage.names k stage
      rw [← hstages] at hsum
      have henough' := hs.enough
      omega }

/-- A step that leaves everything where it is. -/
theorem Scene.still (h : c.Opening core d m) (hs : c.Scene core d m s o) {s' : State n} (hself : s'.stages k = stage)
    (hrest : ∀ k', k' ≠ k → s'.stages k' = s.stages k') (hm : s'.machine = { s.machine with identifiers := s'.machine.identifiers })
    (htree : o'.tree c d m = o.tree c d m) (hkeeps : stage.keeps = (s.stages k).keeps) (haside : stage.aside? = (s.stages k).aside?)
    (hgiven : s.machine.identifiers ≤ s'.machine.identifiers)
    (henough : s'.machine.identifiers + stage.names ≤ s.machine.identifiers + (s.stages k).names) :
    c.Scene core d m s' o' := by
  have hfiles : s'.machine.files = s.machine.files := by rw [hm]
  have hapart : c.Apart core d m s'.machine :=
    ⟨by rw [hm, hs.apart.world], hfiles ▸ hs.apart.sound, hfiles ▸ hs.apart.lasting, hfiles ▸ hs.apart.rest⟩
  refine hs.turn h hself hrest hapart (by rw [hfiles, hs.destination, htree]) (fun k' => ?_) (fun j => ?_)
    (fun path hpath => .inl (haside ▸ hpath)) hgiven henough
  · rw [hfiles]
    split
    · rename_i heq
      rw [heq, hs.staging, hkeeps]
    · rfl
  · by_cases hheld : (s.stages k).aside? = some (c.path m (.aside j)).toText
    · exact .inl (haside ▸ hheld)
    · exact .inr (.inr ⟨hheld, by rw [hfiles]⟩)

/-! ## What the steps come to -/

/-- Where nothing stands nothing is current. -/
theorem judges_bare (hdestination : c.installation.destination = .ok c.plan.path) (hhome : core.Home c.plan.path d)
    (hname : IsComponent c.plan.path.name) (hsend : IsSendable c.plan.path.toText) : c.Judges core d m Tree.bare false := by
  intro m₁ hm₁ htree
  have hmarker : IsComponent Installation.markerName := ⟨⟨by decide, by decide⟩, by decide⟩
  have hnone : m₁.files.get? (child d c.plan.path.name) = none := by
    have hroot := congrFun htree []
    rwa [tree_apply, List.append_nil] at hroot
  obtain ⟨e, hstatus⟩ := (hhome.of_extends hm₁.lasting).status_under_none hname hmarker hnone
  have hread (bytes : Bytes) : m₁.files.read (c.plan.path / Installation.markerName).toText ≠ .ok bytes := by
    rw [div_eq_under_one _ hmarker, FileSystem.read, hstatus]
    exact fun hbytes => by cases hbytes
  have hlegible : Installation.IsLegible c.plan.path m₁.files := by
    refine ⟨isSendable_div hhome.tidy hname hsend hmarker ?_, fun bytes hbytes => absurd hbytes (hread bytes)⟩
    exact ⟨[46, 115, 111, 117, 114, 99, 101, 45, 117, 114, 108], by decide, by decide⟩
  refine Installation.isInstalled_of_not_isMarked hdestination hlegible ?_
  rintro ⟨destination, bytes, text, hsame, hbytes, -⟩
  cases hdestination.symm.trans hsame
  exact hread bytes hbytes

/-- Where no link stands, what the check says about a tree at the destination on one machine it says on any other. -/
theorem judges_of_noLinks (hdestination : c.installation.destination = .ok c.plan.path) (hhome : core.Home c.plan.path d)
    (hname : IsComponent c.plan.path.name)
    (hbinaries : ∀ binary ∈ c.installation.config.binaries, IsComponent (c.installation.binaryName binary))
    (hext : core.Extends m₁.files) (hlinks : ∀ l, child d c.plan.path.name <+: l → ¬ m₁.files.IsLink l)
    (hanswer : (exec (c.installation.isInstalled c.plan.dependency) m₁).1 = .ok answer) :
    c.Judges core d m (m₁.files.tree (child d c.plan.path.name)) answer := by
  intro m' hm' htree
  have hsame : ∀ l, child d c.plan.path.name <+: l → m₁.files.get? l = m'.files.get? l := by
    rintro _ ⟨l, rfl⟩
    exact (congrFun htree l).symm
  rw [← hanswer]
  exact (Installation.isInstalled_in_destination (hhome.of_extends hext) (hhome.of_extends hm'.lasting) hname hsame hlinks hdestination
    hbinaries).symm

section

variable (h : c.Opening core d m) (hanswer : c.Judges core d m (m.files.tree (c.spot m d .destination)) answer)
  (hs : c.Scene core d m s o)
include h hs

omit h hs in
theorem Scene.root (x : Spot n) : s.machine.files.get? (c.spot m d x) = s.machine.files.tree (c.spot m d x) [] := by
  rw [tree_apply, List.append_nil]

omit h in
theorem Scene.bare_of_none {x : Spot n} (hnone : s.machine.files.get? (c.spot m d x) = none) :
    s.machine.files.tree (c.spot m d x) = Tree.bare :=
  funext fun _ => vacant_of_none hs.apart.sound.rooted hnone _ (List.prefix_append ..)

omit h in
/-- A staging directory that was not moved is as it was when it was ready. -/
theorem Scene.owned (hkeeps : (s.stages k).keeps = true) :
    s.machine.files.tree (c.spot m d (.staging k)) = m.files.tree (c.spot m d (.staging k)) := by rw [hs.staging, if_pos hkeeps]

theorem Scene.isDir_owned (hkeeps : (s.stages k).keeps = true) : s.machine.files.IsDir (c.spot m d (.staging k)) := by
  obtain ⟨mode, hdir⟩ := h.staged k
  exact ⟨mode, by rw [Scene.root, hs.owned hkeeps, tree_apply, List.append_nil, hdir]⟩

include hanswer in
theorem Scene.current : exec (c.installation.isInstalled c.plan.dependency) s.machine = (.ok (o.isCurrent answer), s.machine) := by
  refine Prod.ext ?_ (c.installation.exec_isInstalled _ _)
  cases o with
  | nothing =>
    exact judges_bare h.destination h.home (h.suits .destination).1.component h.slot_destination.sendable _ hs.apart hs.destination
  | initial => exact hanswer _ hs.apart hs.destination
  | staged k => exact h.complete k _ hs.apart hs.destination

include hanswer in
theorem Scene.settled (k : Fin n) : exec (c.installation.isSettled (c.planOf k)) s.machine =
    (.ok (!(c.planOf k).isForced && o.isCurrent answer), s.machine) := by
  rw [Installation.isSettled]
  cases hforced : (c.planOf k).isForced with
  | true => rfl
  | false => exact hs.current h hanswer

/-- The next name aside is free, and nobody holds it. -/
theorem Scene.next_aside {left : Nat} (hk : s.stages k = .moving left) : ∃ j : Fin (Installation.attempts * n),
    m.identifiers + j = s.machine.identifiers ∧ nextAside s.machine c.plan.path.toText = (c.path m (.aside j)).toText ∧
      s.machine.files.tree (c.spot m d (.aside j)) = Tree.bare := by
  have hone : (s.stages k).names ≤ ∑ k', (s.stages k').names :=
    Finset.single_le_sum (f := fun k' => (s.stages k').names) (fun _ _ => Nat.zero_le _) (Finset.mem_univ k)
  have hgiven := hs.given
  have henough := hs.enough
  rw [hk, Stage.names] at hone
  obtain ⟨j, hj⟩ : ∃ j : Fin (Installation.attempts * n), m.identifiers + j = s.machine.identifiers :=
    ⟨⟨s.machine.identifiers - m.identifiers, by omega⟩, by simp only; omega⟩
  refine ⟨j, hj, ?_, hs.clean j fun k' hheld => ?_⟩
  · rw [nextAside, h.home.tidy.asidePath_toText h.downward (ne_nil_of_name (h.suits .destination).1.component)
      (Text.slash_not_mem_hex _ _), ← hj]
    rfl
  · obtain ⟨j', hpath, hj'⟩ := hs.held k' _ hheld
    cases h.path_inj hpath
    omega

/-- Whatever stands at the destination is moved aside. -/
theorem Scene.move {left : Nat} (hk : s.stages k = .moving left) : ∃ aside m₁,
    exec (moveAside c.plan.path.toText) s.machine = (.ok aside, m₁) ∧
      c.Scene core d m ⟨Function.update s.stages k (.placing left aside), m₁⟩ .nothing := by
  obtain ⟨j, hj, hnext, hbare⟩ := hs.next_aside h hk
  have hfits := (h.suits .destination).1
  have hne : (Spot.destination : Spot n) ≠ .aside j := by simp
  have hfree : s.machine.files.get? (c.spot m d (.aside j)) = none := by
    rw [Scene.root, hbare]
    rfl
  rcases exec_moveAside_beside (h.home.of_extends hs.apart.lasting) (ne_nil_of_name hfits.component) hfits.component hfits.short hnext
    (h.suits (.aside j)).1.component (h.distinct _ _ hne) hfree with ⟨e, -, hsuits⟩ | ⟨-, -, ⟨hnone, he⟩ | ⟨-, -, hthere, he⟩⟩
  · have hdestination : Fits c.plan.path c.plan.path.name ∧ IsSendable c.plan.path.toText :=
      ⟨hfits, h.slot_destination.sendable⟩
    exact absurd ⟨hdestination, h.suits (.aside j)⟩ hsuits
  · refine ⟨none, _, he, hs.still h (Function.update_self ..) (fun k' hk' => Function.update_of_ne hk' ..) rfl ?_ ?_ ?_
      (Nat.le_succ _) ?_⟩
    · rw [← hs.destination]
      exact (hs.bare_of_none (x := .destination) hnone).symm
    · rw [hk]
      rfl
    · rw [hk]
      rfl
    · rw [hk]
      simp only [counted, Stage.names]
      omega
  · refine ⟨some (c.path m (.aside j)).toText, _, he, hs.turn h (Function.update_self ..) (fun k' hk' => Function.update_of_ne hk' ..)
      (h.apart_move hs.apart hne _) ?_ (fun k' => ?_) (fun j' => ?_) (fun path hpath => .inr ⟨j, ?_, hj, Nat.lt_succ_self _⟩)
      (Nat.le_succ _) ?_⟩
    · exact (h.tree_move _ hne _).trans (by rw [if_neg hne, if_pos rfl]; rfl)
    · refine (h.tree_move _ hne _).trans ?_
      rw [if_neg (by simp), if_neg (by simp)]
      split
      · rename_i heq
        rw [heq, hs.staging, hk]
        rfl
      · rfl
    · by_cases hj' : j' = j
      · exact .inl (by rw [hj', Stage.aside?])
      · refine .inr (.inr ⟨by simp [hk, Stage.aside?], (h.tree_move _ hne _).trans ?_⟩)
        rw [if_neg (by simpa using hj'), if_neg (by simp)]
    · exact (Option.some.inj hpath).symm
    · rw [hk]
      simp only [counted, Stage.names]
      omega

theorem Scene.exec_race : exec race s.machine = (.ok (), s.machine) :=
  Prebuilt.exec_race (by rw [hs.apart.world]; exact h.races)

/-- What was staged takes the place of nothing. -/
theorem Scene.place {left : Nat} {aside : Option Text} (hk : s.stages k = .placing left aside) (ho : o = .nothing) : ∃ m₁,
    exec (do race; attempt (rename (c.staging k).toText c.plan.path.toText)) s.machine = (.ok (.ok ()), m₁) ∧
      c.Scene core d m ⟨Function.update s.stages k (.clearing left aside (.ok (some true))), m₁⟩ (.staged k) := by
  have hne : (Spot.staging k : Spot n) ≠ .destination := by simp
  have hkeeps : (s.stages k).keeps = true := by
    rw [hk]
    rfl
  obtain ⟨mode, hdir⟩ := hs.isDir_owned h hkeeps
  have hnone : s.machine.files.get? (c.spot m d .destination) = none := by
    rw [Scene.root, hs.destination, ho]
    rfl
  have hrename := (h.slot (.staging k)).rename h.slot_destination (h.siblings hne) hs.apart.lasting
  rw [renamed, hdir, hnone] at hrename
  refine ⟨{ s.machine with files := s.machine.files.move (c.spot m d (.staging k)) (c.spot m d .destination) }, ?_,
    hs.turn h (Function.update_self ..) (fun k' hk' => Function.update_of_ne hk' ..) (h.apart_move hs.apart hne _) ?_ (fun k' => ?_)
      (fun j => ?_) (fun path hpath => .inl (by rw [hk]; exact hpath)) (Nat.le_refl _) (by rw [hk]; exact Nat.le_refl _)⟩
  · rw [exec_bind_of_ok (hs.exec_race h), exec_attempt]
    exact congrArg (fun x : Except Error Unit × Machine => (Except.ok x.1, x.2)) hrename
  · exact (h.tree_move _ hne _).trans (by rw [if_pos rfl, hs.owned hkeeps]; rfl)
  · refine (h.tree_move _ hne _).trans ?_
    rw [if_neg (by simp)]
    by_cases hk' : k' = k
    · rw [if_pos (by rw [hk']), if_pos hk']
      rfl
    · rw [if_neg (by simpa using hk'), if_neg hk']
  · by_cases hheld : (s.stages k).aside? = some (c.path m (.aside j)).toText
    · exact .inl (by rw [hk] at hheld; exact hheld)
    · refine .inr (.inr ⟨hheld, (h.tree_move _ hne _).trans ?_⟩)
      rw [if_neg (by simp), if_neg (by simp)]

/-- Nothing takes the place of what somebody has staged. -/
theorem Scene.blocked {left : Nat} {aside : Option Text} {k' : Fin n} (hk : s.stages k = .placing left aside) (ho : o = .staged k') :
    ∃ e, exec (do race; attempt (rename (c.staging k).toText c.plan.path.toText)) s.machine = (.ok (.error e), s.machine) ∧
      e.isSystem = true := by
  have hne : (Spot.staging k : Spot n) ≠ .destination := by simp
  have hthere : s.machine.files.tree (c.spot m d .destination) = m.files.tree (c.spot m d (.staging k')) := by
    rw [hs.destination, ho]
    rfl
  obtain ⟨mode, hsource⟩ := hs.isDir_owned h (k := k) (by rw [hk]; rfl)
  obtain ⟨mode', hdir'⟩ := h.staged k'
  have htarget : s.machine.files.get? (c.spot m d .destination) = some (.directory mode') := by
    rw [Scene.root, hthere, tree_apply, List.append_nil, hdir']
  have hfull : s.machine.files.isEmptyDirectory (c.spot m d .destination) = false := by
    rw [Bool.eq_false_iff]
    intro hempty
    refine h.marked k' ((congrFun hthere [Name.canonical Installation.markerName]).symm.trans ?_)
    exact isEmptyDirectory_iff.1 hempty _
  have hrename := (h.slot (.staging k)).rename h.slot_destination (h.siblings hne) hs.apart.lasting
  have hsame : isSame (c.spot m d (.staging k), .directory mode) (c.spot m d .destination, .directory mode') = false := by
    simp [isSame, Node.number?, (h.siblings hne).ne]
  rw [renamed, hsource, htarget] at hrename
  simp only [hsame, Node.isDirectory, hfull] at hrename
  refine ⟨.system ⟨.notEmpty, some (c.staging k).toText, some c.plan.path.toText⟩, ?_, rfl⟩
  rw [exec_bind_of_ok (hs.exec_race h), exec_attempt]
  exact congrArg (fun x : Except Error Unit × Machine => (Except.ok x.1, x.2)) hrename

/-- What was moved aside is removed. -/
theorem Scene.clear {left : Nat} {aside : Option Text} {placed : Except Error (Option Bool)}
    (hk : s.stages k = .clearing left aside placed) : ∃ m₁, exec (removeAside aside) s.machine = (.ok (), m₁) ∧
      c.Scene core d m ⟨Function.update s.stages k (.following left placed), m₁⟩ o := by
  have hkeeps : (Stage.following left placed).keeps = (s.stages k).keeps := by rw [hk, Stage.keeps_following]
  have hnames : (Stage.following left placed).names ≤ (s.stages k).names := by
    rw [hk]
    exact Stage.names_following
  cases aside with
  | none =>
    refine ⟨s.machine, rfl, hs.still h (Function.update_self ..) (fun k' hk' => Function.update_of_ne hk' ..) rfl rfl hkeeps ?_
      (Nat.le_refl _) (Nat.add_le_add_left hnames _)⟩
    rw [hk, Stage.aside?_following]
    rfl
  | some path =>
    obtain ⟨j, rfl, -⟩ := hs.held k path (by rw [hk]; rfl)
    refine ⟨_, (h.slot (.aside j)).removePath hs.apart.lasting, hs.turn h (Function.update_self ..)
      (fun k' hk' => Function.update_of_ne hk' ..) (h.apart_cleared hs.apart _) ?_ (fun k' => ?_) (fun j' => ?_)
      (fun path hpath => ?_) (Nat.le_refl _) (Nat.add_le_add_left hnames _)⟩
    · refine (h.tree_cleared hs.apart.sound.rooted _ _).trans ?_
      rw [if_neg (by simp), hs.destination]
    · refine (h.tree_cleared hs.apart.sound.rooted _ _).trans ?_
      rw [if_neg (by simp)]
      split
      · rename_i heq
        rw [heq, hs.staging, hkeeps]
      · rfl
    · have htree := h.tree_cleared hs.apart.sound.rooted (.aside j) (.aside j')
      by_cases hj' : j' = j
      · rw [if_pos (by rw [hj'])] at htree
        exact .inr (.inl htree)
      · rw [if_neg (by simpa using hj')] at htree
        refine .inr (.inr ⟨fun hheld => hj' ?_, htree⟩)
        rw [hk] at hheld
        have hpath := h.path_inj (Option.some.inj hheld)
        simpa using hpath.symm
    · rw [Stage.aside?_following] at hpath
      cases hpath

/-- A staging directory that was not used is removed. -/
theorem Scene.leave {result : Except Error Bool} (hk : s.stages k = .leaving result) : ∃ m₁,
    exec (removeTree (c.staging k).toText) s.machine = (.ok (), m₁) ∧
      c.Scene core d m ⟨Function.update s.stages k (.ended result), m₁⟩ o := by
  obtain ⟨mode, hthere⟩ := hs.isDir_owned h (k := k) (by rw [hk]; rfl)
  have hcleared : cleared s.machine.files (c.spot m d (.staging k)) = s.machine.files.without (c.spot m d (.staging k)) := by
    rw [cleared, hthere]
  refine ⟨_, (h.slot (.staging k)).removeTree hs.apart.lasting hthere, ?_⟩
  rw [← hcleared]
  refine hs.turn h (Function.update_self ..) (fun k' hk' => Function.update_of_ne hk' ..) (h.apart_cleared hs.apart _) ?_ (fun k' => ?_)
    (fun j => ?_) (fun path hpath => by cases hpath) (Nat.le_refl _) (Nat.add_le_add_left (Nat.zero_le _) _)
  · refine (h.tree_cleared hs.apart.sound.rooted _ _).trans ?_
    rw [if_neg (by simp), hs.destination]
  · refine (h.tree_cleared hs.apart.sound.rooted _ _).trans ?_
    by_cases hk' : k' = k
    · rw [if_pos (by rw [hk']), if_pos hk']
      rfl
    · rw [if_neg (by simpa using hk'), if_neg hk']
  · refine .inr (.inr ⟨by simp [hk, Stage.aside?], (h.tree_cleared hs.apart.sound.rooted _ _).trans ?_⟩)
    rw [if_neg (by simp)]

omit h hs in
theorem step_eq (hnext : (s.stages k).next c.installation (c.planOf k) (c.staging k) s.machine = (stage, m₁)) :
    c.step s k = ⟨Function.update s.stages k stage, m₁⟩ := by rw [step, hnext]

include hanswer in
/-- All that a step of an installer can come to. Only what stood at the destination at the beginning could be in the way of a rename
and not be current; but nobody gets to a rename while it is there. -/
theorem Scene.step (hplacing : ∀ left aside, s.stages k = .placing left aside → o ≠ .initial) :
    ∃ stage o', c.Turn answer k (s.stages k) o stage o' ∧ (c.step s k).stages = Function.update s.stages k stage ∧
      c.Scene core d m (c.step s k) o' := by
  have hrest (stage : Stage) (k' : Fin n) (hk' : k' ≠ k) : Function.update s.stages k stage k' = s.stages k' :=
    Function.update_of_ne hk' ..
  -- A step that leaves everything where it is, and does not use a name.
  have hstill {stage : Stage} (hturn : c.Turn answer k (s.stages k) o stage o)
      (hnext : (s.stages k).next c.installation (c.planOf k) (c.staging k) s.machine = (stage, s.machine))
      (hkeeps : stage.keeps = (s.stages k).keeps) (haside : stage.aside? = (s.stages k).aside?)
      (hnames : stage.names ≤ (s.stages k).names) :
      ∃ stage o', c.Turn answer k (s.stages k) o stage o' ∧ (c.step s k).stages = Function.update s.stages k stage ∧
        c.Scene core d m (c.step s k) o' := by
    refine ⟨stage, o, hturn, by rw [step_eq hnext], ?_⟩
    rw [step_eq hnext]
    exact hs.still h (Function.update_self ..) (hrest stage) rfl rfl hkeeps haside (Nat.le_refl _) (Nat.add_le_add_left hnames _)
  have hchanged {stage : Stage} {o' : Occupant n} {m₁ : Machine} (hturn : c.Turn answer k (s.stages k) o stage o')
      (hnext : (s.stages k).next c.installation (c.planOf k) (c.staging k) s.machine = (stage, m₁))
      (hscene : c.Scene core d m ⟨Function.update s.stages k stage, m₁⟩ o') :
      ∃ stage o', c.Turn answer k (s.stages k) o stage o' ∧ (c.step s k).stages = Function.update s.stages k stage ∧
        c.Scene core d m (c.step s k) o' :=
    ⟨stage, o', hturn, by rw [step_eq hnext], step_eq hnext ▸ hscene⟩
  cases hk : s.stages k with
  | checking left =>
    rw [hk] at hstill
    cases left with
    | zero => exact hstill .spent rfl rfl rfl (Nat.le_refl _)
    | succ left =>
      have hsettled := hs.settled h hanswer k
      cases hleave : !(c.planOf k).isForced && o.isCurrent answer with
      | true =>
        rw [hleave] at hsettled
        simp only [Bool.and_eq_true, Bool.not_eq_true'] at hleave
        exact hstill (.stays hleave.1 hleave.2) (by rw [Stage.next, hsettled]) rfl rfl (Nat.zero_le _)
      | false =>
        rw [hleave] at hsettled
        simp only [Bool.and_eq_false_iff, Bool.not_eq_false'] at hleave
        exact hstill (.begins hleave) (by rw [Stage.next, hsettled]) rfl rfl (Nat.le_refl _)
  | moving left =>
    obtain ⟨aside, m₁, hmove, hscene⟩ := hs.move h hk
    have hmove : exec (moveAside (c.planOf k).path.toText) s.machine = (.ok aside, m₁) := hmove
    rw [hk] at hchanged
    exact hchanged .moves (by rw [Stage.next, hmove]) hscene
  | placing left aside =>
    cases o with
    | initial => exact absurd rfl (hplacing left aside hk)
    | nothing =>
      obtain ⟨m₁, hplace, hscene⟩ := hs.place h hk rfl
      have hplace : exec (do race; attempt (rename (c.staging k).toText (c.planOf k).path.toText)) s.machine = (.ok (.ok ()), m₁) :=
        hplace
      rw [hk] at hchanged
      exact hchanged .places (by rw [Stage.next, hplace]) hscene
    | staged k' =>
      obtain ⟨e, hblocked, hsystem⟩ := hs.blocked h hk rfl
      have hblocked : exec (do race; attempt (rename (c.staging k).toText (c.planOf k).path.toText)) s.machine =
          (.ok (.error e), s.machine) := hblocked
      rw [hk] at hstill
      exact hstill .blocked (by rw [Stage.next, hblocked]; simp only [hsystem, if_true]) rfl rfl (Nat.le_refl _)
  | rechecking left aside =>
    have hcurrent : exec (c.installation.isInstalled (c.planOf k).dependency) s.machine = (.ok (o.isCurrent answer), s.machine) :=
      hs.current h hanswer
    rw [hk] at hstill
    exact hstill .rechecks (by rw [Stage.next, hcurrent]) (by cases o.isCurrent answer <;> rfl) rfl (Nat.le_refl _)
  | clearing left aside placed =>
    obtain ⟨m₁, hclear, hscene⟩ := hs.clear h hk
    rw [hk] at hchanged
    exact hchanged .clears (by rw [Stage.next, hclear]) hscene
  | leaving result =>
    obtain ⟨m₁, hleave, hscene⟩ := hs.leave h hk
    rw [hk] at hchanged
    exact hchanged .leaves (by rw [Stage.next, hleave]) hscene
  | ended result =>
    rw [hk] at hstill
    exact hstill .rests rfl rfl rfl (Nat.le_refl _)

end

end Contest

end Prebuilt
