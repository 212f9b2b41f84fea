import Prebuilt.Proofs.Install.Contending
import Prebuilt.Proofs.Install.Yielding
/-!
What contending installers leave. Whoever takes away what stands at the destination is about to put something there, or finds that somebody
else has; so once all are at the end a current installation is there, and nothing else is left of what they worked with.
-/
set_option autoImplicit false

namespace Prebuilt

open FileSystem Action FilePath

namespace Stage

/-- Where an installer can be while nothing has been moved yet. -/
def IsFirst (answer : Bool) : Stage → Prop
  | .checking left => 0 < left
  | .moving _ => True
  | .leaving result => result = .ok false ∧ answer = true
  | .ended result => result = .ok false ∧ answer = true
  | _ => False

/-- The staging directory was put in place. -/
def hasPlaced : Stage → Bool
  | .clearing _ _ (.ok (some true)) => true
  | .leaving (.ok true) => true
  | .ended (.ok true) => true
  | _ => false

/-- Nothing has gone wrong, but that the attempts may be used up. -/
def IsSound (used : Error) : Stage → Prop
  | .clearing _ _ placed => ∃ answer, placed = .ok answer
  | .leaving result => result = .ok false ∨ result = .error used
  | .ended result => (∃ answer, result = .ok answer) ∨ result = .error used
  | _ => True

/-- How many attempts can still fail: one more where nothing is in the way right now. -/
def chances (free : Bool) : Stage → Nat
  | .checking left => left
  | .moving left => left + 1
  | .placing left _ => if free then left + 1 else left
  | .rechecking left _ => left
  | .clearing left _ (.ok none) => left
  | .leaving (.error _) => 0
  | .ended (.error _) => 0
  | _ => Installation.attempts

theorem chances_free (stage : Stage) (free : Bool) :
    stage.chances free ≤ stage.chances true ∧ stage.chances true ≤ stage.chances free + 1 := by
  cases stage with
  | placing left aside => cases free <;> simp [chances]
  | clearing left aside placed => rcases placed with e | _ | _ <;> simp [chances]
  | leaving result => cases result <;> simp [chances]
  | ended result => cases result <;> simp [chances]
  | _ => simp [chances]

end Stage

namespace Contest

variable {n : Nat} {c : Contest n} {core : FileSystem} {d : Location} {m : Machine} {s : State n} {o o' : Occupant n}
  {answer : Bool} {k : Fin n} {stage : Stage} {stages : Fin n → Stage}

def Occupant.isNothing : Occupant n → Bool
  | .nothing => true
  | _ => false

/-- How many staging directories were put in place. -/
def placings (stages : Fin n → Stage) : Nat := ∑ k, (stages k).hasPlaced.toNat

/-- What an installer fails with whose attempts are used up. -/
def usedUp (c : Contest n) : Error := .download (.notPlaced c.plan.key c.plan.path.toText)

/-- How far they can be, given what stands at the destination. -/
structure Standing (c : Contest n) (answer : Bool) (stages : Fin n → Stage) (o : Occupant n) : Prop where
  first : o = .initial → ∀ k, (stages k).IsFirst answer
  vacated : o = .nothing → ∃ k left aside, stages k = .placing left aside
  owner : ∀ k, o = .staged k → (stages k).hasPlaced = true
  sound : ∀ k, (stages k).IsSound c.usedUp
  tries : ∀ k, Installation.attempts ≤ (stages k).chances o.isNothing + placings stages

theorem placings_update :
    placings (Function.update stages k stage) + (stages k).hasPlaced.toNat = placings stages + stage.hasPlaced.toNat :=
  sum_update stages (fun stage => stage.hasPlaced.toNat) k stage

/-- An installer that has not put its staging directory in place leaves room for the others only. -/
theorem placings_lt (h : (stages k).hasPlaced = false) : placings stages < n := by
  have hsum : placings (Function.update stages k (.ended (.ok true))) + (stages k).hasPlaced.toNat = placings stages + 1 :=
    placings_update
  have hall : placings (Function.update stages k (.ended (.ok true))) ≤ n := by
    have hle := Finset.sum_le_card_nsmul Finset.univ (fun k' => (Function.update stages k (Stage.ended (.ok true)) k').hasPlaced.toNat) 1
      fun k' _ => Bool.toNat_le _
    rwa [Finset.card_univ, Fintype.card_fin, smul_eq_mul, Nat.mul_one] at hle
  rw [h, Bool.toNat_false] at hsum
  omega

theorem standing_start (c : Contest n) (answer : Bool) (m : Machine) : c.Standing answer (start m).stages .initial where
  first _ _ := by
    show 0 < Installation.attempts
    decide
  vacated ho := by cases ho
  owner _ ho := by cases ho
  sound _ := trivial
  tries _ := Nat.le_add_right _ _

/-- Either as many are in place as before, and at most the destination is vacated; or one more is. -/
theorem Turn.hasPlaced {old : Stage} (h : c.Turn answer k old o stage o') :
    stage.hasPlaced = old.hasPlaced ∧ (o'.isNothing = o.isNothing ∨ o'.isNothing = true) ∨
      old.hasPlaced = false ∧ stage.hasPlaced = true := by
  cases h with
  | places => exact .inr ⟨rfl, rfl⟩
  | moves => exact .inl ⟨rfl, .inr rfl⟩
  | rechecks => exact .inl ⟨by cases o.isCurrent answer <;> rfl, .inl rfl⟩
  | @clears left aside placed o => exact .inl ⟨by rcases placed with e | _ | _ | _ <;> rfl, .inl rfl⟩
  | @leaves result o => exact .inl ⟨by rcases result with e | _ | _ <;> rfl, .inl rfl⟩
  | _ => exact .inl ⟨rfl, .inl rfl⟩

theorem Turn.isFirst {old : Stage} (h : c.Turn answer k old .initial stage .initial) (hold : old.IsFirst answer) :
    stage.IsFirst answer := by
  cases h with
  | spent => exact absurd hold (Nat.lt_irrefl 0)
  | stays _ hcurrent => exact ⟨rfl, hcurrent⟩
  | begins => trivial
  | rechecks => exact hold.elim
  | clears => exact hold.elim
  | leaves => exact hold
  | rests => exact hold

theorem Turn.isSound {old : Stage} (h : c.Turn answer k old o stage o') (hold : old.IsSound c.usedUp) : stage.IsSound c.usedUp := by
  cases h with
  | spent => exact .inr rfl
  | stays => exact .inl rfl
  | places => exact ⟨_, rfl⟩
  | rechecks => exact ⟨_, rfl⟩
  | clears =>
    obtain ⟨placed, rfl⟩ := hold
    rcases placed with _ | _ | _
    · trivial
    · exact .inl rfl
    · exact .inl ⟨_, rfl⟩
  | leaves => exact hold.imp_left fun h => ⟨_, h⟩
  | rests => exact hold
  | _ => trivial

/-- An attempt fails only where one more staging directory was put in place in the course of it. -/
theorem Turn.tries {old : Stage} {before after : Nat} (h : c.Turn answer k old o stage o') (hold : old.IsSound c.usedUp)
    (hle : before ≤ after) (htries : Installation.attempts ≤ old.chances o.isNothing + before) :
    Installation.attempts ≤ stage.chances o'.isNothing + after := by
  have hattempts : Installation.attempts ≤ Installation.attempts + after := Nat.le_add_right _ _
  cases h with
  | stays => exact hattempts
  | places => exact hattempts
  | rechecks =>
    cases o.isCurrent answer with
    | true => exact hattempts
    | false => exact htries.trans (Nat.add_le_add_left hle _)
  | clears =>
    obtain ⟨placed, rfl⟩ := hold
    rcases placed with _ | _ | _
    · exact htries.trans (Nat.add_le_add_left hle _)
    · exact hattempts
    · exact hattempts
  | @leaves result => cases result <;> exact htries.trans (Nat.add_le_add_left hle _)
  | _ => exact htries.trans (Nat.add_le_add_left hle _)

/-- What one step preserves. -/
theorem Standing.turn (hs : c.Standing answer stages o) (hturn : c.Turn answer k (stages k) o stage o') :
    c.Standing answer (Function.update stages k stage) o' := by
  have hself : Function.update stages k stage k = stage := Function.update_self ..
  have hrest {k' : Fin n} (hk' : k' ≠ k) : Function.update stages k stage k' = stages k' := Function.update_of_ne hk' ..
  have hplacings : placings (Function.update stages k stage) + (stages k).hasPlaced.toNat = placings stages + stage.hasPlaced.toNat :=
    placings_update
  have hplaced := hturn.hasPlaced
  have hle : placings stages ≤ placings (Function.update stages k stage) := by
    rcases hplaced with ⟨hsame, -⟩ | ⟨hold, hnew⟩
    · rw [hsame] at hplacings
      omega
    · rw [hold, hnew] at hplacings
      simp only [Bool.toNat_true, Bool.toNat_false] at hplacings
      omega
  refine ⟨fun ho' k' => ?_, fun ho' => ?_, fun k' ho' => ?_, fun k' => ?_, fun k' => ?_⟩
  · subst ho'
    have ho : o = .initial := by
      generalize stages k = old at hturn
      cases hturn <;> rfl
    subst ho
    by_cases hk' : k' = k
    · rw [hk', hself]
      exact hturn.isFirst (hs.first rfl k)
    · rw [hrest hk']
      exact hs.first rfl k'
  · subst ho'
    cases hmove : stages k with
    | moving left =>
      rw [hmove] at hturn
      cases hturn
      exact ⟨k, left, _, hself⟩
    | placing left aside =>
      rw [hmove] at hturn
      cases hturn
    | _ =>
      have ho : o = .nothing := by
        rw [hmove] at hturn
        cases hturn <;> rfl
      obtain ⟨k', left, aside, hk'⟩ := hs.vacated ho
      have hne : k' ≠ k := by
        rintro rfl
        cases hmove.symm.trans hk'
      exact ⟨k', left, aside, (hrest hne).trans hk'⟩
  · have hstays : stage.hasPlaced = true ∧ k' = k ∨ o = .staged k' := by
      generalize stages k = old at hturn
      subst ho'
      cases hturn <;> first | exact .inl ⟨rfl, rfl⟩ | exact .inr rfl
    rcases hstays with ⟨hnew, rfl⟩ | ho
    · rw [hself, hnew]
    · by_cases hk' : k' = k
      · have hown := hs.owner k' ho
        rw [hk'] at hown ⊢
        rw [hself]
        rcases hplaced with ⟨hsame, -⟩ | ⟨-, hnew⟩
        · rw [hsame, hown]
        · exact hnew
      · rw [hrest hk']
        exact hs.owner k' ho
  · by_cases hk' : k' = k
    · rw [hk', hself]
      exact hturn.isSound (hs.sound k)
    · rw [hrest hk']
      exact hs.sound k'
  · by_cases hk' : k' = k
    · rw [hk', hself]
      exact hturn.tries (hs.sound k) hle (hs.tries k)
    · rw [hrest hk']
      have htries := hs.tries k'
      obtain ⟨hmost, hleast⟩ := (stages k').chances_free o.isNothing
      obtain ⟨hmost', hleast'⟩ := (stages k').chances_free o'.isNothing
      rcases hplaced with ⟨-, hsame | hfree⟩ | ⟨hold, hnew⟩
      · rw [hsame]
        omega
      · rw [hfree]
        omega
      · rw [hold, hnew] at hplacings
        simp only [Bool.toNat_true, Bool.toNat_false] at hplacings
        omega

/-- Once all are at the end, what stood at the destination at the beginning is still there and current, or what somebody has staged is. -/
theorem Standing.ended (hs : c.Standing answer stages o) (hended : ∀ k, ∃ result, stages k = .ended result) :
    o = .initial ∧ (∀ k, stages k = .ended (.ok false) ∧ answer = true) ∨ ∃ k, o = .staged k ∧ stages k = .ended (.ok true) := by
  cases o with
  | nothing =>
    obtain ⟨k, left, aside, hplacing⟩ := hs.vacated rfl
    obtain ⟨result, hk⟩ := hended k
    cases hk.symm.trans hplacing
  | initial =>
    refine .inl ⟨rfl, fun k => ?_⟩
    obtain ⟨result, hk⟩ := hended k
    have hfirst := hs.first rfl k
    rw [hk] at hfirst
    obtain ⟨rfl, hcurrent⟩ := hfirst
    exact ⟨hk, hcurrent⟩
  | staged k =>
    refine .inr ⟨k, rfl, ?_⟩
    obtain ⟨result, hk⟩ := hended k
    have howner := hs.owner k rfl
    rw [hk] at howner
    rcases result with e | _ | _
    · cases howner
    · cases howner
    · exact hk

/-- Whoever fails has seen every attempt fail, each because of another who has put its own in place. -/
theorem Standing.result {result : Except Error Bool} (hs : c.Standing answer stages o) (hk : stages k = .ended result) :
    (∃ used, result = .ok used) ∨ result = .error c.usedUp ∧ Installation.attempts < n := by
  have hsound := hs.sound k
  have htries := hs.tries k
  rw [hk] at hsound htries
  rcases hsound with hused | rfl
  · exact .inl hused
  · have hplacings : placings stages < n := placings_lt (k := k) (by rw [hk]; rfl)
    rw [Stage.chances, Nat.zero_add] at htries
    exact .inr ⟨rfl, htries.trans_lt hplacings⟩

/-! ## Whole runs -/

theorem Opening.scene_start (h : c.Opening core d m) : c.Scene core d m (start m) .initial where
  apart := apart_refl h.sound h.lasting
  destination := rfl
  staging _ := rfl
  held _ _ hpath := by cases hpath
  single _ _ _ hpath := by cases hpath
  clean j _ := funext fun _ => vacant_of_none h.sound.rooted (h.free j) _ (List.prefix_append ..)
  given := Nat.le_refl _
  enough := by
    simp [start, Stage.names, Nat.mul_comm]

/-- What a whole run preserves. -/
theorem Opening.run (h : c.Opening core d m) (hanswer : c.Judges core d m (m.files.tree (c.spot m d .destination)) answer)
    (schedule : List (Fin n)) : ∃ o, c.Scene core d m (c.run (start m) schedule) o ∧
      c.Standing answer (c.run (start m) schedule).stages o := by
  induction schedule using List.reverseRecOn with
  | nil => exact ⟨.initial, h.scene_start, standing_start c answer m⟩
  | append_singleton schedule k ih =>
    obtain ⟨o, hscene, hstanding⟩ := ih
    have hplacing : ∀ left aside, (c.run (start m) schedule).stages k = .placing left aside → o ≠ .initial := by
      rintro left aside hk rfl
      have hfirst := hstanding.first rfl k
      rw [hk] at hfirst
      exact hfirst
    obtain ⟨stage, o', hturn, hstages, hscene'⟩ := hscene.step h hanswer hplacing
    have hrun : c.run (start m) (schedule ++ [k]) = c.step (c.run (start m) schedule) k := List.foldl_concat ..
    rw [hrun]
    exact ⟨o', hscene', hstages ▸ hstanding.turn hturn⟩

/-- Each installer comes nearer to its end with each step that it takes, whatever the others do. -/
theorem steps_run (c : Contest n) (s : State n) (schedule : List (Fin n)) (k : Fin n) :
    ((c.run s schedule).stages k).steps ≤ (s.stages k).steps - schedule.count k := by
  induction schedule generalizing s with
  | nil => exact Nat.le_refl _
  | cons k' rest ih =>
    refine (ih (c.step s k')).trans ?_
    by_cases hk : k' = k
    · subst hk
      have hnext := Stage.steps_next c.installation (c.planOf k') (c.staging k') (s.stages k') s.machine
      have hstage : (c.step s k').stages k' = ((s.stages k').next c.installation (c.planOf k') (c.staging k') s.machine).1 :=
        Function.update_self ..
      rw [hstage, List.count_cons_self]
      omega
    · have hstage : (c.step s k').stages k = s.stages k := Function.update_of_ne (Ne.symm hk) ..
      rw [hstage, List.count_cons_of_ne hk]

/-- All are at the end. -/
def State.HasEnded (s : State n) : Prop := ∀ k, ∃ result, s.stages k = .ended result

/-- Whatever the order of the steps: at any time nothing stands at the destination, and somebody is about to put something there, or what
stood there at the beginning, or one of the staging directories as it was when it was ready; and nothing is different elsewhere. Everybody
comes to an end, in no more than so many steps of its own. Once all are at the end, a current installation is there: the one from the
beginning, if nobody has used what it staged, or that of an installer that has. Everybody else has found one as well, unless all its
attempts have failed, which takes more installers than there are attempts. Nothing is left of what was staged or moved aside. On its own
each of them does what an installer does whose staging directory is ready. -/
theorem settles (h : c.Opening core d m) (schedule : List (Fin n)) (hrun : c.run (start m) schedule = s) :
    (s.machine.files.tree (c.spot m d .destination) = Tree.bare ∧ (∃ k left aside, s.stages k = .placing left aside) ∨
      s.machine.files.tree (c.spot m d .destination) = m.files.tree (c.spot m d .destination) ∨
      ∃ k, s.machine.files.tree (c.spot m d .destination) = m.files.tree (c.spot m d (.staging k))) ∧
    (∀ l, (∀ x, ¬ c.spot m d x <+: l) → s.machine.files.get? l = m.files.get? l) ∧
    ((∀ k, 5 * Installation.attempts + 2 ≤ schedule.count k) → s.HasEnded) ∧
    (0 < n → s.HasEnded →
      (exec (c.installation.isInstalled c.plan.dependency) s.machine).1 = .ok true ∧
      (s.machine.files.tree (c.spot m d .destination) = m.files.tree (c.spot m d .destination) ∧ (∀ k, s.stages k = .ended (.ok false)) ∨
        ∃ k, s.stages k = .ended (.ok true) ∧
          s.machine.files.tree (c.spot m d .destination) = m.files.tree (c.spot m d (.staging k))) ∧
      (∀ k, (∃ used, s.stages k = .ended (.ok used)) ∨ s.stages k = .ended (.error c.usedUp) ∧ Installation.attempts < n) ∧
      ∀ x, x ≠ .destination → s.machine.files.tree (c.spot m d x) = Tree.bare) ∧
    ∀ k m', ∃ result m'', (fun x : Stage × Machine => x.1.next c.installation (c.planOf k) (c.staging k) x.2)^[5 * Installation.attempts + 2]
        (.checking Installation.attempts, m') = (.ended result, m'') ∧
      exec (c.installation.conclude (c.planOf k) (c.staging k)) m' = (result.map fun _ => (), m'') := by
  obtain ⟨answer, hanswer⟩ := h.initial
  obtain ⟨o, hscene, hstanding⟩ := h.run hanswer schedule
  have hsteps := c.steps_run (start m) schedule
  rw [hrun] at hscene hstanding hsteps
  refine ⟨?_, hscene.apart.rest, fun hcount k => ?_, fun hpos hended => ⟨?_, ?_, fun k => ?_, fun x hx => ?_⟩, fun k m' => ?_⟩
  · rw [hscene.destination]
    cases o with
    | nothing => exact .inl ⟨rfl, hstanding.vacated rfl⟩
    | initial => exact .inr (.inl rfl)
    | staged k => exact .inr (.inr ⟨k, rfl⟩)
  · have hlast := hsteps k
    have hmany := hcount k
    have hfirst : ((start m : State n).stages k).steps = 5 * Installation.attempts + 2 := rfl
    rw [hfirst] at hlast
    exact Stage.steps_eq_zero (by omega)
  · rw [hscene.current h hanswer]
    rcases hstanding.ended hended with ⟨rfl, hall⟩ | ⟨k, rfl, -⟩
    · rw [(hall ⟨0, hpos⟩).2]
      rfl
    · rfl
  · rw [hscene.destination]
    rcases hstanding.ended hended with ⟨rfl, hall⟩ | ⟨k, rfl, hk⟩
    · exact .inl ⟨rfl, fun k => (hall k).1⟩
    · exact .inr ⟨k, hk, rfl⟩
  · obtain ⟨result, hk⟩ := hended k
    rcases hstanding.result hk with ⟨used, rfl⟩ | ⟨rfl, hmany⟩
    · exact .inl ⟨used, hk⟩
    · exact .inr ⟨hk, hmany⟩
  · cases x with
    | destination => exact absurd rfl hx
    | staging k =>
      obtain ⟨result, hk⟩ := hended k
      rw [hscene.staging, hk]
      rfl
    | aside j =>
      refine hscene.clean j fun k => ?_
      obtain ⟨result, hk⟩ := hended k
      simp [hk, Stage.aside?]
  · exact Stage.exec_rest_iterate c.installation (c.planOf k) (c.staging k) (.checking Installation.attempts) m'

/-! ## Two installers beside each other -/

/-- One of them is forced. -/
def pair : Contest 2 where
  installation := hosted ["run"] "https://h/run.tar"
  plan := hostedPlan ["run"] "https://h/run.tar"
  force k := .bool (k = 0)
  staged k := if k = 0 then ".linux-x64-a" else ".linux-x64-b"

/-- What is in a complete installation, with files that are numbered from here on. -/
def contents (number : Nat) : List (Location × Node) :=
  [([], .directory 0o755), ([".source-url"], .file number 0o644 markerBytes), (["run"], .file (number + 1) 0o755 [35, 33])]

def contentsAt (s : Location) (number : Nat) : List (Location × Node) := (contents number).map fun x => (s ++ x.1, x.2)

def completeTree (number : Nat) : Tree := fun l => ((contents number).find? (·.1 = l)).map (·.2)

/-- The directory of the destination, and what is in it. -/
def pairFiles (nodes : List (Location × Node)) (next : Nat) : FileSystem := ⟨(["unpacked_bin"], .directory 0o755) :: nodes, next, []⟩

/-- Both installers are ready, and nothing stands at the destination. -/
def pairMachine : Machine :=
  serving [] (pairFiles (contentsAt ["unpacked_bin", ".linux-x64-a"] 0 ++ contentsAt ["unpacked_bin", ".linux-x64-b"] 2) 4)

theorem find?_apart {d : Location} {nodes : List (Location × Node)} (h : ∀ x ∈ nodes, ¬ d <+: x.1) (l : Location) :
    nodes.find? (·.1 = d ++ l) = none := by
  refine List.find?_eq_none.2 fun x hx he => h x hx ?_
  rw [of_decide_eq_true he]
  exact List.prefix_append ..

theorem tree_contentsAt {fs : FileSystem} {number : Nat} (before after : List (Location × Node)) (hd : d ≠ [])
    (hnodes : fs.nodes = before ++ (contentsAt d number ++ after)) (hbefore : ∀ x ∈ before, ¬ d <+: x.1)
    (hafter : ∀ x ∈ after, ¬ d <+: x.1) : fs.tree d = completeTree number := by
  funext l
  have hfind : ((contentsAt d number).find? (·.1 = d ++ l)).map (·.2) = completeTree number l := by
    simp [contentsAt, completeTree, List.find?_map, Function.comp_def]
  rw [tree_apply, get?_of_ne (by simp [hd]), hnodes, List.find?_append, List.find?_append, find?_apart hbefore, find?_apart hafter,
    Option.none_or, Option.or_none, hfind]

/-! ### The directory of the destination -/

theorem get?_pairFiles {l : Location} (hl : l ≠ []) (hbin : l ≠ ["unpacked_bin"]) : (pairFiles [] 0).get? l = none := by
  rw [get?_of_ne hl, pairFiles, List.find?_cons_of_neg (by simpa using Ne.symm hbin)]
  rfl

theorem pairFiles_cases {l : Location} {node : Node} (h : (pairFiles [] 0).get? l = some node) :
    (l = [] ∨ l = ["unpacked_bin"]) ∧ node = .directory 0o755 := by
  by_cases hnil : l = []
  · subst hnil
    exact ⟨.inl rfl, (Option.some.inj h).symm⟩
  · by_cases hbin : l = ["unpacked_bin"]
    · subst hbin
      exact ⟨.inr rfl, (Option.some.inj h).symm⟩
    · cases (get?_pairFiles hnil hbin).symm.trans h

theorem extends_pairFiles (nodes : List (Location × Node)) (next : Nat) : (pairFiles [] 0).Extends (pairFiles nodes next) where
  dir := by
    rintro l ⟨mode, hl⟩
    obtain ⟨rfl | rfl, -⟩ := pairFiles_cases hl
    · exact isDir_nil
    · exact ⟨0o755, rfl⟩
  link := by
    intro l target hl
    cases (pairFiles_cases hl).2
  cwd _ := rfl

theorem path_pair : pair.plan.path = ⟨"/", ["unpacked_bin", "linux-x64"]⟩ := path_hostedPlan _ _

theorem destination_pair : pair.installation.destination = .ok pair.plan.path := by
  rw [path_pair]
  exact destination_hosted _ _

theorem home_pair : (pairFiles [] 0).Home pair.plan.path ["unpacked_bin"] := by
  rw [path_pair]
  have horigin : (pairFiles [] 0).origin (FilePath.toText ⟨"/", ["unpacked_bin", "linux-x64"]⟩) = [] := by decide
  have hdir : (pairFiles [] 0).get? ["unpacked_bin"] = some (.directory 0o755) := by decide
  refine ⟨⟨.inr (.inl rfl), by decide, by decide⟩, ⟨0, Nat.zero_le _, ?_⟩, ⟨_, hdir⟩, .inl (by decide)⟩
  rw [horigin]
  refine .step ⟨by decide, by decide⟩ ⟨by decide, .inl ⟨_, hdir⟩⟩ ?_ (.nil _)
  rintro ⟨target, ht⟩
  cases hdir.symm.trans ht

/-! ### What is in it -/

set_option maxRecDepth 10000

theorem suits_pair (x : Spot 2) : Fits pair.plan.path (pair.name pairMachine x) ∧ IsSendable (pair.path pairMachine x).toText := by
  have hall : ∀ x : Spot 2, ((isPart (pair.name pairMachine x) = true ∧ pair.name pairMachine x ≠ "..") ∧
      CodePoint.char '/' ∉ pair.name pairMachine x) ∧ byteLength (pair.name pairMachine x) ≤ nameLimit ∧
      byteLength (pair.path pairMachine x).toText < pathLimit ∧
      (Utf8.encodeName (pair.path pairMachine x).toText).toOption.any (!·.contains 0) := by decide +kernel
  obtain ⟨⟨hpart, hslash⟩, hshort, hbrief, hsend⟩ := hall x
  refine ⟨⟨⟨hpart, hslash⟩, hshort, hbrief⟩, ?_⟩
  cases hbytes : Utf8.encodeName (pair.path pairMachine x).toText with
  | error e => simp [hbytes, Except.toOption] at hsend
  | ok bytes => exact ⟨bytes, hbytes, by simpa [hbytes, Except.toOption] using hsend⟩

theorem sound_pair : pairMachine.files.Sound := by
  refine sound_of_nodes (fun x hx => ?_) (fun x hx name hname => ?_) (by decide +kernel)
  · have habove : ∀ x ∈ pairMachine.files.nodes, pairMachine.files.get? x.1.dropLast = some (.directory 0o755) := by decide +kernel
    exact ⟨_, habove x hx⟩
  · have hall : ∀ x ∈ pairMachine.files.nodes, ∀ name ∈ x.1, ((isPart name = true ∧ name ≠ "..") ∧ CodePoint.char '/' ∉ name) ∧
        Name.canonical name = name ∧ byteLength name ≤ nameLimit := by decide +kernel
    obtain ⟨⟨hname, hslash⟩, hcanonical, hshort⟩ := hall x hx name hname
    exact ⟨hname, hslash, hcanonical, hshort⟩

theorem tree_staged (k : Fin 2) : pairMachine.files.tree (pair.spot pairMachine ["unpacked_bin"] (.staging k)) = completeTree (2 * k) := by
  have hcases : k = 0 ∨ k = 1 := by omega
  rcases hcases with rfl | rfl
  · exact tree_contentsAt [(["unpacked_bin"], .directory 0o755)] (contentsAt ["unpacked_bin", ".linux-x64-b"] 2) (by decide) rfl
      (by decide) (by decide)
  · exact tree_contentsAt ((["unpacked_bin"], .directory 0o755) :: contentsAt ["unpacked_bin", ".linux-x64-a"] 0) [] (by decide) rfl
      (by decide) (by decide)

/-- A complete installation at the destination is current. -/
theorem judges_completeTree (number : Nat) : pair.Judges (pairFiles [] 0) ["unpacked_bin"] pairMachine (completeTree number) true := by
  have hat : (pairFiles (contentsAt ["unpacked_bin", "linux-x64"] number) 4).tree (child ["unpacked_bin"] pair.plan.path.name) =
      completeTree number := by
    rw [path_pair]
    exact tree_contentsAt [(["unpacked_bin"], .directory 0o755)] [] (by decide) rfl (by decide) (by decide)
  have hinstalled : (exec ((hosted ["run"] "https://h/run.tar").isInstalled ⟨"linux-x64", "https://h/run.tar", "tar"⟩)
      (serving [] (pairFiles (contentsAt ["unpacked_bin", "linux-x64"] number) 4))).1 = .ok true := by cbv
  rw [← hat]
  refine judges_of_noLinks destination_pair home_pair (suits_pair .destination).1.component (fun binary hbinary => ?_)
    (extends_pairFiles _ _) ?_ hinstalled
  · obtain rfl := List.mem_singleton.1 hbinary
    exact ⟨⟨by decide, by decide⟩, by decide⟩
  · rintro l hl ⟨target, hlink⟩
    have hnode := mem_nodes_of_get? hlink fun hnil => child_ne_nil (List.prefix_nil.1 (hnil ▸ hl))
    simp [serving, pairFiles, contentsAt, contents] at hnode

theorem opening_pair : pair.Opening (pairFiles [] 0) ["unpacked_bin"] pairMachine where
  sound := sound_pair
  races := rfl
  destination := destination_pair
  downward := by
    rw [path_pair]
    decide
  home := home_pair
  lasting := extends_pairFiles _ _
  vacant x := by
    rintro _ ⟨l, rfl⟩
    exact get?_pairFiles (by simp [spot, child]) (by simp [spot, child])
  suits := suits_pair
  distinct := by decide +kernel
  free := by decide +kernel
  staged k := ⟨0o755, by revert k; decide⟩
  marked k := by revert k; decide
  complete k := tree_staged k ▸ judges_completeTree _
  initial := by
    have hbare : pairMachine.files.tree (pair.spot pairMachine ["unpacked_bin"] .destination) = Tree.bare := by
      funext l
      rw [tree_apply, get?_of_ne (by simp [spot, child]), find?_apart (by decide)]
      rfl
    have hcomponent := (suits_pair .destination).1.component
    refine ⟨false, hbare ▸ judges_bare destination_pair home_pair hcomponent ?_⟩
    rw [← beside_name (ne_nil_of_name hcomponent)]
    exact (suits_pair .destination).2

/-- They take turns. -/
theorem settles_pair : (pair.run (start pairMachine) (List.replicate 52 [0, 1]).flatten).HasEnded ∧
    (exec (pair.installation.isInstalled pair.plan.dependency)
      (pair.run (start pairMachine) (List.replicate 52 [0, 1]).flatten).machine).1 = .ok true := by
  obtain ⟨-, -, hended, hsettled, -⟩ := settles opening_pair (List.replicate 52 [0, 1]).flatten rfl
  have hall := hended (by decide)
  exact ⟨hall, (hsettled (by decide) hall).1⟩

end Contest

end Prebuilt
