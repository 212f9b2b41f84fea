import Prebuilt.Proofs.Fields
import Prebuilt.Proofs.Install.Performing
/-!
Planning a download. Whatever the configuration that was accepted, a plan that is made of it can be carried out: its names can
stand in paths, and the archive gets a name of its own.
-/
set_option autoImplicit false

namespace Prebuilt

open FileSystem FilePath

/-! ## Work on an installation -/

namespace Installing

variable {α β : Type} {i i' : Installation} {m m' : Machine}

/-- What the work gives, with the installation and the machine it leaves behind. -/
def exec (work : Installing α) (i : Installation) (m : Machine) : (Except Error α × Installation) × Machine := (work.run.run i).run m

@[simp] theorem exec_pure (a : α) : exec (pure a) i m = ((.ok a, i), m) := rfl

@[simp] theorem exec_throw (e : Error) : exec (throw e : Installing α) i m = ((.error e, i), m) := rfl

theorem exec_bind (x : Installing α) (f : α → Installing β) : exec (x >>= f) i m =
    match exec x i m with
    | ((.ok a, i'), m') => exec (f a) i' m'
    | ((.error e, i'), m') => ((.error e, i'), m') := by
  rcases hx : exec x i m with ⟨⟨r, i'⟩, m'⟩
  rw [exec] at hx
  simp only [exec, ExceptT.run_bind, StateT.run_bind, hx]
  cases r <;> rfl

theorem exec_bind_of_ok {x : Installing α} {f : α → Installing β} {a : α} (h : exec x i m = ((.ok a, i'), m')) :
    exec (x >>= f) i m = exec (f a) i' m' := by
  rw [exec_bind, h]

theorem exec_bind_of_error {x : Installing α} {f : α → Installing β} {e : Error} (h : exec x i m = ((.error e, i'), m')) :
    exec (x >>= f) i m = ((.error e, i'), m') := by
  rw [exec_bind, h]

/-- Work made of two parts returns if and only if both do. -/
theorem bind_ok {x : Installing α} {f : α → Installing β} {b : β} : exec (x >>= f) i m = ((.ok b, i'), m') ↔
    ∃ a i₁ m₁, exec x i m = ((.ok a, i₁), m₁) ∧ exec (f a) i₁ m₁ = ((.ok b, i'), m') := by
  rw [exec_bind]
  rcases exec x i m with ⟨⟨r, i₁⟩, m₁⟩
  cases r with
  | error e => simp
  | ok a =>
    constructor
    · exact fun h => ⟨a, i₁, m₁, rfl, h⟩
    · rintro ⟨a', i₂, m₂, hx, h⟩
      cases hx
      exact h

@[simp] theorem exec_get : exec (get : Installing Installation) i m = ((.ok i, i), m) := rfl

@[simp] theorem exec_modify (change : Installation → Installation) :
    exec (modify change : Installing Unit) i m = ((.ok (), change i), m) := rfl

@[simp] theorem exec_act (action : Action α) : exec (act action) i m = (((Action.exec action m).1, i), (Action.exec action m).2) := by
  have hrun (rest : Except Error α → Installing α) : exec (liftM action.run >>= rest) i m =
      exec (rest (Action.exec action m).1) i (Action.exec action m).2 := rfl
  refine (hrun _).trans ?_
  cases (Action.exec action m).1 <;> rfl

@[simp] theorem exec_ofExcept (r : Except Error α) : exec (ofExcept r) i m = ((r, i), m) := by
  rw [ofExcept, exec_act, Action.exec_ofExcept]

theorem ofExcept_ok {r : Except Error α} {a : α} (h : exec (ofExcept r) i m = ((.ok a, i'), m')) : r = .ok a ∧ i' = i ∧ m' = m := by
  rw [exec_ofExcept] at h
  simp only [Prod.mk.injEq] at h
  exact ⟨h.1.1, h.1.2.symm, h.2.symm⟩

theorem act_ok {action : Action α} {a : α} (h : exec (act action) i m = ((.ok a, i'), m')) :
    Action.exec action m = (.ok a, m') ∧ i' = i := by
  rw [exec_act] at h
  simp only [Prod.mk.injEq] at h
  exact ⟨Prod.ext h.1.1 h.2, h.1.2.symm⟩

end Installing

/-! ## Configurations -/

/-- What is checked of a configuration before it is accepted. -/
structure WrapConfig.IsValid (config : WrapConfig) : Prop where
  binaries : ∀ binary ∈ config.binaries, isBinaryName binary = true
  urls : urlsFault? config.urls = none

theorem WrapConfig.isBinaryName_iff {name : Text} :
    isBinaryName name = true ↔ name ≠ [] ∧ CodePoint.char '/' ∉ name ∧ CodePoint.char '\\' ∉ name := by
  have hhas (c : CodePoint) : name.has c = false ↔ c ∉ name := by
    rw [Text.has, List.any_eq_false]
    exact ⟨fun h hmem => h c hmem (beq_self_eq_true c), fun h x hx he => h (beq_iff_eq.1 he ▸ hx)⟩
  simp only [isBinaryName, Bool.and_eq_true, Bool.not_eq_true', List.isEmpty_eq_false_iff, hhas, and_assoc, ne_eq]

theorem WrapConfig.checkedBinaries_ok_iff {place : List PlaceStep} {x : Json} {names : List Text} :
    checkedBinaries place x = .ok names ↔ x.asTexts place = .ok names ∧ ∀ name ∈ names, isBinaryName name = true := by
  rw [checkedBinaries]
  cases x.asTexts place with
  | error issues => simp
  | ok texts =>
    dsimp only
    cases hfind : texts.find? (!isBinaryName ·) with
    | none =>
      simp only [List.find?_eq_none, Bool.not_eq_true', Bool.not_eq_false] at hfind
      exact ⟨fun h => ⟨h, Except.ok.inj h ▸ hfind⟩, fun h => h.1⟩
    | some name =>
      refine iff_of_false (by simp [Checked.reject]) ?_
      rintro ⟨htexts, hnames⟩
      cases htexts
      have hbad := List.find?_some hfind
      rw [hnames name (List.mem_of_find?_eq_some hfind)] at hbad
      cases hbad

theorem WrapConfig.checkedUrls_ok_iff {place : List PlaceStep} {x : Json} {urls : List (Text × Text)} :
    checkedUrls place x = .ok urls ↔ x.asTable place = .ok urls ∧ urlsFault? urls = none := by
  rw [checkedUrls]
  cases x.asTable place with
  | error issues => simp
  | ok table =>
    dsimp only
    cases hfault : urlsFault? table with
    | none => exact ⟨fun h => ⟨h, Except.ok.inj h ▸ hfault⟩, fun h => h.1⟩
    | some reason =>
      refine iff_of_false (by simp [Checked.reject]) ?_
      rintro ⟨htable, hnone⟩
      cases htable
      cases hfault.symm.trans hnone

/-- A configuration is read from the three fields, each of them checked. -/
theorem WrapConfig.ofFields_ok_iff {fields : Fields} {config : WrapConfig} : ofFields fields = .ok config ↔
    Fields.required fields "dirname" Json.asText = .ok config.directory ∧
      Fields.required fields "binaries" checkedBinaries = .ok config.binaries ∧
        Fields.required fields "urls" checkedUrls = .ok config.urls := by
  simp only [ofFields, map_ok_iff, Checked.both_ok_iff]
  constructor
  · rintro ⟨⟨directory, binaries, urls⟩, ⟨hdirectory, hbinaries, hurls⟩, rfl⟩
    exact ⟨hdirectory, hbinaries, hurls⟩
  · exact fun h => ⟨(config.directory, config.binaries, config.urls), h, rfl⟩

theorem WrapConfig.isValid_of_fields {fields : Fields} {config : WrapConfig} (h : ofFields fields = .ok config) : config.IsValid := by
  obtain ⟨-, hbinaries, hurls⟩ := ofFields_ok_iff.1 h
  obtain ⟨_, -, hbinaries⟩ := Fields.required_ok_iff.1 hbinaries
  obtain ⟨_, -, hurls⟩ := Fields.required_ok_iff.1 hurls
  exact ⟨(checkedBinaries_ok_iff.1 hbinaries).2, (checkedUrls_ok_iff.1 hurls).2⟩

namespace WrapConfig.IsValid

variable {config : WrapConfig} {key url binary : Text} {dependency : Dependency}

theorem slash_not_mem (h : config.IsValid) (hbinary : binary ∈ config.binaries) : CodePoint.char '/' ∉ binary :=
  (isBinaryName_iff.1 (h.binaries binary hbinary)).2.1

theorem ne_nil (h : config.IsValid) (hbinary : binary ∈ config.binaries) : binary ≠ [] :=
  (isBinaryName_iff.1 (h.binaries binary hbinary)).1

theorem entry (h : config.IsValid) (hmem : (key, url) ∈ config.urls) :
    Platform.isKnownKey key = true ∧ ∃ type, archiveType url = .ok type := by
  have hurls := h.urls
  simp only [urlsFault?] at hurls
  split at hurls
  · cases hurls
  split at hurls
  · cases hurls
  rename_i hunknown
  simp only [Bool.not_eq_true', List.isEmpty_eq_false_iff, ne_eq, not_not, List.filter_eq_nil_iff, List.forall_mem_map] at hunknown
  refine ⟨by simpa using hunknown _ hmem, ?_⟩
  have htype := List.findSome?_eq_none_iff.1 hurls _ hmem
  cases hresult : archiveType url with
  | ok type => exact ⟨type, rfl⟩
  | error e => simp [hresult] at htype

theorem of_dependency (h : config.IsValid) (hdependency : config.dependency? key = .ok (some dependency)) :
    Platform.isKnownKey key = true ∧ archiveType dependency.url = .ok dependency.archiveType := by
  rw [dependency?] at hdependency
  split at hdependency
  · cases hdependency
  · rename_i url hget
    obtain ⟨hkey, type, htype⟩ := h.entry (Table.mem_of_get? hget)
    rw [Dependency.ofUrl, htype] at hdependency
    cases hdependency
    exact ⟨hkey, htype⟩

end WrapConfig.IsValid

/-- The name of an archive that has a type can stand in a path. -/
theorem isComponent_archiveName {url type : Text} (h : archiveType url = .ok type) : IsComponent (Action.archiveName url) := by
  have hname : ∀ name : Text, name = [] ∨ name = "." ∨ name = ".." →
      (archiveSuffixes.find? fun entry => entry.1.isSuffixOf (Text.lower name)) = none := by
    rintro name (rfl | rfl | rfl) <;> decide
  have hne : ∀ name : Text, name = [] ∨ name = "." ∨ name = ".." → Text.afterLast '/' url ≠ name := by
    rintro name hcases rfl
    rw [archiveType, hname _ hcases] at h
    cases h
  have hempty : (Text.afterLast '/' url).isEmpty = false := by simpa using hne [] (by simp)
  rw [Action.archiveName]
  simp only [hempty, Bool.false_eq_true, if_false]
  exact ⟨⟨isPart_iff.2 ⟨hne [] (by simp), hne "." (by simp)⟩, hne ".." (by simp)⟩, Text.not_mem_afterLast _ _⟩

/-! ## Plans -/

variable {i i' : Installation} {m m' : Machine} {plan : Plan} {dir : FilePath} {force : Json}

theorem Installation.directory_tidy (h : i.directory = .ok dir) : dir.Tidy := by
  rw [directory] at h
  split at h
  · cases h
    exact (tidy_ofText _).div _
  · split at h
    · cases h
      exact tidy_ofText _
    · cases h

/-- What a plan is made of. -/
structure Installation.Plans (i : Installation) (force : Json) (plan : Plan) : Prop where
  key : plan.key = i.key
  dependency : i.hostDependency = .ok plan.dependency
  destination : ∃ dir, i.directory = .ok dir ∧ plan.destination = (dir / i.key).toText
  binaries : plan.binaries = i.config.binaries
  force : plan.force = if force.isFalsy then i.settings.forceDownload else force

/-- Planning leaves the machine alone. A plan is made for the platform, unless a current installation is there. -/
theorem Installing.plan_ok (h : exec (Installing.plan force) i m = ((.ok (), i'), m')) :
    m' = m ∧ i'.config = i.config ∧ i'.settings = i.settings ∧ i'.key = i.key ∧
      ((∃ dependency, i.hostDependency = .ok dependency ∧ (Action.exec (i.isInstalled dependency) m).1 = .ok true ∧ i'.plans = []) ∨
        ∃ plan, i.Plans force plan ∧ i'.plans = [(i.key, plan)]) := by
  rw [Installing.plan, exec_bind_of_ok (exec_modify _), exec_bind_of_ok exec_get] at h
  obtain ⟨dependency, _, _, hlook, h₁⟩ := bind_ok.1 h
  obtain ⟨hdependency, rfl, rfl⟩ := ofExcept_ok hlook
  obtain ⟨destination, _, _, hlook, h₂⟩ := bind_ok.1 h₁
  obtain ⟨hmap, rfl, rfl⟩ := ofExcept_ok hlook
  clear h h₁
  have hdestination : i.directory.map (· / i.key) = .ok destination := hmap
  have hplan (given : Json) (hgiven : (if force.isFalsy then i.settings.forceDownload else force) = given) :
      i.Plans force ⟨i.key, dependency, destination.toText, i.config.binaries, given, .pending, none⟩ := by
    cases hdir : i.directory with
    | error e =>
      rw [hdir] at hdestination
      cases hdestination
    | ok dir =>
      rw [hdir] at hdestination
      cases hdestination
      exact ⟨rfl, hdependency, ⟨dir, hdir, rfl⟩, rfl, hgiven.symm⟩
  simp only at h₂
  generalize hgiven : (if force.isFalsy then i.settings.forceDownload else force) = given at h₂
  split at h₂
  · obtain ⟨current, _, _, hlook, h₃⟩ := bind_ok.1 h₂
    obtain ⟨hinstalled, rfl⟩ := act_ok hlook
    obtain rfl : _ = _ := (congrArg Prod.snd hinstalled).symm.trans (Installation.exec_isInstalled _ _ _)
    cases current with
    | true =>
      cases h₃
      exact ⟨rfl, rfl, rfl, rfl, .inl ⟨dependency, hdependency, congrArg Prod.fst hinstalled, rfl⟩⟩
    | false =>
      cases h₃
      exact ⟨rfl, rfl, rfl, rfl, .inr ⟨_, hplan _ hgiven, rfl⟩⟩
  · cases h₂
    exact ⟨rfl, rfl, rfl, rfl, .inr ⟨_, hplan _ hgiven, rfl⟩⟩

/-- The installation once a plan is made for it. -/
def Installation.planned (i : Installation) (plan : Plan) : Installation :=
  ({ i with plans := [(plan.key, plan)] }).putState ⟨i.key, .pending, none, none⟩

/-- The installation once it was found to be there, and current. -/
def Installation.settled (i : Installation) (destination : Text) : Installation :=
  ({ i with plans := [] }).putState ⟨i.key, .completed, some destination, none⟩

/-- Planning does not fail where the platform is supported, unless it has to look at what is installed and cannot. -/
theorem Installing.exec_plan {dependency : Dependency} {destination : FilePath} {given : Json} {current : Bool}
    (hdependency : i.hostDependency = .ok dependency) (hdestination : i.destination = .ok destination)
    (hgiven : (if force.isFalsy then i.settings.forceDownload else force) = given)
    (hcurrent : if given.isFalsy then (Action.exec (i.isInstalled dependency) m).1 = .ok current else current = false) :
    exec (Installing.plan force) i m = ((.ok (), if current then i.settled destination.toText
      else i.planned ⟨i.key, dependency, destination.toText, i.config.binaries, given, .pending, none⟩), m) := by
  have hsame : ({ i with plans := [] } : Installation).hostDependency = .ok dependency := hdependency
  have hsame' : ({ i with plans := [] } : Installation).destination = .ok destination := hdestination
  rw [Installing.plan, exec_bind_of_ok (exec_modify _), exec_bind_of_ok exec_get]
  simp only [hsame, hsame', hgiven]
  rw [exec_bind_of_ok (exec_ofExcept _), exec_bind_of_ok (exec_ofExcept _)]
  cases hfalsy : given.isFalsy with
  | true =>
    rw [if_pos hfalsy] at hcurrent
    have hlook : exec (act (({ i with plans := [] } : Installation).isInstalled dependency)) { i with plans := [] } m =
        ((.ok current, { i with plans := [] }), m) := by
      rw [exec_act, Installation.exec_isInstalled]
      exact congrArg (fun r => ((r, _), m)) hcurrent
    rw [if_pos rfl, exec_bind_of_ok hlook]
    cases current <;> rfl
  | false =>
    rw [if_neg (by simp [hfalsy])] at hcurrent
    subst hcurrent
    rfl

theorem Installing.exec_plan_forced {dependency : Dependency} {destination : FilePath} (hdependency : i.hostDependency = .ok dependency)
    (hdestination : i.destination = .ok destination) (hforced : force.isFalsy = false) : exec (Installing.plan force) i m =
      ((.ok (), i.planned ⟨i.key, dependency, destination.toText, i.config.binaries, force, .pending, none⟩), m) := by
  have hfree : if force.isFalsy then (Action.exec (i.isInstalled dependency) m).1 = .ok false else false = false := by simp [hforced]
  exact exec_plan hdependency hdestination (by simp [hforced]) hfree

section

variable (hplans : i.Plans force plan)
include hplans

theorem Installation.Plans.dependency? : i.config.dependency? i.key = .ok (some plan.dependency) := by
  have hhost := hplans.dependency
  rw [Installation.hostDependency] at hhost
  cases hfound : i.config.dependency? i.key with
  | error e =>
    rw [hfound] at hhost
    cases hhost
  | ok found =>
    rw [hfound] at hhost
    cases found with
    | none => cases hhost
    | some dependency =>
      cases hhost
      rfl

/-- The destination lies in the directory under the name of the platform. -/
theorem Installation.Plans.path (hname : IsComponent i.key) : ∃ dir, i.directory = .ok dir ∧ plan.path = dir.under [i.key] ∧
    plan.destination = (dir.under [i.key]).toText := by
  obtain ⟨dir, hdir, hdestination⟩ := hplans.destination
  have hparts : dir / i.key = dir.under [i.key] := by
    rw [dir.div_eq_under hname.noSlash, Path.names_of_part hname.isName.1 hname.noSlash]
  refine ⟨dir, hdir, ?_, by rw [hdestination, hparts]⟩
  rw [Plan.path, hdestination, ((Installation.directory_tidy hdir).div _).ofText_toText, hparts]

theorem Installation.Plans.name (hconfig : i.config.IsValid) : plan.path.name = i.key ∧ Platform.isKnownKey i.key = true := by
  obtain ⟨hkey, -⟩ := hconfig.of_dependency hplans.dependency?
  obtain ⟨dir, -, hpath, -⟩ := hplans.path (isPlatformName_of_isKnownKey hkey).component
  exact ⟨by rw [hpath, FilePath.name, under, List.getLast?_concat, Option.getD_some], hkey⟩

/-- A plan that was made of an accepted configuration, for a directory whose path does not lead up, is sane. -/
theorem Installation.Plans.sane (hconfig : i.config.IsValid) (hdown : ∀ dir, i.directory = .ok dir → Path.Downward dir.toText) :
    plan.Sane := by
  obtain ⟨hkey, htype⟩ := hconfig.of_dependency hplans.dependency?
  have hname := isPlatformName_of_isKnownKey hkey
  obtain ⟨dir, hdir, hpath, hdestination⟩ := hplans.path hname.component
  have htidy := Installation.directory_tidy hdir
  have hstep : ∀ name ∈ [i.key], IsStep name := by simpa using hname.component.isStep
  refine ⟨by rw [hpath, hdestination], (hplans.name hconfig).1 ▸ hname, ?_, isComponent_archiveName htype, fun binary hbinary => ?_⟩
  · rw [hdestination, Path.Downward, (htidy.under hstep).names_toText, under]
    have hdown := hdown dir hdir
    rw [Path.Downward, htidy.names_toText] at hdown
    intro part hpart
    rcases List.mem_append.1 hpart with hpart | hpart
    · exact hdown part hpart
    · exact List.mem_singleton.1 hpart ▸ hname.component.isName.2
  · exact hconfig.slash_not_mem (hplans.binaries ▸ hbinary)

end

end Prebuilt
