import Prebuilt.Proofs.Install.Discreet
import Prebuilt.Proofs.Wrapper.Verifying
/-!
What a wrapper does is the same whatever is shown of it, if its table, its directory and the directories that it may be told to use
can be written down.
-/
set_option autoImplicit false

namespace Prebuilt

open Action

variable {w : Wrapper} {i : Installation} {m m' : Machine} {settings : Settings}

/-- The table can be written down, and so can the directory to install in. -/
structure Installation.IsWritable (i : Installation) : Prop where
  urls : ∀ entry ∈ i.config.urls, entry.1.isString = true ∧ entry.2.isString = true
  directory : i.config.directory.isString = true
  settings : i.settings.IsWritable

namespace Installation

/-- The destination of what the table has for the platform. -/
theorem IsWritable.destination {dependency : Dependency} {path : FilePath} (h : i.IsWritable)
    (hdependency : i.hostDependency = .ok dependency) (hpath : i.destination = .ok path) :
    i.key.isString = true ∧ dependency.url.isString = true ∧ path.IsWritable := by
  obtain ⟨hkey, hurl⟩ := h.urls _ (Table.mem_of_get? (i.url_of_hostDependency hdependency))
  refine ⟨hkey, hurl, ?_⟩
  have hdirectory : ∀ directory, i.directory = .ok directory → directory.IsWritable := by
    intro directory hdirectory
    unfold Installation.directory at hdirectory
    split at hdirectory
    · cases hdirectory
      exact (FilePath.isWritable_ofText h.directory).div rfl
    · split at hdirectory
      · rename_i t ht
        cases hdirectory
        exact FilePath.isWritable_ofText (h.settings t ht)
      · cases hdirectory
  rw [Installation.destination] at hpath
  cases hdir : i.directory with
  | error e =>
    rw [hdir] at hpath
    cases hpath
  | ok directory =>
    rw [hdir] at hpath
    cases hpath
    exact (hdirectory directory hdir).div hkey

/-- What is planned can be written down. -/
theorem IsWritable.pending {j : Installation} {m' : Machine} {force : Json} (h : i.IsWritable)
    (hrun : Installing.exec (Installing.plan force) i m = ((.ok (), j), m')) : ∀ plan ∈ j.pending, plan.IsWritable := by
  obtain ⟨r, j', hrun', hending⟩ := Installing.plan_ending force i m
  cases hrun.symm.trans hrun'
  cases hending with
  | settled => exact fun plan hplan => nomatch hplan
  | planned hdependency hdestination =>
    obtain ⟨hkey, hurl, hpath⟩ := h.destination hdependency hdestination
    intro plan hplan
    obtain rfl := List.mem_singleton.1 hplan
    exact ⟨hkey, hurl, hpath.isString_toText⟩

theorem discreet_within {α : Type} {work : Installing α} (h : Installing.Discreet i work) : Discreet (i.within work) := fun m m' hm => by
  obtain ⟨hr, hm⟩ := h m m' hm
  rw [exec_within, exec_within, hr]
  exact ⟨rfl, hm⟩

end Installation

namespace Wrapper

/-- What the wrapper was given can be written down. -/
structure IsWritable (w : Wrapper) : Prop where
  urls : ∀ entry ∈ w.config.urls, entry.1.isString = true ∧ entry.2.isString = true
  directory : w.config.directory.isString = true
  settings : ∀ s, w.settings = some s → s.IsWritable

/-! ## Installing -/

theorem discreet_work (w : Wrapper) (force : Json) (h : i.IsWritable) : Installing.Discreet i (w.work force) := by
  refine (Installing.discreet_plan force i).bind_of fun _ i₁ _ _ hplan => ?_
  refine (Installing.discreet_downloadAll w.client (h.pending hplan)).bind fun done i₂ => ?_
  refine Installing.Discreet.ite (Installing.discreet_get_bind ?_) (Installing.discreet_get_bind ?_)
  · exact (Installing.discreet_of_exec fun _ => Installing.exec_throw _).bind_of fun _ _ _ _ hrun => nomatch hrun
  · have hsummary : (Text.join ["Download summary: ", Text.ofNat i₂.summary.completed, " completed, ", Text.ofNat i₂.summary.failed,
        " failed, ", Text.ofNat i₂.summary.pending, " pending"]).isString = true := by
      simp only [Text.isString_join, List.all_cons, List.all_nil, Text.isString_ofNat]
      rfl
    refine (Installing.discreet_act (discreet_log _ (.inr hsummary)) i₂).bind fun _ i₃ => Installing.discreet_get_bind ?_
    exact Installing.discreet_ofExcept _ i₃

theorem isWritable_ofEnvironment {environment : Table Text}
    (henvironment : ∀ t, Table.get? Settings.directoryVariable environment = some t → t.isString = true)
    (h : Settings.ofEnvironment environment = .ok settings) : settings.IsWritable := by
  have hvalue : ∀ t, Settings.valueOf? environment Settings.directoryVariable = some t → t.isString = true := fun t ht =>
    henvironment t (Option.filter_eq_some_iff.1 ht).1
  intro t ht
  have hdirectory : settings.installDirectory = (Settings.valueOf? environment Settings.directoryVariable).elim .null .text := by
    unfold Settings.ofEnvironment at h
    dsimp only at h
    split at h
    · cases h
      cases Settings.valueOf? environment Settings.directoryVariable <;> rfl
    · split at h
      · cases h
        cases Settings.valueOf? environment Settings.directoryVariable <;> rfl
      · cases h
  cases hset : Settings.valueOf? environment Settings.directoryVariable with
  | none =>
    rw [hdirectory, hset] at ht
    cases ht
  | some value =>
    rw [hdirectory, hset] at ht
    cases ht
    exact hvalue _ hset

theorem discreet_currentSettings (w : Wrapper) : Discreet w.currentSettings := by
  refine discreet_get_bind (fun m m' h => ?_) fun m m' h => by rw [h.same (·.settings) fun _ => rfl]
  split
  · exact composes_discreet.pure _
  · refine discreet_get_bind (fun m m' h => ?_) fun m m' h => by rw [h.same (·.environment) fun _ => rfl]
    cases hread : Settings.ofEnvironment m.environment with
    | error e => exact (composes_discreet.throw e).bind_of fun _ _ _ _ hrun => nomatch hrun
    | ok read =>
      have hput : Discreet (modify fun m => { m with settings := Table.put w.name read m.settings }) := by
        refine discreet_modify (fun _ => rfl) (fun _ => rfl) fun k hk => ⟨hk.1, hk.2, hk.3, fun entry hentry => ?_⟩
        rcases Table.mem_put hentry with rfl | hentry
        · exact isWritable_ofEnvironment h.writable.environment hread
        · exact hk.4 entry hentry
      exact (composes_discreet.ofExcept (.ok read)).bind_of fun s _ _ _ hrun => by
        cases hrun
        exact hput.bind fun _ => composes_discreet.pure _

theorem IsWritable.currentSettings (h : w.IsWritable) (hm : m.IsWritable) (hrun : exec w.currentSettings m = (.ok settings, m')) :
    settings.IsWritable := by
  obtain ⟨m₁, hsettings, -⟩ := w.exec_currentSettings m
  have hon : w.settingsOn m = .ok settings := congrArg Prod.fst (hsettings.symm.trans hrun)
  unfold settingsOn at hon
  split at hon
  · rename_i hgiven
    cases hon
    rcases Option.or_eq_some_iff.1 hgiven with hgiven | ⟨-, hread⟩
    · exact h.settings _ hgiven
    · exact hm.settings _ (Table.mem_of_get? hread)
  · exact isWritable_ofEnvironment hm.environment hon

theorem discreet_install (h : w.IsWritable) (force : Json) : Discreet (w.install force) := by
  have hinstallation : Discreet w.installation := by
    refine w.discreet_currentSettings.bind fun settings => discreet_get_bind (fun _ _ _ => composes_discreet.pure _) fun m m' hm => ?_
    rw [hm.same (·.host) fun _ => rfl]
  refine hinstallation.bind_of fun i m m₁ hm hrun => Installation.discreet_within (w.discreet_work force ?_)
  obtain ⟨settings, hsettings, rfl⟩ := installation_ok hrun
  exact ⟨h.urls, h.directory, h.currentSettings hm hsettings⟩

/-! ## Asking about the addresses -/

theorem discreet_verifyEntry (client : Client) {entry : Text × Text} (h : entry.1.isString = true ∧ entry.2.isString = true) :
    Discreet (verifyEntry client entry) := by
  have hpublished : Discreet (isPublished client entry.2) := by
    refine (client.discreet_headStatus entry.2).attempt.bind fun result => ?_
    split
    · exact composes_discreet.pure _
    · exact (discreet_log _ (.inl (Int.le_refl _))).bind fun _ => composes_discreet.pure _
    · exact composes_discreet.throw _
  refine hpublished.bind fun published => ?_
  cases published with
  | true =>
    have hmessage : (Text.join [entry.1, ": ", entry.2, " ok"]).isString = true := by
      simp only [Text.isString_join, List.all_cons, List.all_nil, h.1, h.2]
      rfl
    exact (discreet_log _ (.inr hmessage)).bind fun _ => composes_discreet.pure _
  | false => exact (discreet_log _ (.inl (Int.le_refl _))).bind fun _ => composes_discreet.pure _

theorem discreet_verifyUrls (h : w.IsWritable) : Discreet w.verifyUrls := by
  have hall (client : Client) : Discreet (w.config.urls.mapM (verifyEntry client)) :=
    composes_discreet.mapM fun entry hentry => discreet_verifyEntry client (h.urls entry hentry)
  rw [verifyUrls]
  cases w.client with
  | some client => exact (composes_discreet.pure client).bind hall
  | none => exact w.discreet_currentSettings.bind fun settings => (Client.discreet_opened settings.timeout).bind hall

end Wrapper

end Prebuilt
