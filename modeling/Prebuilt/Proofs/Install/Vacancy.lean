import Prebuilt.Proofs.Install.Entering
import Prebuilt.Proofs.Install.Outcome
/-!
Destinations where nothing stands. A path that leads to such a destination does not lead through it; so where it would have to, there
is no directory for the staging directory to be made in, and nothing is installed.
-/
set_option autoImplicit false

namespace Prebuilt

open FileSystem Action FilePath

variable {m : Machine} {plan : Plan} {client : Option Client} {fs : FileSystem} {p : FilePath} {d : Location}

/-- What can be entered lies past every location where nothing is. -/
theorem FileSystem.CanEnter.past {s e : Location} {part : Text} (hvacant : fs.Vacant s) (h : fs.CanEnter e part) :
    byteLength part ≤ nameLimit ∧ ¬ s <+: child e part := by
  obtain ⟨hshort, hthere⟩ := h
  refine ⟨hshort, fun hs => ?_⟩
  have hnone := hvacant _ hs
  rcases hthere with ⟨mode, hg⟩ | ⟨target, hg⟩ <;> cases hnone.symm.trans hg

theorem FileSystem.Home.isDirect_of_none (hroot : fs.Rooted) (h : fs.Home p d) (hnone : fs.get? (child d p.name) = none) :
    fs.IsDirect p := by
  intro d' hd'
  obtain rfl := hd'.unique h.liesIn
  obtain ⟨n, -, hreach⟩ := h.reach
  exact ⟨n, hreach.mono fun e part hpass => hpass.past (vacant_of_none hroot hnone)⟩

/-- Where the path would lead through the destination and nothing is there, a plan fails and leaves everything as it was. -/
theorem Installation.exec_perform_indirect (i : Installation) (client : Option Client) (hplan : plan.Sane) (hsound : m.files.Sound)
    (hnone : m.files.IsFree plan.path plan.path.name) (hnot : ¬ m.files.IsDirect plan.path) :
    ∃ e m', exec (i.perform client plan) m = (.error e, m') ∧ m.Spared plan.path m' := by
  have hdown : Path.Downward plan.path.toText := hplan.text.symm ▸ hplan.downward
  rw [Installation.perform]
  rcases hrun : exec (makeAncestry plan.path.parent) m with ⟨r, m₁⟩
  have hmade : m.Holds (Made plan.path.parent.toText m.files) m₁ :=
    (keeps_makeAncestry_made (tidy_ofText _).parent (isOnWay_refl _)).after (Machine.holds_self (made_refl hsound)) hrun
  have hspared : m.Spared plan.path m₁ := hmade.spared (barren_nil hmade.files.sound).sealed (by rw [hmade.world])
  cases r with
  | error e => exact ⟨e, m₁, exec_bind_of_error hrun, hspared⟩
  | ok _ =>
  simp only [exec_bind_of_ok hrun]
  rcases exec_makeTemporary plan.path.parent.toText hmade.files.rooted hplan.name.isComponent_stagingName with
    ⟨e, he⟩ | ⟨attempt, s, mode, -, hfresh⟩
  · exact ⟨e, m₁, exec_bind_of_error he, hspared⟩
  · obtain ⟨d, -, hbeside⟩ := hfresh.beside (tidy_ofText _) (hplan.name.isComponent_stagingName attempt)
    have hfree := hmade.files.isFree (tidy_ofText _) hsound hdown hnone d hbeside.home.liesIn
    have hdirect := hbeside.home.isDirect_of_none hmade.files.rooted hfree
    exact absurd (hdirect.of_sameLinks hmade.files.sameLinks.symm hmade.files.cwd.symm) hnot

theorem Installing.exec_download_indirect (client : Option Client) (i : Installation) (hplan : plan.Sane) (hsound : m.files.Sound)
    (hnone : m.files.IsFree plan.path plan.path.name) (hnot : ¬ m.files.IsDirect plan.path) :
    ∃ r i' m', exec (Installing.download client plan) i m = ((r, i'), m') ∧ r ≠ .ok true ∧ m.Spared plan.path m' := by
  obtain ⟨r, m₁, hlog, hquiet⟩ := Installing.exec_log Log.info Installing.downloading
    (Text.join ["Downloading ", plan.key, " from ", plan.dependency.url]) i m
  cases r with
  | error e =>
    have hrun : exec (Installing.download client plan) i m = ((.error e, i), m₁) := exec_bind_of_error hlog
    have hspared : m.Spared plan.path m := ⟨rfl, fun _ => .inl rfl, hsound, rfl⟩
    exact ⟨_, _, _, hrun, by simp, hspared.of_quiet (quiet_refl m) hquiet⟩
  | ok _ =>
    obtain ⟨e, m₂, hperform, hspared⟩ := (i.keep plan.begun).exec_perform_indirect client hplan.begun (hquiet.files ▸ hsound)
      (hquiet.files ▸ hnone) (hquiet.files ▸ hnot)
    exact Installing.download_spared i hlog hquiet hperform hspared

end Prebuilt
