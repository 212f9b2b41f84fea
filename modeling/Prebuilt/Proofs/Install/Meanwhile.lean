import Prebuilt.Proofs.Install.Rechecking
/-!
Others at work while an archive is on its way. Up to the request a download makes two directories, and from the answer on it works
in them alone; so whatever others have left at the destination meanwhile is there when it comes to putting things in place.
-/
set_option autoImplicit false

namespace Prebuilt

open FileSystem Action FilePath

variable {i : Installation} {client : Option Client} {plan : Plan} {m m₁ m₂ m₃ : Machine} {reply : Reply}

/-! ## Up to the request, and from the answer on -/

/-- What a download works with: a staging directory, a directory for the archive, and a client. -/
structure Workplace where
  staging : FilePath
  directory : Text
  client : Client

namespace Workplace

/-- Where the archive is kept. -/
abbrev archive (w : Workplace) (plan : Plan) : Text := Path.join w.directory (archiveName plan.dependency.url)

end Workplace

namespace Installation

/-- All that is done before the archive is asked for. -/
def approach (i : Installation) (client : Option Client) (plan : Plan) : Action Workplace := do
  log Log.info Installing.downloading (Text.join ["Downloading ", plan.key, " from ", plan.dependency.url])
  makeAncestry plan.path.parent
  let staging ← makeTemporary plan.path.parent.toText (Text.join [".", plan.path.name, "-"])
  let directory ← makeTemporary (← get).temporary "runwrap-"
  let archive := Path.join directory (archiveName plan.dependency.url)
  makeDirectories (Path.parent archive) true
  log Log.info downloading (Text.join ["Downloading file from ", plan.dependency.url, " to ", archive])
  let client ← clientOr client i.settings.timeout
  return ⟨ofText staging, directory, client⟩

/-- All that is done with the answer until the staging directory is ready to be put in place. -/
def prepare (plan : Plan) (w : Workplace) (reply : Reply) : Action Unit := do
  receive plan.dependency.url (w.archive plan) reply
  log Log.info extracting (Text.join ["Extracting ", w.archive plan, " to ", w.staging.toText])
  extractArchive (w.archive plan) w.staging.toText plan.dependency.archiveType
  discard w.directory
  finish plan w.staging

/-- What is done with a staging directory that is ready. -/
def conclude (i : Installation) (plan : Plan) (staging : FilePath) : Action Unit := do
  match ← attempt (i.settle plan staging plan.path attempts) with
  | .ok true => return ()
  | result =>
    removeTree staging.toText
    let _ ← Action.ofExcept result

/-- A download that comes to its install step, step by step. -/
structure Comes (i : Installation) (client : Option Client) (plan : Plan) (m : Machine) (w : Workplace) (m₁ : Machine) (reply : Reply)
    (m₂ m₃ : Machine) : Prop where
  approached : exec (i.approach client plan) m = (.ok w, m₁)
  answered : exec (w.client.send .get plan.dependency.url) m₁ = (.ok reply, m₂)
  prepared : exec (prepare plan w reply) m₂ = (.ok (), m₃)

variable {w : Workplace}

/-- Such a download is what it does at its install step. -/
theorem Comes.exec_perform (h : i.Comes client plan m w m₁ reply m₂ m₃) : ∃ m₀,
    exec (log Log.info Installing.downloading (Text.join ["Downloading ", plan.key, " from ", plan.dependency.url])) m = (.ok (), m₀) ∧
      exec (i.perform client plan) m₀ = exec (i.conclude plan w.staging) m₃ := by
  obtain ⟨_, m₀, hlog, h₀⟩ := bind_ok.1 h.approached
  refine ⟨m₀, hlog, ?_⟩
  obtain ⟨_, n₁, hancestry, h₁⟩ := bind_ok.1 h₀
  obtain ⟨staging, n₂, hstaging, h₂⟩ := bind_ok.1 h₁
  obtain ⟨_, _, hget, h₃⟩ := bind_ok.1 h₂
  cases hget
  obtain ⟨directory, n₃, hdirectory, h₄⟩ := bind_ok.1 h₃
  obtain ⟨_, n₄, hparent, h₅⟩ := bind_ok.1 h₄
  obtain ⟨_, n₅, htold, h₆⟩ := bind_ok.1 h₅
  obtain ⟨given, n₆, hclient, h₇⟩ := bind_ok.1 h₆
  cases h₇
  obtain ⟨_, n₇, hreceive, h₈⟩ := bind_ok.1 h.prepared
  obtain ⟨_, n₈, hextracting, h₉⟩ := bind_ok.1 h₈
  obtain ⟨_, n₉, hextract, h₁₀⟩ := bind_ok.1 h₉
  obtain ⟨_, n₁₀, hremove, hfinish⟩ := bind_ok.1 h₁₀
  have hfetch : exec (fetch given plan.dependency.url (Path.join directory (archiveName plan.dependency.url))) m₁ = (.ok (), n₇) := by
    rw [fetch_eq, exec_bind_of_ok h.answered]
    exact hreceive
  have hfile : exec (downloadFile client i.settings.timeout plan.dependency.url
      (Path.join directory (archiveName plan.dependency.url))) n₃ = (.ok (), n₇) := by
    rw [downloadFile, exec_bind_of_ok hparent, exec_bind_of_ok htold, exec_bind_of_ok hclient, exec_catching, hfetch]
  have hdownload : exec (downloadArchive client i.settings.timeout plan.dependency.url (ofText staging).toText
      plan.dependency.archiveType) n₂ = (.ok (), n₁₀) := by
    rw [downloadArchive, exec_bind_of_ok exec_get, exec_bind_of_ok hdirectory]
    simp only [exec_ensure]
    rw [exec_bind_of_ok hfile, exec_bind_of_ok hextracting, hextract]
    simp only [hremove]
  have hfill : exec (i.fill client plan (ofText staging)) n₂ = exec (i.settle plan (ofText staging) plan.path attempts) m₃ := by
    rw [exec_fill_eq, exec_bind_of_ok hdownload, exec_bind_of_ok hfinish]
  rw [perform, exec_bind_of_ok hancestry, exec_bind_of_ok hstaging, exec_bind_of_ok (exec_attempt _), hfill]
  symm
  exact exec_bind_of_ok (exec_attempt _)

end Installation

/-! ## The two directories -/

/-- The directories above the destination are there; so are a staging directory beside it and a directory for the archive, both
new. -/
structure Approached (m : Machine) (plan : Plan) (w : Workplace) (base : FileSystem) (d t : Location) (attempt mode mode' : Nat)
    (fs : FileSystem) : Prop where
  made : Made plan.path.parent.toText m.files base
  staging : w.staging = plan.path.beside (plan.stagingName attempt)
  beside : Beside base plan.path d (plan.stagingName attempt)
  directory : ∃ attempt', w.directory = temporaryPath m.temporary "runwrap-" attempt'
  fresh : Fresh (base.put (child d (plan.stagingName attempt)) (.directory mode)) w.directory t
  files : fs = (base.put (child d (plan.stagingName attempt)) (.directory mode)).put t (.directory mode')

theorem Installation.approach_ok (hplan : plan.Sane) (hsound : m.files.Sound) {w : Workplace}
    (h : exec (i.approach client plan) m = (.ok w, m₁)) :
    ∃ base d t attempt mode mode', Approached m plan w base d t attempt mode mode' m₁.files := by
  obtain ⟨_, n₀, hlog, h⟩ := bind_ok.1 h
  have hquiet := quiet_log Log.info Installing.downloading
    (Text.join ["Downloading ", plan.key, " from ", plan.dependency.url]) m
  rw [hlog] at hquiet
  obtain ⟨_, n₁, hancestry, h⟩ := bind_ok.1 h
  have hmade : n₀.Holds (Made plan.path.parent.toText n₀.files) n₁ :=
    (keeps_makeAncestry_made (tidy_ofText _).parent (isOnWay_refl _)).after
      (Machine.holds_self (made_refl (hquiet.files ▸ hsound))) hancestry
  have htemporary : n₁.temporary = m.temporary :=
    (hmade.same (·.temporary) fun _ _ _ => rfl).trans (hquiet.same (·.temporary) fun _ _ _ => rfl)
  obtain ⟨staging, n₂, hstaging, h⟩ := bind_ok.1 h
  rcases exec_makeTemporary plan.path.parent.toText hmade.files.rooted hplan.name.isComponent_stagingName with
    ⟨e, he⟩ | ⟨attempt, s, mode, he, hstaged⟩
  · cases hstaging.symm.trans he
  cases hstaging.symm.trans he
  obtain ⟨d, rfl, hbeside⟩ := hstaged.beside (tidy_ofText _) (hplan.name.isComponent_stagingName attempt)
  have hbarren : Barren [child d (plan.stagingName attempt)] (n₁.files.put (child d (plan.stagingName attempt)) (.directory mode)) :=
    hbeside.fresh.barren (barren_nil hmade.files.sound)
  obtain ⟨_, _, hget, h⟩ := bind_ok.1 h
  cases hget
  obtain ⟨directory, n₃, hdirectory, h⟩ := bind_ok.1 h
  rcases exec_makeTemporary n₁.temporary (m := { n₁ with files := n₁.files.put _ _ }) hbarren.rooted
    isComponent_temporaryName with ⟨e, he⟩ | ⟨attempt', t, mode', he, hfresh⟩
  · cases hdirectory.symm.trans he
  cases hdirectory.symm.trans he
  obtain ⟨_, n₄, hparent, h⟩ := bind_ok.1 h
  have hopened : Barren [t, child d (plan.stagingName attempt)]
    ((n₁.files.put (child d (plan.stagingName attempt)) (.directory mode)).put t (.directory mode')) := hfresh.barren hbarren
  have habove := quiet_makeDirectories_parent (m := { n₁ with files := (n₁.files.put _ _).put t _ }) hopened.sound
    (hfresh.addresses.of_extends (extends_put hfresh.nameable.ne_nil hfresh.none))
    ⟨mode', by rw [get?_put hfresh.nameable.ne_nil, if_pos rfl]⟩ hplan.archive
  rw [hparent] at habove
  obtain ⟨_, n₅, htold, h⟩ := bind_ok.1 h
  have hquiet₅ := quiet_log Log.info downloading (Text.join ["Downloading file from ", plan.dependency.url, " to ",
    Path.join (temporaryPath n₁.temporary "runwrap-" attempt') (archiveName plan.dependency.url)]) n₄
  rw [htold] at hquiet₅
  obtain ⟨given, n₆, hclient, h⟩ := bind_ok.1 h
  have hquiet₆ := quiet_clientOr client i.settings.timeout n₅
  rw [hclient] at hquiet₆
  cases h
  have hfiles := ((habove.trans hquiet₅).trans hquiet₆).files
  have htext : ofText (temporaryPath plan.path.parent.toText (Text.join [".", plan.path.name, "-"]) attempt) =
      plan.path.beside (plan.stagingName attempt) := (tidy_ofText _).ofText_join_parent (hplan.name.isComponent_stagingName attempt)
  exact ⟨n₁.files, d, t, attempt, mode, mode', hquiet.files ▸ hmade.files, htext, hbeside, ⟨attempt', htemporary ▸ rfl⟩, hfresh, hfiles⟩

/-! ## Out of the way of the destination -/

section

variable {core fs : FileSystem} {directory start : Text} {t d : Location} {attempt : Nat}

/-- A temporary directory is found as soon as the directory it was made in is. -/
theorem Action.Fresh.addresses_of_isDirectory (h : Fresh fs (temporaryPath directory start attempt) t)
    (hname : IsComponent (start ++ temporaryEnding attempt)) (hroot : core.Rooted) (hext : core.Extends fs)
    (hcore : core.isDirectory directory = true) :
    core.Addresses (temporaryPath directory start attempt) t ∧ ∃ d, t = child d (start ++ temporaryEnding attempt) := by
  obtain ⟨u, mode, hstatus⟩ : ∃ u mode, core.status directory true = .ok (u, .directory mode) := by
    unfold FileSystem.isDirectory at hcore
    split at hcore
    · rename_i u node hstatus
      cases node <;> first | exact ⟨u, _, hstatus⟩ | cases hcore
    · cases hcore
  obtain ⟨n, hn, hstart, hreach⟩ := status_directory hstatus
  have habs : Path.isAbsolute (temporaryPath directory start attempt) = Path.isAbsolute directory :=
    Path.isAbsolute_join_part hname.noSlash
  have horigin (fs : FileSystem) : fs.origin (temporaryPath directory start attempt) = fs.origin directory := by
    rw [origin, habs, ← origin]
  have hsame : fs.origin directory = core.origin directory := (Extends.start hext hstart).2
  obtain ⟨above, hsplit, hfilter⟩ := Path.splitOn_join directory hname.noSlash
  obtain ⟨hs, hlast, hlen, hstart', hn', hr, hdir⟩ := h.addresses
  rename_i above' last n' d'
  rw [temporaryPath, hsplit] at hs
  obtain ⟨rfl, hsingle⟩ := List.append_inj' hs rfl
  obtain rfl : start ++ temporaryEnding attempt = last := by simpa using hsingle
  rw [← hfilter] at hreach
  have hthere := follows_filter.1 hreach
  rw [horigin, hsame] at hr
  obtain rfl : d' = u := (hr.deterministic (hthere.of_extends hext)).2
  have hlong : ¬ pathLimit ≤ byteLength (temporaryPath directory start attempt) := by
    intro hlong
    rw [FileSystem.start, if_pos hlong] at hstart'
    split at hstart' <;> cases hstart'
  have hthere' : Path.isAbsolute (temporaryPath directory start attempt) = true ∨ core.IsDir core.workingDirectory := by
    by_cases ha : Path.isAbsolute directory = true
    · exact .inl (habs ▸ ha)
    · have hhome := (start_ok hstart).2
      rw [origin, if_neg ha] at hhome
      exact .inr hhome
  refine ⟨.intro hsplit hlast hlen ?_ hn (by rw [horigin]; exact hthere) (hreach.isDir hroot (start_ok hstart).2), d', rfl⟩
  rw [start_cases (addresses_ne_nil h.addresses) hthere', if_neg hlong]

/-- The names that temporary directories are given are none of platforms. -/
theorem canonical_ne_temporaryName {key : Text} (h : Platform.isKnownKey key = true) (attempt : Nat) :
    Name.canonical key ≠ Name.canonical ("runwrap-" ++ temporaryEnding attempt) := by
  have htemporary : Text.isString (("runwrap-" : Text) ++ temporaryEnding attempt) = true := by
    rw [Text.isString_append, Text.isString_temporaryEnding]
    rfl
  rw [canonical_of_isString htemporary, canonical_of_isString (isPlatformName_of_isKnownKey h).isString]
  obtain ⟨platform, hfind⟩ := Option.isSome_iff_exists.1 h
  have hkey : platform.key = key := by simpa using List.find?_some hfind
  have hhead (platform : Platform) : platform.key.head? ≠ some (CodePoint.char 'r') := by cases platform <;> decide
  exact fun he => hhead platform (hkey ▸ (congrArg List.head? he).trans rfl)

end

/-- While the archive is on its way, others are at work at the destination and beneath it, and nowhere else. -/
structure Plan.Joined (plan : Plan) (m m₁ m₂ : Machine) : Prop where
  outside : ∀ d, m.files.LiesIn plan.path d → ∀ l, ¬ child d plan.path.name <+: l → m₂.files.get? l = m₁.files.get? l
  sound : m₂.files.Sound
  cwd : m₂.files.workingDirectory = m₁.files.workingDirectory

/-- The path of the destination does not lead through the destination, nor does that of the directory for temporary files. -/
structure Plan.IsClear (plan : Plan) (m : Machine) : Prop where
  direct : m.files.IsDirect plan.path
  temporary : ∀ d, m.files.LiesIn plan.path d → (m.files.without (child d plan.path.name)).isDirectory m.temporary = true

/-- The two directories when the answer has come. Both are empty, and their paths lead there whatever stands at the destination. -/
structure Ground (core : FileSystem) (plan : Plan) (w : Workplace) (d t : Location) (attempt mode : Nat) (m : Machine) : Prop where
  staging : w.staging = plan.path.beside (plan.stagingName attempt)
  stored : Stored { m with files := m.files.without t } w.staging.toText w.directory (child d (plan.stagingName attempt)) t mode
    { m with files := (m.files.without t).put t (.directory mode) }
  same : ∀ l, ((m.files.without t).put t (.directory mode)).get? l = m.files.get? l
  staged : Staged (m.files.without t) w.staging (child d (plan.stagingName attempt))
  lasting : core.Extends (m.files.without t)
  home : core.Home plan.path d
  slot : Slot core w.staging.toText (child d (plan.stagingName attempt))
  site : m.files.IsFree plan.path (plan.asideName m) → Site core plan.path d (plan.stagingName attempt) (plan.asideName m)
  away : ¬ t <+: child d plan.path.name ∧ ¬ child d plan.path.name <+: t

/-- What stays when the directories above a path are made stays when something is left out. -/
theorem FileSystem.Made.without_extends {fs base : FileSystem} {path : Text} {l : Location} (h : Made path fs base) (hl : l ≠ []) :
    (fs.without l).Extends (base.without l) := by
  refine (Extends.refl _).congr (fun l' hl' => ?_) fun _ => h.cwd
  rw [get?_without hl] at hl' ⊢
  rw [get?_without hl]
  split at hl'
  · exact absurd rfl hl'
  · rename_i hout
    rw [if_neg hout, if_neg hout]
    exact (h.each l').resolve_right fun hnew => hl' hnew.1

theorem FileSystem.put_without_extends {base : FileSystem} {l s : Location} {node : Node} (hl : l ≠ []) (hs : s ≠ []) :
    ((base.without l).put s node).Extends (base.put s node) := by
  refine (Extends.refl _).congr (fun l' hl' => ?_) fun _ => rfl
  rw [get?_put hs, get?_without hl] at hl'
  rw [get?_put hs, get?_put hs, get?_without hl]
  by_cases hself : l' = s
  · simp only [hself, if_true]
  · rw [if_neg hself] at hl'
    rw [if_neg hself, if_neg hself, if_neg fun hp => hl' (if_pos hp)]

section

variable {w : Workplace} {base : FileSystem} {d t : Location} {attempt mode mode' : Nat} (hplan : plan.Sane)
  (h : Approached m plan w base d t attempt mode mode' m₁.files)
include hplan h

omit h in
theorem Plan.Sane.apart (d : Location) (attempt : Nat) : Siblings (child d plan.path.name) (child d (plan.stagingName attempt)) :=
  (hplan.name.siblings attempt 0).1

omit hplan in
theorem Approached.vacant : base.get? t = none ∧ t ≠ child d (plan.stagingName attempt) ∧ ¬ t <+: child d (plan.stagingName attempt) := by
  have hne : child d (plan.stagingName attempt) ≠ [] := child_ne_nil
  have hroot : (base.put (child d (plan.stagingName attempt)) (.directory mode)).Rooted :=
    (h.beside.fresh.barren (barren_nil h.made.sound)).rooted
  have hout : ¬ t <+: child d (plan.stagingName attempt) := fun hp => by
    have hnone := vacant_of_none hroot h.fresh.none _ hp
    rw [get?_put hne, if_pos rfl] at hnone
    cases hnone
  have hts : t ≠ child d (plan.stagingName attempt) := fun he => hout (he ▸ List.prefix_rfl)
  have hnone := h.fresh.none
  rw [get?_put hne, if_neg hts] at hnone
  exact ⟨hnone, hts, hout⟩

/-- The directory for the archive is apart from the destination, and its path does not depend on what stands there. -/
theorem Approached.addresses (hkey : Platform.isKnownKey plan.path.name = true) (hsound : m.files.Sound) (hclear : plan.IsClear m) :
    ((base.without (child d plan.path.name)).put (child d (plan.stagingName attempt)) (.directory mode)).Addresses w.directory t ∧
      ¬ t <+: child d plan.path.name ∧ ¬ child d plan.path.name <+: t := by
  have hne : child d plan.path.name ≠ [] := child_ne_nil
  have hne' : child d (plan.stagingName attempt) ≠ [] := child_ne_nil
  have hlies := h.made.liesIn h.beside.home.liesIn
  have hnone : (base.without (child d plan.path.name)).get? (child d (plan.stagingName attempt)) = none := by
    have hapart := hplan.apart d attempt
    rw [get?_without hne, if_neg hapart.not_prefix, h.beside.fresh.none]
  have hput : (base.without (child d plan.path.name)).Extends
    ((base.without (child d plan.path.name)).put (child d (plan.stagingName attempt)) (.directory mode)) := extends_put hne' hnone
  have hext := (h.made.without_extends hne).trans hput
  obtain ⟨attempt', hdirectory⟩ := h.directory
  have hfresh := h.fresh
  rw [hdirectory] at hfresh ⊢
  obtain ⟨haddresses, d', htd⟩ := hfresh.addresses_of_isDirectory (isComponent_temporaryName attempt') (hsound.without hne).rooted
    (hext.trans (put_without_extends hne hne')) (hclear.temporary d hlies)
  have hdiff : child d plan.path.name ≠ t := by
    rintro rfl
    exact canonical_ne_temporaryName hkey attempt' (by simpa [child] using (List.append_inj' htd rfl).2)
  refine ⟨haddresses.of_extends hext, fun hp => ?_, not_prefix_of_dropLast (fun hp => ?_) hdiff⟩
  · rcases List.prefix_concat_iff.1 hp with he | hp
    · exact hdiff he.symm
    · exact h.beside.home.isDir.get?_ne_none (vacant_of_none h.made.rooted (h.vacant).1 d hp)
  · refine haddresses.isDir_dropLast.get?_ne_none ?_
    rw [get?_without hne, if_pos hp]

/-- The answer has come, and all that the way to either directory leads through is there. -/
theorem Approached.extends (hjoined : plan.Joined m m₁ m₂) :
    ((base.without (child d plan.path.name)).put (child d (plan.stagingName attempt)) (.directory mode)).Extends (m₂.files.without t) := by
  have hne : child d plan.path.name ≠ [] := child_ne_nil
  have hne' : child d (plan.stagingName attempt) ≠ [] := child_ne_nil
  have htne := h.fresh.nameable.ne_nil
  have hapart := hplan.apart d attempt
  obtain ⟨hnone, hts, hout⟩ := h.vacant
  have hstill := hjoined.outside d (h.made.liesIn h.beside.home.liesIn)
  rw [h.files] at hstill
  refine (Extends.refl _).congr (fun l hl => ?_) fun _ => ?_
  · rw [get?_put hne'] at hl
    rw [get?_put hne', get?_without htne]
    by_cases hself : l = child d (plan.stagingName attempt)
    · rw [if_pos hself, hself, if_neg hout, hstill _ hapart.not_prefix, get?_put htne, if_neg (Ne.symm hts),
        get?_put hne', if_pos rfl]
    · rw [if_neg hself, get?_without hne] at hl
      rw [if_neg hself, get?_without hne]
      have hin : ¬ child d plan.path.name <+: l := fun hp => hl (if_pos hp)
      rw [if_neg hin] at hl
      have htl : ¬ t <+: l := fun hp => hl (vacant_of_none h.made.rooted hnone l hp)
      have hlt : l ≠ t := fun he => htl (he ▸ List.prefix_rfl)
      rw [if_neg hin, if_neg htl, hstill l hin, get?_put htne, if_neg hlt, get?_put hne', if_neg hself]
  · show m₂.files.workingDirectory = base.workingDirectory
    rw [hjoined.cwd, h.files]
    rfl

theorem Approached.ground (hkey : Platform.isKnownKey plan.path.name = true) (hsound : m.files.Sound)
    (hthere : m.files.IsDir m.files.workingDirectory) (hclear : plan.IsClear m) (hjoined : plan.Joined m m₁ m₂) :
    Ground (base.without (child d plan.path.name)) plan w d t attempt mode' m₂ := by
  have hdown : Path.Downward plan.path.toText := hplan.text.symm ▸ hplan.downward
  have hne' : child d (plan.stagingName attempt) ≠ [] := child_ne_nil
  have htne := h.fresh.nameable.ne_nil
  have hapart := hplan.apart d attempt
  obtain ⟨hnone, hts, hout⟩ := h.vacant
  obtain ⟨haddresses, haway⟩ := h.addresses hplan hkey hsound hclear
  have hext := h.extends hplan hjoined
  have hstill := hjoined.outside d (h.made.liesIn h.beside.home.liesIn)
  rw [h.files] at hstill
  have hcore : (base.without (child d plan.path.name)).Extends (m₂.files.without t) := by
    refine (extends_put hne' ?_).trans hext
    rw [get?_without child_ne_nil, if_neg hapart.not_prefix, h.beside.fresh.none]
  have hhome := (h.beside.home.without hdown (h.made.isDirect hclear.direct)).addresses h.beside.fits
  have hbelow (l : Location) (ht : t <+: l) (hlt : l ≠ t) : m₂.files.get? l = none := by
    have hin : ¬ child d plan.path.name <+: l := fun hp =>
      (List.prefix_or_prefix_of_prefix ht hp).elim haway.1 haway.2
    have hvacant := vacant_of_none (h.beside.fresh.barren (barren_nil h.made.sound)).rooted h.fresh.none l ht
    rw [hstill l hin, get?_put htne, if_neg hlt, hvacant]
  have hready : Ready (m₂.files.without t) (plan.path.beside (plan.stagingName attempt)).toText
      (child d (plan.stagingName attempt)) := by
    refine ⟨hjoined.sound.without htne, hhome.of_extends hcore, hext.dir _ ⟨mode, by rw [get?_put hne', if_pos rfl]⟩, fun l hl hls => ?_,
      downward_beside h.beside.home.tidy hdown h.beside.fits.component⟩
    rw [get?_without htne]
    split
    · rfl
    · rename_i htl
      have hlt : l ≠ t := fun he => htl (he ▸ List.prefix_rfl)
      rw [hstill l (hapart.symm.disjoint hl), get?_put htne, if_neg hlt, get?_put hne', if_neg hls]
      exact vacant_of_none h.made.rooted h.beside.fresh.none l hl
  have hfresh : Fresh (m₂.files.without t) w.directory t := by
    have haddr := haddresses.of_extends hext
    exact ⟨haddr, by rw [get?_without htne, if_pos List.prefix_rfl], h.fresh.nameable, haddr.isDir_dropLast, h.fresh.sendable⟩
  have hstaged : Staged (m₂.files.without t) (plan.path.beside (plan.stagingName attempt)) (child d (plan.stagingName attempt)) := by
    refine ⟨h.beside.home.tidy.beside h.beside.fits.component, hready, h.beside.fresh.sendable, fun hp => ?_⟩
    have hcwd : (m₂.files.without t).workingDirectory = m.files.workingDirectory := by
      show m₂.files.workingDirectory = _
      rw [hjoined.cwd, h.files, ← h.made.cwd]
      rfl
    rw [hcwd] at hp
    exact (h.made.extends.dir _ hthere).get?_ne_none (vacant_of_none h.made.rooted h.beside.fresh.none _ hp)
  have hsame (l : Location) : ((m₂.files.without t).put t (.directory mode')).get? l = m₂.files.get? l := by
    rw [get?_put htne, get?_without htne]
    by_cases hlt : l = t
    · rw [if_pos hlt, hlt, hstill t haway.2, get?_put htne, if_pos rfl]
    · rw [if_neg hlt]
      split
      · exact (hbelow l ‹_› hlt).symm
      · rfl
  refine ⟨h.staging, ⟨⟨hready.sound, hfresh, rfl⟩, h.staging ▸ hready⟩, hsame, h.staging ▸ hstaged, hcore,
    h.beside.home.without hdown (h.made.isDirect hclear.direct), h.staging ▸ ⟨hhome, ?_, h.beside.fresh.sendable⟩, fun hfree => ?_, haway⟩
  · exact vacant_of_none (h.made.sound.without child_ne_nil).rooted (by rw [get?_without child_ne_nil, if_neg hapart.not_prefix, h.beside.fresh.none])
  · -- A name that is free now was free before.
    refine h.beside.site hplan.name h.made.rooted hdown (h.made.isDirect hclear.direct) fun d' hd' => ?_
    obtain ⟨n, hhome'⟩ := hd'
    obtain ⟨n', hhere⟩ := h.beside.home.liesIn
    obtain rfl : d' = d := (hhome'.deterministic hhere).2
    have hnone := hfree d' (((h.beside.home.without hdown (h.made.isDirect hclear.direct)).of_extends
      (hcore.trans (without_extends htne))).liesIn)
    obtain ⟨-, hsib, hsib'⟩ := hplan.name.siblings (d := d') attempt (m₂.identifiers + 1)
    rw [hstill _ hsib.not_prefix, get?_put htne] at hnone
    split at hnone
    · cases hnone
    · rwa [get?_put hne', if_neg hsib'.ne] at hnone

end

/-! ## From the answer to the install step -/

theorem FileSystem.Sealed.congr {links : Links} {roots : List Location} {base fs fs' : FileSystem} (h : Sealed links roots base fs)
    (hget : ∀ l, fs'.get? l = fs.get? l) (hcwd : fs'.workingDirectory = fs.workingDirectory) (hnext : fs'.nextNumber = fs.nextNumber) :
    Sealed links roots base fs' where
  outside l hl := (hget l).trans (h.outside l hl)
  dirs l hl := by
    obtain ⟨mode, hm⟩ := h.dirs l hl
    exact ⟨mode, (hget l).trans hm⟩
  allowed l node hl hg := h.allowed l node hl (hget l ▸ hg)
  fresh l node number hl hg := h.fresh l node number hl (hget l ▸ hg)
  single hhard l l' number hl hl' hn hn' := by
    rw [FileSystem.number?, hget] at hn hn'
    exact h.single hhard l l' number hl hl' hn hn'
  sound := h.sound.congr hget hnext
  cwd := hcwd.trans h.cwd
  next := hnext ▸ h.next

/-- Directories that work is done in stay, and so does all that is outside of them. -/
theorem FileSystem.Sealed.retains {links : Links} {roots : List Location} {base fs : FileSystem} (hbase : Barren roots base)
    (h : Sealed links roots base fs) : base.Retains fs where
  dir := h.dirs
  other l node hg hnode := by
    by_cases hl : Beneath roots l
    · obtain ⟨mode, hm⟩ := hbase.each l hl (by simp [hg])
      cases hg.symm.trans hm
      cases hnode
    · exact (h.outside l hl).trans hg
  cwd := h.cwd

/-- What was made of the answer: a tree in the staging directory, and nothing else. -/
structure Readied (plan : Plan) (w : Workplace) (s : Location) (base : FileSystem) (reply : Reply) (m m₃ : Machine) : Prop where
  holds : ({ m with files := base } : Machine).Holds (Sealed .none [s] base) m₃
  loggable : IsLoggable m.threshold w.staging.toText
  tree : (∀ binary ∈ plan.binaries, ∀ x ∈ binaryNames binary, Glob.hasWildcard x = false) → ∃ content unpacked,
    reply.content = some content ∧ Unpacked plan.dependency.archiveType content unpacked ∧
      Tree.Built plan.dependency.url plan.binaries unpacked (m₃.files.tree s)

section

variable {core : FileSystem} {w : Workplace} {d t : Location} {attempt mode : Nat} (h : Ground core plan w d t attempt mode m₂)
include h

theorem Ground.prepare
    (hplan : plan.Sane) (hplain : ∀ content, reply.content = some content →
      IsPlain m₂.files w.staging.toText plan.dependency.archiveType content) (hsound : m₂.files.Sound)
    (hrun : exec (Installation.prepare plan w reply) m₂ = (.ok (), m₃)) :
    Readied plan w (child d (plan.stagingName attempt)) (m₂.files.without t) reply m₂ m₃ := by
  have hmade := h.stored
  have hstaged := h.staged
  generalize child d (plan.stagingName attempt) = s at hmade hstaged ⊢
  have hstored := hmade
  have htne := hstored.fresh.nameable.ne_nil
  obtain ⟨opened, hopened⟩ : ∃ n : Machine, n = { m₂ with files := (m₂.files.without t).put t (.directory mode) } := ⟨_, rfl⟩
  have hsame : ∀ l, m₂.files.get? l = opened.files.get? l := fun l => by rw [hopened, h.same]
  have hext : opened.files.Extends m₂.files := by
    refine (Extends.refl _).congr (fun l _ => hsame l) fun _ => by rw [hopened]; rfl
  have hm₂ : opened.Holds (Sealed .none [t, s] opened.files) m₂ := by
    refine ⟨by rw [hopened], (hopened ▸ hstored.barren.sealed : Sealed .none [t, s] opened.files opened.files).congr hsame ?_ ?_⟩ <;>
      rw [hopened] <;> rfl
  rw [← hopened] at hstored
  have hopen : m₂.files.get? t = some (.directory mode) := (hsame t).trans hstored.get?
  obtain ⟨_, n₁, hreceive, hrest⟩ := bind_ok.1 hrun
  have hn₁ := (keeps_receive hstored.barren (opening_of_inward hstored.barren (hstored.staysInward hplan.archive)) plan.dependency.url reply).after hm₂ hreceive
  obtain ⟨content, ⟨-, -, hcontent⟩, haddr, hholds⟩ := receive_ok hsound (hstored.addresses.of_extends hext) ⟨mode, hopen⟩ hplan.archive
    ((hsame _).trans hstored.empty) hreceive
  obtain ⟨_, n₂, htold, hrest⟩ := bind_ok.1 hrest
  have hquiet := quiet_log Log.info extracting (Text.join ["Extracting ", w.archive plan, " to ", w.staging.toText]) n₁
  rw [htold] at hquiet
  have hn₂ : opened.Holds (Sealed .none [t, s] opened.files) n₂ := hn₁.trans (hquiet.imp fun fs hfs => hfs ▸ hn₁.files)
  have hdiffers := hholds.files
  rw [← hquiet.files] at hdiffers
  have hread : n₂.files.read (w.archive plan) = .ok content := by
    refine read_of_addresses (hdiffers.addresses (fun node hg => ?_) haddr) hdiffers.self
    rw [hsame, hstored.empty] at hg
    cases hg
  obtain ⟨_, n₃, hextract, hrest⟩ := bind_ok.1 hrest
  have hlinks : m₂.files.SameLinks (m₂.files.without t) := by
    have hput : (m₂.files.without t).SameLinks ((m₂.files.without t).put t (.directory mode)) := sameLinks_put htne hmade.fresh.none
    exact fun l target => by rw [hput l target, h.same]
  have hn₃ := hstored.extract ((hplain content hcontent).of_sameLinks hlinks rfl) hn₂ hread
  rw [hextract] at hn₃
  have hdiffers' : opened.files.Differs (child t (archiveName plan.dependency.url)) _ n₂.files :=
    ⟨fun l => by rw [hdiffers.get?, hsame], hdiffers.cwd.trans (by rw [hopened]; rfl)⟩
  have hunpacked := hstored.unpacked hn₂ hdiffers' hread hextract
  obtain ⟨_, n₄, hremove, hfinish⟩ := bind_ok.1 hrest
  have hn₃' : Sealed .none [t, s] ((m₂.files.without t).put t (.directory mode)) n₃.files := by
    have hfiles := hn₃.files
    rwa [hopened] at hfiles
  obtain ⟨hremoved, hleft⟩ := hmade.fresh.discard (m := n₃) hmade.ready.barren hn₃'
  cases hremove.symm.trans hremoved
  have hn₄ : ({ m₂ with files := m₂.files.without t } : Machine).Holds (Sealed .none [s] (m₂.files.without t))
      { n₃ with files := n₃.files.without t } := by
    have hworld : n₃ = { opened with files := n₃.files, journal := n₃.journal } := hn₃.world
    refine ⟨?_, hleft⟩
    rw [hworld, hopened]
  obtain ⟨r, n₅, hfinish', hn₅, hbuilt⟩ := Installation.exec_finish hstaged hn₄ hplan.noSlash
  cases hfinish.symm.trans hfinish'
  refine ⟨hn₅, ?_, fun hwild => ⟨content, _, hcontent, hunpacked, (hbuilt rfl).2 hwild⟩⟩
  have hmessage := log_ok.1 ⟨n₂, htold⟩
  have hthreshold : n₁.threshold = m₂.threshold := hholds.same (·.threshold) fun _ _ _ => rfl
  rw [hthreshold] at hmessage
  simp only [Text.join, List.flatten_cons, isLoggable_append] at hmessage
  exact hmessage.2.2.2.1

/-! ## The install step -/

/-- What the files are in the end: neither directory is left, and at these places all is as it was when the answer had come. -/
def IsLeft (plan : Plan) (d t : Location) (attempt : Nat) (m m' : Machine) (l : Location) : Prop :=
  m'.files.get? l = if child d (plan.stagingName attempt) <+: l ∨ t <+: l then none else m.files.get? l

theorem Ground.isLeft (hready : Readied plan w (child d (plan.stagingName attempt)) (m₂.files.without t) reply m₂ m₃) {m' : Machine}
    {l : Location} (hfiles : m'.files.get? l = (m₃.files.without (child d (plan.stagingName attempt))).get? l) :
    IsLeft plan d t attempt m₂ m' l := by
  rw [IsLeft, hfiles, get?_without child_ne_nil]
  by_cases hl : child d (plan.stagingName attempt) <+: l
  · rw [if_pos hl, if_pos (.inl hl)]
  · rw [if_neg hl, hready.holds.files.outside l (by simpa [Beneath] using hl), get?_without h.stored.fresh.nameable.ne_nil]
    simp only [hl, false_or]

/-- What others have installed meanwhile is kept, and the staging directory goes. -/
theorem Ground.conclude_kept (hready : Readied plan w (child d (plan.stagingName attempt)) (m₂.files.without t) reply m₂ m₃)
    (hforced : plan.isForced = false)
    (hinstalled : (exec (i.isInstalled plan.dependency) { m₂ with files := m₂.files.without t }).1 = .ok true) :
    exec (i.conclude plan w.staging) m₃ = (.ok (), { m₃ with files := m₃.files.without (child d (plan.stagingName attempt)) }) := by
  have hbarren := h.stored.ready.barren
  have hagain : (exec (i.isInstalled plan.dependency) m₃).1 = .ok true :=
    Installation.isInstalled_retained (hready.holds.files.retains hbarren) hinstalled
  have hsettled : exec (i.isSettled plan) m₃ = (.ok true, m₃) := by
    rw [Installation.isSettled, hforced]
    exact Prod.ext hagain (i.exec_isInstalled plan.dependency m₃)
  have hsettle : exec (i.settle plan w.staging plan.path Installation.attempts) m₃ = (.ok false, m₃) := by
    rw [Installation.attempts, Installation.settle, exec_bind_of_ok hsettled]
    rfl
  obtain ⟨mode', hdir⟩ := hready.holds.files.dirs _ h.stored.ready.isDir
  have hremove := h.slot.removeTree (h.lasting.trans (hready.holds.files.extends hbarren)) hdir
  rw [Installation.conclude, exec_bind_of_ok (exec_attempt _), hsettle]
  exact exec_bind_of_ok hremove

/-- With force the staged tree takes the place of whatever others have installed meanwhile. -/
theorem Ground.conclude_forced (hplan : plan.Sane)
    (hready : Readied plan w (child d (plan.stagingName attempt)) (m₂.files.without t) reply m₂ m₃)
    (hforced : plan.isForced = true) (hraces : m₂.races = []) (hfree : m₂.files.IsFree plan.path (plan.asideName m₂))
    (hsuits : Suits plan.path (plan.asideName m₂)) :
    ∃ m', exec (i.conclude plan w.staging) m₃ = (.ok (), m') ∧
      Replaced m₃ (child d (plan.stagingName attempt)) (child d plan.path.name) m' := by
  have hsite := h.site hfree
  have hbarren := h.stored.ready.barren
  have hdown : Path.Downward plan.path.toText := hplan.text.symm ▸ hplan.downward
  have hraces : m₃.races = [] := (hready.holds.same (·.races) fun _ _ _ => rfl).trans hraces
  have hidentifiers : m₃.identifiers = m₂.identifiers := hready.holds.same (·.identifiers) fun _ _ _ => rfl
  have hnext : nextAside m₃ plan.path.toText = (plan.path.beside (plan.asideName m₂)).toText := by
    rw [nextAside, hidentifiers]
    exact (tidy_ofText _).asidePath_toText hdown (ne_nil_of_name hplan.name.component) (Text.slash_not_mem_hex _ _)
  have hhome := hsite.home.of_extends (h.lasting.trans (without_extends h.stored.fresh.nameable.ne_nil))
  have hnone : m₃.files.get? (child d (plan.asideName m₂)) = none := by
    have hout : ¬ Beneath [child d (plan.stagingName attempt)] (child d (plan.asideName m₂)) := by
      simpa [Beneath] using hsite.asideStaging.symm.not_prefix
    rw [hready.holds.files.outside _ hout, get?_without h.stored.fresh.nameable.ne_nil, hfree d hhome.liesIn, ite_self]
  rcases i.settle_alone plan hsite (h.lasting.trans (hready.holds.files.extends hbarren)) hready.holds.files.sound hraces hnext hnone
    (hready.holds.files.dirs _ h.stored.ready.isDir) 9 with ⟨r, n, -, -, -, hrefused⟩ | ⟨m', hsettle, hreplaced⟩
  · exact absurd hsuits (hrefused hforced)
  · refine ⟨m', ?_, hreplaced⟩
    rw [Installation.conclude, exec_bind_of_ok (exec_attempt _), h.staging, Installation.attempts, hsettle]
    rfl

end

end Prebuilt
