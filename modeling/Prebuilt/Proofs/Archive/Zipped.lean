import Prebuilt.Proofs.Archive.Confinement
/-!
Zip archives are unpacked into a target that need not be a directory of its own yet: whatever the members are called, and
wherever unpacking ends, nothing outside the target is touched. The check of names refuses an archive as a whole.
-/
set_option autoImplicit false

namespace Prebuilt

open FileSystem Action

variable {m m' m₁ : Machine} {fs base : FileSystem} {archive target name : Text} {names : List Text} {root : FilePath}
  {roots : List Location} {r : Location}

/-! ## Confinement -/

/-- Where the path leads there is nothing, or an empty directory. -/
def FileSystem.IsClear (fs : FileSystem) (path : Text) : Prop :=
  ∀ r, fs.Denotes path r → ∀ l, r <+: l → fs.get? l ≠ none → l = r ∧ fs.IsDir r

theorem FileSystem.Made.barren_of_clear (h : Made target base fs) (hclear : base.IsClear target)
    (hroots : ∀ r ∈ roots, base.Denotes target r) : Barren roots fs := by
  refine ⟨?_, h.sound⟩
  rintro l ⟨r, hr, hp⟩ hg
  rcases h.each l with hsame | ⟨-, hdir, -⟩
  · obtain ⟨rfl, hdir⟩ := hclear r (hroots r hr) l hp (hsame ▸ hg)
    rwa [IsDir, hsame]
  · exact hdir

theorem unpackArchive_zip : unpackArchive archive target "zip" = Zip.extract archive target := by
  rw [unpackArchive, if_neg (by decide), if_neg (by decide), if_pos rfl]

theorem confined_extractArchive_zip (hsound : m.files.Sound) (hclear : m.files.IsClear target)
    (hdown : Path.Downward target) :
    FileSystem.Confined target m.files (exec (extractArchive archive target "zip") m).2.files := by
  have hmade : m.Holds (Made target m.files) (exec (makeDirectories target true) m).2 :=
    keeps_go_made true _ (isOnWay_refl _) m (Machine.holds_self (made_refl hsound))
  refine extractArchive_cases (P := fun m₁ => FileSystem.Confined target m.files m₁.files) (fun e m₁ h => ?_) fun m₁ h => ?_
  · rw [h] at hmade
    exact hmade.files.confined
  · rw [h] at hmade
    have hmade := hmade.files
    have hne : target ≠ [] := by
      rintro rfl
      exact makeDirectories_nil m (congrArg Prod.fst h)
    -- A target that leads round in circles denotes no place; then there is no root, and nothing can change.
    obtain ⟨roots, hroots⟩ : ∃ roots : List Location, ∀ r, r ∈ roots ↔ m.files.Denotes target r := by
      by_cases hden : ∃ r, m.files.Denotes target r
      · obtain ⟨r, hr⟩ := hden
        exact ⟨[r], fun r' => ⟨fun h => List.mem_singleton.1 h ▸ hr, fun h => List.mem_singleton.2 (h.unique hr)⟩⟩
      · exact ⟨[], fun r => ⟨fun h => absurd h List.not_mem_nil, fun h => absurd ⟨r, h⟩ hden⟩⟩
    have hbase : Barren roots m₁.files := hmade.barren_of_clear hclear fun r hr => (hroots r).1 hr
    have hroot (r : Location) (hr : m₁.files.Denotes target r) : Beneath roots r :=
      ⟨r, (hroots r).2 (hr.of_sameLinks hmade.sameLinks.symm hmade.cwd.symm), List.prefix_rfl⟩
    have hfounded : m₁.files.Founded roots target := by
      intro front l n hfront hl
      by_cases hall : front = Path.names target
      · exact .inl (hroot l ⟨n, hall ▸ hl⟩)
      · exact .inr (makeDirectories_led hsound h front l n hfront hall hl)
    have hdone : m₁.Holds (Sealed .none roots m₁.files) (exec (unpackArchive archive target "zip") m₁).2 := by
      rw [unpackArchive_zip]
      refine Zip.extract_sealed hbase (Machine.holds_self hbase.sealed) (fun name hrel hdown => ?_) hdown
      exact staysInward_join_of_founded (fun _ => id) hbase hfounded hroot hne hrel hdown
    intro l
    by_cases hl : Beneath roots l
    · obtain ⟨r, hr, hp⟩ := hl
      exact .inl ⟨r, (hroots r).1 hr, hp⟩
    · have hsame := hdone.files.outside l hl
      rw [IsDir, hsame]
      exact .inr (hmade.each l)

/-! ## Refusal -/

/-- The name is resolved to something outside the directory. -/
def LeadsOut (m : Machine) (root : FilePath) (name : Text) : Prop :=
  ∃ path, exec (resolve (root / name)) m = (.ok path, m) ∧ isWithin root path = false

/-- The fault is that of one of the names: it leads out, or it cannot be resolved. -/
def IsRefusal (m : Machine) (root : FilePath) (names : List Text) (e : Error) : Prop :=
  ∃ name ∈ names, e = .download (.escapingMember name) ∧ LeadsOut m root name ∨ exec (resolve (root / name)) m = (.error e, m)

theorem IsRefusal.mono {more : List Text} {e : Error} (h : IsRefusal m root names e) (hsub : names ⊆ more) :
    IsRefusal m root more e := by
  obtain ⟨name, hmem, h⟩ := h
  exact ⟨name, hsub hmem, h⟩

theorem exec_resolve_eq (path : FilePath) (m : Machine) : exec (resolve path) m = ((exec (resolve path) m).1, m) :=
  Prod.ext rfl (exec_resolve path)

/-- A fault in resolving a path is none of the archive. -/
theorem not_isArchiveFault_resolve {path : FilePath} {e : Error} (h : exec (resolve path) m = (.error e, m')) :
    e.isArchiveFault = false := by
  have hpath : ∀ e m', exec (checkPath path.toText) m = (.error e, m') → e.isArchiveFault = false := by
    intro e m' h
    unfold checkPath at h
    split at h
    · cases h
      rfl
    · split at h
      · cases h
        rfl
      · cases h
  rw [resolve, exec_bind] at h
  split at h
  · simp only [exec_bind, exec_files] at h
    split at h
    · split at h <;> cases h
      rfl
    · cases h
  · rename_i hcheck
    cases h
    exact hpath _ _ hcheck

theorem checkMembers_refuses (hroot : exec (resolve (FilePath.ofText target)) m = (.ok root, m)) (hname : name ∈ names)
    (hout : LeadsOut m root name) : ∃ e, exec (checkMembers target names) m = (.error e, m) ∧ IsRefusal m root names e := by
  rw [checkMembers, exec_bind_of_ok hroot, List.forM_eq_forM]
  induction names with
  | nil => cases hname
  | cons first rest ih =>
    rw [List.forM_cons]
    cases hfirst : (exec (resolve (root / first)) m).1 with
    | error e =>
      have hrun : exec (resolve (root / first)) m = (.error e, m) := by rw [exec_resolve_eq, hfirst]
      exact ⟨e, exec_bind_of_error (exec_bind_of_error hrun), first, List.mem_cons_self, .inr hrun⟩
    | ok path =>
      have hrun : exec (resolve (root / first)) m = (.ok path, m) := by rw [exec_resolve_eq, hfirst]
      cases hwithin : isWithin root path with
      | false =>
        refine ⟨.download (.escapingMember first), exec_bind_of_error ?_, first, List.mem_cons_self, .inl ⟨rfl, path, hrun, hwithin⟩⟩
        rw [exec_bind_of_ok hrun, hwithin]
        rfl
      | true =>
        have hrest : name ∈ rest := by
          refine (List.mem_cons.1 hname).resolve_left ?_
          rintro rfl
          obtain ⟨path', hrun', hwithin'⟩ := hout
          rw [hrun] at hrun'
          cases hrun'
          rw [hwithin] at hwithin'
          cases hwithin'
        obtain ⟨e, he, hrefusal⟩ := ih hrest
        refine ⟨e, ?_, hrefusal.mono (List.subset_cons_self first rest)⟩
        rw [exec_bind_of_ok, he]
        rw [exec_bind_of_ok hrun, hwithin]
        rfl

/-- What the check of names is about: the entries in the directory of the archive, and the path of the target. -/
structure Zip.Listed (m : Machine) (archive target : Text) (entries : List Zip.Entry) (root : FilePath) : Prop where
  content : ∃ content, exec (readFile archive) m = (.ok content, m) ∧ Zip.directory content = .ok entries
  target : exec (resolve (FilePath.ofText target)) m = (.ok root, m)

/-- Whatever the check of names reports, nothing has been unpacked. -/
theorem exec_extractArchive_of_refused {entries : List Zip.Entry} {e : Error}
    (hmade : exec (makeDirectories target true) m = (.ok (), m₁)) (hlisted : Zip.Listed m₁ archive target entries root)
    (hcheck : exec (checkMembers target (entries.map (·.name))) m₁ = (.error e, m₁)) (hfault : e.isArchiveFault = false) :
    exec (extractArchive archive target "zip") m = (.error e, m₁) := by
  obtain ⟨content, hread, hentries⟩ := hlisted.content
  have hextract : exec (Zip.extract archive target) m₁ = (.error e, m₁) := by
    rw [Zip.extract, exec_bind_of_ok hread, exec_bind_of_ok (by rw [exec_ofExcept, hentries]), exec_bind_of_error hcheck]
  rw [extractArchive, exec_bind_of_ok hmade, unpackArchive_zip, exec_catching, hextract]
  simp [hfault]

/-- An archive with a name that leads out is refused before anything is unpacked. -/
theorem extractArchive_refuses {entries : List Zip.Entry} (hmade : exec (makeDirectories target true) m = (.ok (), m₁))
    (hlisted : Zip.Listed m₁ archive target entries root) (hname : name ∈ entries.map (·.name)) (hout : LeadsOut m₁ root name) :
    ∃ e, exec (extractArchive archive target "zip") m = (.error e, m₁) ∧ IsRefusal m₁ root (entries.map (·.name)) e := by
  obtain ⟨e, he, hrefusal⟩ := checkMembers_refuses hlisted.target hname hout
  have hfault : e.isArchiveFault = false := by
    obtain ⟨other, -, ⟨rfl, -⟩ | hother⟩ := hrefusal
    · rfl
    · exact not_isArchiveFault_resolve hother
  exact ⟨e, exec_extractArchive_of_refused hmade hlisted he hfault, hrefusal⟩

/-- A zip archive is unpacked into a clear target and nowhere else, whether or not it can be unpacked to its end. If a name
leads out nothing is unpacked at all, and if besides all names can be resolved the fault that is reported says so. -/
theorem extractArchive_zip (hsound : m.files.Sound) (hclear : m.files.IsClear target) (hdown : Path.Downward target) :
    FileSystem.Confined target m.files (exec (extractArchive archive target "zip") m).2.files ∧
      ∀ m₁ entries root, exec (makeDirectories target true) m = (.ok (), m₁) → Zip.Listed m₁ archive target entries root →
        (∃ entry ∈ entries, LeadsOut m₁ root entry.name) →
          ∃ e, exec (extractArchive archive target "zip") m = (.error e, m₁) ∧
            ((∀ entry ∈ entries, ∃ path, exec (resolve (root / entry.name)) m₁ = (.ok path, m₁)) →
              ∃ entry ∈ entries, e = .download (.escapingMember entry.name) ∧ LeadsOut m₁ root entry.name) := by
  refine ⟨confined_extractArchive_zip hsound hclear hdown, ?_⟩
  rintro m₁ entries root hmade hlisted ⟨entry, hentry, hout⟩
  obtain ⟨e, he, name, hname, hrefusal⟩ := extractArchive_refuses hmade hlisted (List.mem_map_of_mem hentry) hout
  obtain ⟨other, hother, rfl⟩ := List.mem_map.1 hname
  refine ⟨e, he, fun hresolved => ⟨other, hother, hrefusal.resolve_right fun hfail => ?_⟩⟩
  obtain ⟨path, hpath⟩ := hresolved other hother
  rw [hpath] at hfail
  cases hfail

/-! ## A name that cannot be resolved -/

/-- An archive of nothing but its directory. -/
def Zip.listing (names : List String) : Bytes :=
  let ascii (text : String) : Bytes := text.toList.map fun c => UInt8.ofNat c.toNat
  let records := names.flatMap fun name =>
    Zip.entryMark ++ List.replicate 5 0 ++ [8] ++ List.replicate 18 0 ++ [UInt8.ofNat name.length] ++ List.replicate 17 0 ++ ascii name
  records ++ Zip.trailerMark ++ List.replicate 8 0 ++ [UInt8.ofNat records.length] ++ List.replicate 9 0

/-- The entry that stands for a name there. -/
def Zip.bare (name : Text) : Zip.Entry := ⟨name, 0x800, 0, 0, 0, 0, 0, 0, 0⟩

/-- The machine with the empty directory `t`, and a link `loop` that leads to itself. -/
def looping (content : Bytes) : Machine :=
  { unpacking content with files := (unpacking content).files.put ["loop"] (.link "loop") }

theorem sound_looping (content : Bytes) : (looping content).files.Sound := by
  have hname : Nameable [("loop" : Text)] := ⟨[], "loop", rfl, ⟨by decide, by decide⟩, by decide, by decide⟩
  exact (sound_unpacking content).put hname rfl isDir_nil le_rfl (by simp [Node.number?])

/-- The directory is there, so nothing has to be made for it, and the archive can be read. -/
theorem paths_looping (content : Bytes) : (looping content).files.status "/t" true = .ok (["t"], .directory 0o755) ∧
    exec (makeDirectories "/t" true) (looping content) = (.ok (), looping content) ∧
    exec (readFile "/a") (looping content) = (.ok content, looping content) ∧
    exec (resolve (FilePath.ofText "/t")) (looping content) = (.ok ⟨"/", ["t"]⟩, looping content) ∧
    exec (resolve ((⟨"/", ["t"]⟩ : FilePath) / ("../evil" : Text))) (looping content) = (.ok ⟨"/", ["evil"]⟩, looping content) :=
  ⟨by cbv, by cbv, by cbv, by cbv, by cbv⟩

theorem isClear_looping (content : Bytes) : (looping content).files.IsClear "/t" := by
  intro r hr l hl hg
  obtain ⟨hden, hthere⟩ := status_ok (sound_looping content).rooted (paths_looping content).1
  obtain rfl : r = [("t" : Text)] := hr.unique hden
  refine ⟨?_, _, hthere⟩
  by_cases hloop : l = [("loop" : Text)]
  · exact absurd (hloop ▸ hl) (by decide)
  · have hsame : (looping content).files.get? l = (unpacking content).files.get? l := by
      rw [looping, get?_put (by decide), if_neg hloop]
    obtain ⟨node, hg⟩ := Option.ne_none_iff_exists'.1 (hsame ▸ hg)
    rcases get?_unpacking hg with ⟨rfl, -⟩ | ⟨rfl, -⟩ | ⟨rfl, -⟩ | ⟨rfl, -⟩
    · exact absurd hl (by decide)
    · rfl
    · exact absurd hl (by decide)
    · exact absurd hl (by decide)

theorem made_looping (content : Bytes) : exec (makeDirectories "/t" true) (looping content) = (.ok (), looping content) :=
  (paths_looping content).2.1

theorem listed_looping {content : Bytes} {entries : List Zip.Entry} (h : Zip.directory content = .ok entries) :
    Zip.Listed (looping content) "/a" "/t" entries ⟨"/", ["t"]⟩ :=
  ⟨⟨content, (paths_looping content).2.2.1, h⟩, (paths_looping content).2.2.2.1⟩

set_option maxRecDepth 100000 in
theorem directory_listings : Zip.directory (Zip.listing ["../evil"]) = .ok [Zip.bare "../evil"] ∧
    Zip.directory (Zip.listing ["../loop", "../evil"]) = .ok [Zip.bare "../loop", Zip.bare "../evil"] ∧
    (Zip.bare "../evil").name = "../evil" ∧
    ∀ content, exec (checkMembers "/t" ([Zip.bare "../loop", Zip.bare "../evil"].map (·.name))) (looping content) =
      (.error (.symlinkLoop "/loop"), looping content) :=
  ⟨by cbv, by cbv, by cbv, fun content => by cbv⟩

theorem leadsOut_looping (content : Bytes) : LeadsOut (looping content) ⟨"/", ["t"]⟩ (Zip.bare "../evil").name := by
  rw [directory_listings.2.2.1]
  exact ⟨⟨"/", ["evil"]⟩, (paths_looping content).2.2.2.2, by decide⟩

theorem extractArchive_zip_evil :
    FileSystem.Confined "/t" (looping (Zip.listing ["../evil"])).files
        (exec (extractArchive "/a" "/t" "zip") (looping (Zip.listing ["../evil"]))).2.files ∧
      exec (extractArchive "/a" "/t" "zip") (looping (Zip.listing ["../evil"])) =
        (.error (.download (.escapingMember "../evil")), looping (Zip.listing ["../evil"])) := by
  have hclear := isClear_looping (Zip.listing ["../evil"])
  obtain ⟨hconfined, hrefused⟩ := @extractArchive_zip (looping (Zip.listing ["../evil"])) "/a" "/t" (sound_looping _) hclear (by decide)
  refine ⟨hconfined, ?_⟩
  obtain ⟨e, he, hfault⟩ := hrefused _ _ _ (made_looping _) (listed_looping directory_listings.1)
    ⟨Zip.bare "../evil", List.mem_singleton_self _, leadsOut_looping _⟩
  obtain ⟨entry, hentry, rfl, -⟩ := hfault fun entry hentry => by
    rw [List.mem_singleton.1 hentry]
    obtain ⟨path, hpath, -⟩ := leadsOut_looping (Zip.listing ["../evil"])
    exact ⟨path, hpath⟩
  rw [he, List.mem_singleton.1 hentry, directory_listings.2.2.1]

/-- The fault of a name before the one that leads out is reported, and it is none of the download. -/
theorem extractArchive_zip_loop : ∃ content entries root,
    (looping content).files.Sound ∧ (looping content).files.IsClear "/t" ∧
      exec (makeDirectories "/t" true) (looping content) = (.ok (), looping content) ∧
      Zip.Listed (looping content) "/a" "/t" entries root ∧
      (∃ entry ∈ entries, LeadsOut (looping content) root entry.name) ∧
      exec (extractArchive "/a" "/t" "zip") (looping content) = (.error (.symlinkLoop "/loop"), looping content) := by
  have hlisted := listed_looping directory_listings.2.1
  exact ⟨Zip.listing ["../loop", "../evil"], _, _, sound_looping _, isClear_looping _, made_looping _, hlisted,
    ⟨Zip.bare "../evil", by simp, leadsOut_looping _⟩,
    exec_extractArchive_of_refused (made_looping _) hlisted (directory_listings.2.2.2 _) rfl⟩

end Prebuilt
