import Mathlib
import Prebuilt.Proofs.Actions.Making
import Prebuilt.Proofs.Archive.Extracting
/-!
Unpacking an archive changes nothing outside its target but the directories above it. For tar archives this holds as long as
names and targets of links lead down: names are checked before anything is unpacked, but members are unpacked through what
others have made, and the targets of links are not checked at all.
-/
set_option autoImplicit false

namespace Prebuilt

open FileSystem Action

variable {before m : Machine} {links : Links} {roots : List Location} {base fs : FileSystem} {archive target type : Text} {r l : Location}
  {mode : Nat}

/-- The types of archives that are read as tar, and whether they are compressed. -/
def tarTypes : List (Text × Bool) := [("tar.gz", true), ("tgz", true), ("tar", false)]

/-- No member of the content, read as a tar archive of the type, leads out of the target. -/
def IsConfinable (fs : FileSystem) (target type : Text) (content : Bytes) : Prop :=
  ∀ compressed members source, (type, compressed) ∈ tarTypes →
    Tar.members compressed content = .ok (members, source) → Tar.LeadDown members fs target

/-- All that is different lies beneath the place that the path denotes, or is a directory on the way to it. -/
def FileSystem.Confined (path : Text) (base fs : FileSystem) : Prop :=
  ∀ l, (∃ r, base.Denotes path r ∧ r <+: l) ∨ fs.get? l = base.get? l ∨ base.get? l = none ∧ fs.IsDir l ∧
    ∃ front n, front <+: Path.names path ∧ base.Leads n (base.origin path) front l

/-! ## A target that is there -/

theorem unpackArchive_sealed (hinner : Inner links) (hbase : Barren roots base) (hdirs : ∀ r ∈ roots, base.IsDir r)
    (hm : before.Holds (Sealed .none roots base) m) (hr : r ∈ roots) (hne : target ≠ [])
    (htarget : base.status target true = .ok (r, .directory mode)) (hzip : type = "zip" → Path.Downward target)
    (hcontent : ∀ content, m.files.read archive = .ok content → IsConfinable base target type content)
    (hlinks : ∀ content compressed members source, m.files.read archive = .ok content → (type, compressed) ∈ tarTypes →
      Tar.members compressed content = .ok (members, source) → (Tar.linksOf members).Within links) :
    before.Holds (Sealed links roots base) (exec (unpackArchive archive target type) m).2 := by
  have hm' : before.Holds (Sealed links roots base) m := hm.imp fun fs hfs => hfs.mono (Links.none_within _)
  have htar (compressed : Bool) (htype : (type, compressed) ∈ tarTypes) :
      before.Holds (Sealed links roots base) (exec (Tar.extract compressed archive target) m).2 :=
    Tar.extract_sealed compressed hbase hdirs hm hr hne htarget fun content members source hread hmembers =>
      ⟨hcontent content hread compressed members source htype hmembers,
        hlinks content compressed members source hread htype hmembers⟩
  unfold unpackArchive
  split
  · rename_i htype
    exact htar true (by rcases htype with rfl | rfl <;> decide)
  · split
    · rename_i htype
      exact htar false (by rw [htype]; decide)
    · split
      · exact Zip.extract_sealed hbase hm' (fun _ => staysInward_join hinner hbase hr htarget hne) (hzip ‹_›)
      · exact hm'

theorem extractArchive_cases {P : Machine → Prop} (herror : ∀ e m₁, exec (makeDirectories target true) m = (.error e, m₁) → P m₁)
    (hok : ∀ m₁, exec (makeDirectories target true) m = (.ok (), m₁) → P (exec (unpackArchive archive target type) m₁).2) :
    P (exec (extractArchive archive target type) m).2 := by
  unfold extractArchive
  refine after_bind herror fun _ m₁ h => ?_
  rw [catching_state fun e action he m => by
    simp only [Option.ite_none_right_eq_some] at he
    rw [← Option.some.inj he.2]
    rfl]
  exact hok m₁ h

theorem extractArchive_sealed (hinner : Inner links) (hbase : Barren roots base) (hdirs : ∀ r ∈ roots, base.IsDir r)
    (hm : before.Holds (Sealed .none roots base) m) (hr : r ∈ roots) (hne : target ≠ [])
    (htarget : base.status target true = .ok (r, .directory mode)) (hzip : type = "zip" → Path.Downward target)
    (hcontent : ∀ content, m.files.read archive = .ok content → IsConfinable base target type content)
    (hlinks : ∀ content compressed members source, m.files.read archive = .ok content → (type, compressed) ∈ tarTypes →
      Tar.members compressed content = .ok (members, source) → (Tar.linksOf members).Within links) :
    before.Holds (Sealed links roots base) (exec (extractArchive archive target type) m).2 := by
  obtain ⟨mode', htarget'⟩ := hm.files.status hbase htarget
  obtain ⟨n, -, hstart, hreach⟩ := status_directory htarget'
  have hthere : ∀ front l k, front <+: Path.names target → m.files.Leads k (m.files.origin target) front l →
      m.files.get? l ≠ none := by
    intro front l k hfront hl
    obtain ⟨mode, hmode⟩ := hreach.isDir_of_front hm.files.rooted (start_ok hstart).2 hfront hl
    simp [hmode]
  have hstays : m.Holds (· = m.files) (exec (makeDirectories target true) m).2 :=
    keeps_makeDirectories_there hm.files.rooted hthere true m (Machine.holds_self rfl)
  have hseal : before.Holds (Sealed .none roots base) (exec (makeDirectories target true) m).2 :=
    hm.trans (hstays.imp fun fs hfs => hfs ▸ hm.files)
  refine extractArchive_cases (fun e m₁ h => ?_) fun m₁ h => ?_
  · rw [h] at hseal
    exact hseal.imp fun fs hfs => hfs.mono (Links.none_within _)
  · rw [h] at hstays hseal
    have hfiles : m₁.files = m.files := hstays.files
    rw [← hfiles] at hcontent hlinks
    exact unpackArchive_sealed hinner hbase hdirs hseal hr hne htarget hzip hcontent hlinks

/-! ## A target that may have to be made -/

/-- Nothing is beneath the place that the path denotes. -/
def FileSystem.IsBare (fs : FileSystem) (path : Text) : Prop :=
  ∀ r, fs.Denotes path r → ∀ l, r <+: l → l ≠ r → fs.get? l = none

theorem FileSystem.Made.confined (h : Made target base fs) : FileSystem.Confined target base fs := fun l => .inr (h.each l)

/-- A directory that was made has nothing beneath it but directories that were made. -/
theorem FileSystem.Made.barren (h : Made target base fs) (hbare : base.IsBare target)
    (htarget : fs.status target true = .ok (r, .directory mode)) : Barren [r] fs := by
  obtain ⟨hden, hthere⟩ := status_ok h.rooted htarget
  have hdenotes : base.Denotes target r := hden.of_sameLinks h.sameLinks.symm h.cwd.symm
  refine ⟨?_, h.sound⟩
  rintro l ⟨r', hr', hp⟩ hg
  rw [List.mem_singleton] at hr'
  subst hr'
  by_cases he : l = r'
  · exact ⟨mode, he ▸ hthere⟩
  · rcases h.each l with hsame | ⟨-, hdir, -⟩
    · rw [hsame, hbare r' hdenotes l hp he] at hg
      exact absurd rfl hg
    · exact hdir

theorem Tar.LeadDown.of_sameLinks {members : List Tar.Member} (hlinks : base.SameLinks fs)
    (hcwd : fs.workingDirectory = base.workingDirectory) (h : Tar.LeadDown members base target) :
    Tar.LeadDown members fs target :=
  ⟨h.names, h.links, fun m hm ha => (h.absolute m hm ha).imp (Resolvable.of_sameLinks hlinks hcwd)
    (Or.imp_left fun hdown l t ht => hdown l t ((hlinks l t).2 ht))⟩

/-- An archive is unpacked into a bare target and nowhere else, whether or not it can be unpacked to its end. Its content
counts as it is when the target has been made. -/
theorem extractArchive_confined (hsound : m.files.Sound) (hbare : m.files.IsBare target)
    (htail : (headAndTail target).1 = [] ∨ (headAndTail target).2 ≠ ".") (hzip : type = "zip" → Path.Downward target)
    (hcontent : ∀ content, (exec (makeDirectories target true) m).2.files.read archive = .ok content →
      IsConfinable m.files target type content) :
    FileSystem.Confined target m.files (exec (extractArchive archive target type) m).2.files := by
  have hmade : m.Holds (Made target m.files) (exec (makeDirectories target true) m).2 :=
    keeps_go_made true _ (isOnWay_refl _) m (Machine.holds_self (made_refl hsound))
  refine extractArchive_cases (P := fun m₁ => FileSystem.Confined target m.files m₁.files) (fun e m₁ h => ?_) fun m₁ h => ?_
  · rw [h] at hmade
    exact hmade.files.confined
  · rw [h] at hmade hcontent
    obtain ⟨r, mode, htarget⟩ := makeDirectories_ok hsound htail h
    have hmade := hmade.files
    have hbase := hmade.barren hbare htarget
    have hne : target ≠ [] := by
      rintro rfl
      cases htarget
    have hcontent' (content : Bytes) (hread : m₁.files.read archive = .ok content) :
        IsConfinable m₁.files target type content := fun compressed members source htype hmembers =>
      (hcontent content hread compressed members source htype hmembers).of_sameLinks hmade.sameLinks hmade.cwd
    have hinner : Inner ⟨fun t => Path.isAbsolute t = false ∧ Path.Downward t, True, True⟩ := fun _ h => h
    have hdirs : ∀ r' ∈ [r], m₁.files.IsDir r' := fun r' hr' =>
      ⟨mode, List.mem_singleton.1 hr' ▸ (status_ok hmade.rooted htarget).2⟩
    have hdone := unpackArchive_sealed hinner hbase hdirs (Machine.holds_self hbase.sealed) (List.mem_singleton_self r) hne htarget
      hzip hcontent' fun content compressed members source hread htype hmembers =>
        ⟨(hcontent content hread compressed members source htype hmembers).inner, fun _ => trivial, fun _ => trivial⟩
    have hdenotes : m.files.Denotes target r :=
      (status_ok hmade.rooted htarget).1.of_sameLinks hmade.sameLinks.symm hmade.cwd.symm
    intro l
    by_cases hl : r <+: l
    · exact .inl ⟨r, hdenotes, hl⟩
    · have hsame := hdone.files.outside l (by simpa [Beneath] using hl)
      rw [IsDir, hsame]
      exact .inr (hmade.each l)

/-! ## Two archives -/

/-- Text in a field of a header, filled up with zeros. -/
def Tar.field (width : Nat) (text : String) : Bytes :=
  let bytes := text.toList.map fun c => UInt8.ofNat c.toNat
  bytes ++ List.replicate (width - bytes.length) 0

/-- The header of a member without data. -/
def Tar.header (name mode sum kind linkName : String) : Bytes :=
  Tar.field 100 name ++ Tar.field 8 mode ++ Tar.field 8 "0" ++ Tar.field 8 "0" ++ Tar.field 12 "0" ++ Tar.field 12 "0" ++
    Tar.field 8 sum ++ Tar.field 1 kind ++ Tar.field 100 linkName ++ Tar.field 255 ""

/-- The member that such a header stands for. -/
def Tar.lonely (name : Text) (kind : Tar.Kind) (mode : Int) (linkName : Text) : Tar.Member :=
  ⟨name, kind, mode, 0, 0, "", "", 0, .whole 0, linkName, 512, none⟩

/-- A machine with an empty directory `t`, a file `f` and an archive `a`. -/
def unpacking (content : Bytes) : Machine where
  host := ⟨"Linux", "x86_64"⟩
  environment := []
  files := ⟨[(["t"], .directory 0o755), (["f"], .file 0 0o644 []), (["a"], .file 1 0o644 content)], 2, []⟩
  temporary := "/"
  package := "/"
  metadataFile := "/"
  server := []
  children := []
  races := []
  identifiers := 0
  settings := []
  threshold := 0
  verbose := false
  journal := .empty

/-- A symbolic link `l` to a name beside it. -/
def archiveOfLink : Bytes := Tar.header "l" "777" "1573" "2" "x"

theorem isEntryName_unpacking : ∀ name ∈ [("t" : Text), "f", "a"], IsEntryName name := by
  have hname (c : Char) (h : IsName [CodePoint.char c]) (hc : c ≠ '/')
      (hlen : byteLength [CodePoint.char c] ≤ nameLimit) : IsEntryName [CodePoint.char c] := by
    refine ⟨h, fun hmem => hc ?_, rfl, hlen⟩
    simpa using (List.mem_singleton.1 hmem).symm
  intro name hmem
  simp only [List.mem_cons, List.not_mem_nil, or_false] at hmem
  rcases hmem with rfl | rfl | rfl
  · exact hname 't' ⟨by decide, by decide⟩ (by decide) (by decide)
  · exact hname 'f' ⟨by decide, by decide⟩ (by decide) (by decide)
  · exact hname 'a' ⟨by decide, by decide⟩ (by decide) (by decide)

theorem get?_unpacking {content : Bytes} {node : Node} (h : (unpacking content).files.get? l = some node) :
    l = [] ∧ node = .directory 0o755 ∨ l = [("t" : Text)] ∧ node = .directory 0o755 ∨
      l = [("f" : Text)] ∧ node = .file 0 0o644 [] ∨ l = [("a" : Text)] ∧ node = .file 1 0o644 content := by
  by_cases hnil : l = []
  · rw [hnil, get?_nil] at h
    exact .inl ⟨hnil, (Option.some.inj h).symm⟩
  · obtain ⟨⟨l', node'⟩, hfind, rfl⟩ := Option.map_eq_some_iff.1 (get?_of_ne hnil ▸ h)
    have hl : l' = l := by simpa using List.find?_some hfind
    have hmem := List.mem_of_find?_eq_some hfind
    simp only [unpacking, List.mem_cons, Prod.mk.injEq, List.not_mem_nil, or_false] at hmem
    subst hl
    exact .inr hmem

theorem sound_unpacking (content : Bytes) : (unpacking content).files.Sound := by
  refine ⟨fun l hl => ?_, fun l hl name hname => ?_, fun l node number hg hn => ?_⟩
  · obtain ⟨node, hg⟩ := Option.ne_none_iff_exists'.1 hl
    rcases get?_unpacking hg with ⟨rfl, -⟩ | ⟨rfl, -⟩ | ⟨rfl, -⟩ | ⟨rfl, -⟩ <;> exact isDir_nil
  · obtain ⟨node, hg⟩ := Option.ne_none_iff_exists'.1 hl
    refine isEntryName_unpacking name ?_
    rcases get?_unpacking hg with ⟨rfl, -⟩ | ⟨rfl, -⟩ | ⟨rfl, -⟩ | ⟨rfl, -⟩ <;> simp_all
  · rcases get?_unpacking hg with ⟨-, rfl⟩ | ⟨-, rfl⟩ | ⟨-, rfl⟩ | ⟨-, rfl⟩ <;> cases hn <;> show _ < 2 <;> decide

/-- The directory is there, so nothing has to be made for it, and the archive can be read. -/
theorem paths_unpacking (content : Bytes) : (unpacking content).files.status "/t" true = .ok (["t"], .directory 0o755) ∧
    exec (makeDirectories "/t" true) (unpacking content) = (.ok (), unpacking content) ∧
    exec (readFile "/a") (unpacking content) = (.ok content, unpacking content) :=
  ⟨by cbv, by cbv, by cbv⟩

theorem made_unpacking (content : Bytes) : exec (makeDirectories "/t" true) (unpacking content) = (.ok (), unpacking content) :=
  (paths_unpacking content).2.1

theorem denotes_unpacking {content : Bytes} (h : (unpacking content).files.Denotes "/t" r) : r = [("t" : Text)] :=
  h.unique (status_ok (sound_unpacking content).rooted (paths_unpacking content).1).1

theorem isBare_unpacking (content : Bytes) : (unpacking content).files.IsBare "/t" := by
  intro r hr l hl hne
  obtain rfl := denotes_unpacking hr
  by_contra hg
  obtain ⟨node, hg⟩ := Option.ne_none_iff_exists'.1 hg
  rcases get?_unpacking hg with ⟨rfl, -⟩ | ⟨rfl, -⟩ | ⟨rfl, -⟩ | ⟨rfl, -⟩
  · exact absurd hl (by decide)
  · exact hne rfl
  · exact absurd hl (by decide)
  · exact absurd hl (by decide)

set_option maxRecDepth 100000 in
theorem members_archiveOfLink : Tar.members false archiveOfLink =
    .ok ([Tar.lonely "l" .symlink 0o777 "x"], .plain archiveOfLink 512) := by cbv

theorem extractArchive_confined_link : FileSystem.Confined "/t" (unpacking archiveOfLink).files
    (exec (extractArchive "/a" "/t" "tar") (unpacking archiveOfLink)).2.files := by
  refine extractArchive_confined (sound_unpacking _) (isBare_unpacking _) (by decide) (by decide) fun content hread => ?_
  rw [made_unpacking, (ask_ok (paths_unpacking archiveOfLink).2.2).2] at hread
  cases hread
  intro compressed members source htype hmembers
  obtain rfl : compressed = false := by simpa [tarTypes] using htype
  rw [members_archiveOfLink] at hmembers
  cases hmembers
  refine ⟨fun x hx => ?_, fun x hx _ => ?_, fun x hx ha => ?_⟩ <;> obtain rfl := List.mem_singleton.1 hx
  · decide
  · decide
  · cases ha

/-- The content is an archive of these members, their names pass the check, and unpacking them leaves these entries. -/
def Leaves (content : Bytes) (members : List Tar.Member) (entries : List (Location × Node)) : Prop :=
  ∃ size, Tar.members false content = .ok (members, .plain content size) ∧
    exec (checkMembers "/t" (members.map (·.name))) (unpacking content) = (.ok (), unpacking content) ∧
    (exec ((Tar.unpackAll members "/t").run (.plain content size)) (unpacking content)).2.files = ⟨entries, 2, []⟩

variable {content : Bytes} {members : List Tar.Member} {entries : List (Location × Node)}

theorem Leaves.files (h : Leaves content members entries) :
    (exec (extractArchive "/a" "/t" "tar") (unpacking content)).2.files = ⟨entries, 2, []⟩ := by
  obtain ⟨size, hmembers, hcheck, hunpack⟩ := h
  have hextract : (exec (Tar.extract false "/a" "/t") (unpacking content)).2.files = ⟨entries, 2, []⟩ := by
    rw [Tar.extract, exec_bind_of_ok (paths_unpacking content).2.2, exec_bind_of_ok (by rw [exec_ofExcept, hmembers]),
      exec_bind_of_ok hcheck]
    refine after_bind (P := (·.files = ⟨entries, 2, []⟩)) (fun e m₁ h => ?_) fun a m₁ h => ?_
    · rwa [h] at hunpack
    · rwa [h] at hunpack
  refine extractArchive_cases (P := (·.files = ⟨entries, 2, []⟩)) (fun e m₁ h => ?_) fun m₁ h => ?_
  · rw [made_unpacking] at h
    cases h
  · rw [made_unpacking] at h
    cases h
    exact hextract

/-- A hard link `h` to a file beside the target. -/
def archiveOfHardLink : Bytes := Tar.header "h" "777" "1757" "1" "../f"

/-- A symbolic link `l` that leads up, and a directory in it. -/
def archiveThroughLink : Bytes := Tar.header "l" "777" "1537" "2" ".." ++ Tar.header "l/d" "755" "1625" "5" ""

/-- A directory whose name passes through another one on its way back to the target. -/
def archiveThroughDots : Bytes := Tar.header "../n/../t/d" "755" "2520" "5" ""

set_option maxRecDepth 100000 in
theorem leaves_archives :
    Leaves archiveOfHardLink [Tar.lonely "h" .hardLink 0o777 "../f"]
      [(["t"], .directory 0o755), (["f"], .file 0 0o777 []), (["a"], .file 1 0o644 archiveOfHardLink),
        (["t", "h"], .file 0 0o777 [])] ∧
    Leaves archiveThroughLink
      [Tar.lonely "l" .symlink 0o777 "..", { Tar.lonely "l/d" .directory 0o755 "" with start := 1024 }]
      [(["t"], .directory 0o755), (["f"], .file 0 0o644 []), (["a"], .file 1 0o644 archiveThroughLink),
        (["t", "l"], .link ".."), (["d"], .directory 0o755)] ∧
    Leaves archiveThroughDots [Tar.lonely "../n/../t/d" .directory 0o755 ""]
      [(["t"], .directory 0o755), (["f"], .file 0 0o644 []), (["a"], .file 1 0o644 archiveThroughDots),
        (["n"], .directory 0o755)] :=
  ⟨⟨512, by cbv, by cbv, by cbv⟩, ⟨1024, by cbv, by cbv, by cbv⟩, ⟨512, by cbv, by cbv, by cbv⟩⟩

theorem not_confined_unpacking (hgot : fs.get? l ≠ (unpacking content).files.get? l) (hl : ¬ [("t" : Text)] <+: l)
    (hne : l ≠ []) : ¬ FileSystem.Confined "/t" (unpacking content).files fs := by
  intro h
  rcases h l with ⟨r, hr, hp⟩ | hsame | ⟨-, -, front, n, hfront, hlead⟩
  · exact hl (denotes_unpacking hr ▸ hp)
  · exact hgot hsame
  · rcases List.prefix_cons_iff.1 (hfront : front <+: [("t" : Text)]) with rfl | ⟨rest, rfl, hrest⟩
    · cases hlead
      exact hne rfl
    · rw [List.prefix_nil.1 hrest] at hlead
      exact hl (denotes_unpacking ⟨n, hlead⟩ ▸ List.prefix_rfl)

/-- Something outside the empty directory is no longer what it was. -/
def Escapes (content : Bytes) : Prop :=
  (unpacking content).files.Sound ∧ (unpacking content).files.IsBare "/t" ∧
    ¬ FileSystem.Confined "/t" (unpacking content).files
      (exec (extractArchive "/a" "/t" "tar") (unpacking content)).2.files

theorem Leaves.escapes (h : Leaves content members entries)
    (hgot : FileSystem.get? ⟨entries, 2, []⟩ l ≠ (unpacking content).files.get? l) (hl : ¬ [("t" : Text)] <+: l) (hne : l ≠ []) :
    Escapes content := by
  refine ⟨sound_unpacking content, isBare_unpacking content, ?_⟩
  rw [h.files]
  exact not_confined_unpacking hgot hl hne

/-- The first changes the mode of a file, the others make a directory. -/
theorem extractArchive_escapes :
    Escapes archiveOfHardLink ∧ Escapes archiveThroughLink ∧ Escapes archiveThroughDots := by
  obtain ⟨hhard, hlink, hdots⟩ := leaves_archives
  refine ⟨?_, ?_, ?_⟩
  · exact hhard.escapes (l := ["f"]) (by decide) (by decide) (by decide)
  · exact hlink.escapes (l := ["d"]) (by decide) (by decide) (by decide)
  · exact hdots.escapes (l := ["n"]) (by decide) (by decide) (by decide)

end Prebuilt
