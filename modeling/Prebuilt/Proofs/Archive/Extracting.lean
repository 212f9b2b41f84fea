import Prebuilt.Proofs.Archive.Checking
import Prebuilt.Proofs.Archive.Unpacking
/-!
Extraction stays beneath the target. For a tar archive this takes names and targets of links that do not lead up; a zip
archive is unpacked to names that cannot lead up, whatever the members are called.
-/
set_option autoImplicit false

namespace Prebuilt

open FileSystem Action

variable {before m : Machine} {links : Links} {roots : List Location} {base fs : FileSystem} {archive target type name : Text} {r : Location}
  {mode : Nat}

/-- What may be unpacked into a directory without leaving it. A link has a name of its own there and a relative target; and
an absolute name must be one that the check of names resolves for what it is. -/
structure Tar.LeadDown (members : List Tar.Member) (fs : FileSystem) (target : Text) : Prop where
  names : ∀ m ∈ members, Path.Downward m.name
  links : ∀ m ∈ members, m.IsLink → Path.isAbsolute m.name = false ∧ Path.names m.name ≠ [] ∧
    Path.isAbsolute m.linkName = false ∧ Path.Downward m.linkName
  absolute : ∀ m ∈ members, Path.isAbsolute m.name = true →
    fs.Resolvable target ∧ (fs.LinksDownward ∨ ∀ x ∈ members, x.kind ≠ .symlink)

/-- What the members of an archive make besides files and directories. -/
def Tar.linksOf (members : List Tar.Member) : Links where
  symbolic target := ∃ m ∈ members, m.kind = .symlink ∧ m.linkName = target
  hard := ∃ m ∈ members, m.kind = .hardLink
  special := ∃ m ∈ members, m.kind.IsSpecial

theorem Tar.LeadDown.inner {members : List Tar.Member} (h : Tar.LeadDown members fs target) : Inner (Tar.linksOf members) := by
  rintro _ ⟨m, hm, hk, rfl⟩
  exact (h.links m hm (.inl hk)).2.2

theorem Tar.LeadDown.linkable {members : List Tar.Member} (h : Tar.LeadDown members fs target) (hbase : Barren roots base)
    (hr : r ∈ roots) (hne : target ≠ []) (htarget : base.status target true = .ok (r, .directory mode)) :
    Tar.Linkable (Tar.linksOf members) roots base target members where
  special m hm hk := ⟨m, hm, hk⟩
  symlink m hm hk := ⟨m, hm, hk, rfl⟩
  hardLink m hm hk := by
    obtain ⟨-, -, hrel, hdown⟩ := h.links m hm (.inr hk)
    exact ⟨⟨m, hm, hk⟩, staysInward_join h.inner hbase hr htarget hne hrel hdown, staysInside_join h.inner hbase hr htarget hne hrel hdown⟩

theorem Tar.extract_sealed (compressed : Bool) (hbase : Barren roots base) (hdirs : ∀ r ∈ roots, base.IsDir r)
    (hm : before.Holds (Sealed .none roots base) m) (hr : r ∈ roots) (hne : target ≠ [])
    (htarget : base.status target true = .ok (r, .directory mode))
    (hmembers : ∀ content members source, m.files.read archive = .ok content →
      Tar.members compressed content = .ok (members, source) →
        Tar.LeadDown members base target ∧ (Tar.linksOf members).Within links) :
    before.Holds (Sealed links roots base) (exec (Tar.extract compressed archive target) m).2 := by
  have hm' : before.Holds (Sealed links roots base) m := hm.imp fun fs hfs => hfs.mono (Links.none_within _)
  unfold Tar.extract
  refine after_look (exec_ask _ _ m) hm' fun content hread => ?_
  refine after_look (by rw [exec_ofExcept]) hm' fun found hlist => ?_
  obtain ⟨members, source⟩ := found
  rw [exec_ofExcept] at hlist
  obtain ⟨hdown, hlinks⟩ := hmembers content members source (ask_ok hread).2 (congrArg Prod.fst hlist)
  have hcheck : (exec (checkMembers target (members.map (·.name))) m).2 = m :=
    keeps_checkMembers (P := (· = m)) target _ m rfl
  refine after_look hcheck hm' fun _ hchecked => ?_
  have hin : ∀ x ∈ members, StaysInward (Tar.linksOf members) roots base (Path.join target x.name) ∧
      (x.IsLink → StaysInside (Tar.linksOf members) roots base (Path.dropEndSlashes (Path.join target x.name))) := by
    intro x hx
    have hfollow (habs : Path.isAbsolute x.name = true) :
        base.Resolvable target ∧ (base.LinksDownward ∨ ∀ t, ¬ (Tar.linksOf members).symbolic t) := by
      refine (hdown.absolute x hx habs).imp_right (Or.imp_right fun hnone => ?_)
      rintro _ ⟨y, hy, hk, -⟩
      exact hnone y hy hk
    refine ⟨staysInward_of_check hdown.inner hbase hdirs hm.files hr hne htarget (hdown.names x hx) hfollow hchecked
      (List.mem_map_of_mem hx), fun hlink => ?_⟩
    obtain ⟨hrel, hname, -⟩ := hdown.links x hx hlink
    exact staysInside_dropEndSlashes hdown.inner hbase hr htarget hne hname hrel (hdown.names x hx)
  have hdone := ((maintains_unpackAll hbase (hdown.linkable hbase hr hne htarget) hin source).bind fun _ => keeps_pure ()) m
    (hm.imp fun fs hfs => hfs.mono (Links.none_within _))
  exact hdone.imp fun fs hfs => hfs.mono hlinks

/-! ## Zip archives -/

/-- Names that lead down from the target lead inward. -/
def OpensInward (links : Links) (roots : List Location) (base : FileSystem) (target : Text) : Prop :=
  ∀ name, Path.isAbsolute name = false → Path.Downward name → StaysInward links roots base (Path.join target name)

theorem Zip.staysInward_targetPath (hopens : OpensInward links roots base target) (hdown : Path.Downward target)
    (name : Text) : StaysInward links roots base (Zip.targetPath target name) := by
  obtain ⟨parts, hparts⟩ : ∃ parts, parts =
      (Text.splitOn '/' name).filter fun (part : Text) => !part.isEmpty && part != "." && part != ".." := ⟨_, rfl⟩
  have hpart : ∀ part ∈ parts, IsName part ∧ CodePoint.char '/' ∉ part := by
    intro part hmem
    rw [hparts, List.mem_filter] at hmem
    have hp := hmem.2
    simp only [Bool.and_eq_true, bne_iff_ne] at hp
    exact ⟨⟨by simpa [FilePath.isPart] using hp.1, hp.2⟩, Text.not_mem_of_mem_splitOn hmem.1⟩
  obtain ⟨hnames, habs⟩ : Path.names (Text.joinWith "/" parts) = parts ∧
      Path.isAbsolute (Text.joinWith "/" parts) = false := by
    by_cases hnil : parts = []
    · rw [hnil]
      exact ⟨rfl, rfl⟩
    · have htidy : FilePath.Tidy ⟨"", parts⟩ :=
        ⟨.inl rfl, fun part h => (hpart part h).1.1, fun part h => (hpart part h).2⟩
      have htext : FilePath.toText ⟨"", parts⟩ = Text.joinWith "/" parts := htidy.toText_eq hnil
      rw [← htext]
      exact ⟨htidy.names_toText, htidy.isAbsolute_toText⟩
  have hfree : Path.Downward (Text.joinWith "/" parts) := fun part hmem => (hpart part (hnames ▸ hmem)).1.2
  have hall : Path.Downward (Path.join target (Text.joinWith "/" parts)) := by
    intro part hmem
    rw [Path.names_join habs, List.mem_append] at hmem
    exact hmem.elim (hdown part) (hfree part)
  rw [Zip.targetPath, ← hparts, normalize_eq hall]
  exact fun fs hfs => (hopens _ habs hfree fs hfs).congr (names_ofText _) (isAbsolute_ofText _)

theorem Zip.keeps_unpackMember {path : Text} (hbase : Barren roots base) (hin : StaysInward links roots base path) (content : Bytes)
    (e : Zip.Entry) : Keeps (before.Holds (Sealed links roots base)) (if e.isDirectory then do
        if !(← Action.isDirectory path) then Action.makeDirectory path FileSystem.directoryMode
      else do
        let member ← Action.ofExcept (Zip.openEntry content e)
        Action.writeFile path member.data
        match member.fault with
        | some fault => throw fault
        | none => return ()) := by
  have hwrite (data : Bytes) : Keeps (before.Holds (Sealed links roots base)) (writeFile path data) :=
    Keeps.bind_of (keeps_create hbase hin) fun m location m₁ hm hrun hm₁ =>
      keeps_write hbase (beneath_of_create hbase hin hm hrun) m₁ hm₁
  refine Keeps.ite (fun _ => ?_) fun _ => ?_
  · exact Keeps.bind (keeps_of_exec fun _ => rfl) fun _ =>
      Keeps.ite (fun _ => keeps_makeDirectory hin.founded _) fun _ => keeps_pure _
  · refine (keeps_ofExcept _).bind fun member => (hwrite _).bind fun _ => ?_
    cases member.fault with
    | none => exact keeps_pure _
    | some fault => exact keeps_throw _

theorem Zip.extract_sealed (hbase : Barren roots base) (hm : before.Holds (Sealed links roots base) m)
    (hopens : OpensInward links roots base target) (hdown : Path.Downward target) :
    before.Holds (Sealed links roots base) (exec (Zip.extract archive target) m).2 := by
  have hin := Zip.staysInward_targetPath hopens hdown
  refine keeps_ask.bind (fun content => (keeps_ofExcept _).bind fun entries => ?_) m hm
  refine (keeps_checkMembers _ _).bind fun _ => Keeps.forM fun name _ => ?_
  split
  · rename_i e _
    have hin := hin e.name
    unfold Zip.unpack
    generalize Zip.targetPath target e.name = path at hin
    have hmember : Keeps (before.Holds (Sealed links roots base)) _ := Zip.keeps_unpackMember hbase hin content e
    have hrest := Keeps.ite (c := e.name.isEmpty) (fun _ => (keeps_throw Error.emptyName).bind fun (_ : Unit) => hmember)
      fun _ => hmember
    refine Keeps.bind (keeps_of_exec fun _ => rfl) fun there => Keeps.ite (fun hc => ?_) fun _ => hrest
    simp only [Bool.and_eq_true, Bool.not_eq_true', List.isEmpty_eq_false_iff] at hc
    exact (keeps_makeDirectories (hin.founded.parent hc.1) false).bind fun _ => hrest
  · exact keeps_pure _

end Prebuilt
