import Prebuilt.Proofs.Install.Bookkeeping
import Prebuilt.Proofs.Install.Meanwhile
import Prebuilt.Proofs.Install.Shipping
/-!
Yielding to others. A download that comes to its install step and finds that others have installed the same meanwhile leaves what
they have installed as it is, and takes away all of its own; unless it is forced to replace it.
-/
set_option autoImplicit false

namespace Prebuilt

open FileSystem Action FilePath

variable {i : Installation} {client : Option Client} {plan : Plan} {m m₁ m₂ m₃ : Machine} {reply : Reply} {w : Workplace}

/-- Where the destination and the two directories of a download lie, apart from each other. -/
structure Workplace.Lies (w : Workplace) (plan : Plan) (fs : FileSystem) (d s t : Location) : Prop where
  destination : fs.LiesIn plan.path d
  staging : fs.Addresses w.staging.toText s
  directory : fs.Addresses w.directory t
  apart : ∀ l, child d plan.path.name <+: l → ¬ (s <+: l ∨ t <+: l)

section

variable {core : FileSystem} {d t : Location} {attempt mode : Nat} (h : Ground core plan w d t attempt mode m₂)
include h

theorem Ground.lies (hplan : plan.Sane) : w.Lies plan m₂.files d (child d (plan.stagingName attempt)) t := by
  have hext : (m₂.files.without t).Extends m₂.files := without_extends h.stored.fresh.nameable.ne_nil
  refine ⟨(h.home.of_extends (h.lasting.trans hext)).liesIn, h.slot.addresses.of_extends (h.lasting.trans hext),
    h.stored.fresh.addresses.of_extends hext, fun l hl => ?_⟩
  rintro (hs | ht)
  · exact (hplan.apart d attempt).disjoint hl hs
  · exact (List.prefix_or_prefix_of_prefix ht hl).elim h.away.1 h.away.2

/-- What may come of an archive is put in the place of whatever others have left at the destination. -/
structure Replaces (plan : Plan) (reply : Reply) (d s t : Location) (m m' : Machine) : Prop where
  gone : ∀ l, s <+: l ∨ t <+: l → m'.files.get? l = none
  kept : ∀ l, ¬ child d plan.path.name <+: l → ¬ (s <+: l ∨ t <+: l) → m'.files.get? l = m.files.get? l
  isDir : m'.files.IsDir (child d plan.path.name)
  tree : (∀ binary ∈ plan.binaries, ∀ x ∈ binaryNames binary, Glob.hasWildcard x = false) → ∃ content unpacked,
    reply.content = some content ∧ Unpacked plan.dependency.archiveType content unpacked ∧
      Tree.Built plan.dependency.url plan.binaries unpacked (m'.files.tree (child d plan.path.name))

theorem Ground.replaces (hplan : plan.Sane)
    (hready : Readied plan w (child d (plan.stagingName attempt)) (m₂.files.without t) reply m₂ m₃) {m' : Machine}
    (hget : ∀ l, m'.files.get? l = (m₃.files.move (child d (plan.stagingName attempt)) (child d plan.path.name)).get? l) :
    Replaces plan reply d (child d (plan.stagingName attempt)) t m₂ m' := by
  have hapart := hplan.apart d attempt
  have hlies := h.lies hplan
  have hout (l : Location) (hD : ¬ child d plan.path.name <+: l) (hs : ¬ child d (plan.stagingName attempt) <+: l) :
      m'.files.get? l = if t <+: l then none else m₂.files.get? l := by
    rw [hget, hapart.symm.get?_move, if_neg hD, if_neg hs, hready.holds.files.outside l (by simpa [Beneath] using hs),
      get?_without h.stored.fresh.nameable.ne_nil]
  have htree : m'.files.tree (child d plan.path.name) = m₃.files.tree (child d (plan.stagingName attempt)) := by
    funext l
    rw [tree_apply, tree_apply, hget, hapart.symm.get?_move, if_pos (List.prefix_append ..), List.drop_left]
  refine ⟨fun l hl => ?_, fun l hD hl => ?_, ?_, fun hwild => ?_⟩
  · have hD : ¬ child d plan.path.name <+: l := fun hp => hlies.apart l hp hl
    by_cases hs : child d (plan.stagingName attempt) <+: l
    · rw [hget, hapart.symm.get?_move, if_neg hD, if_pos hs]
    · rw [hout l hD hs, if_pos (hl.resolve_left hs)]
  · rw [hout l hD fun hs => hl (.inl hs), if_neg fun ht => hl (.inr ht)]
  · obtain ⟨mode', hg⟩ := hready.holds.files.dirs _ h.stored.ready.isDir
    exact ⟨mode', by rw [← List.append_nil (child d plan.path.name), ← tree_apply, htree, tree_apply, List.append_nil, hg]⟩
  · rw [htree]
    exact hready.tree hwild

end

set_option maxRecDepth 100000

/-! ## An empty machine, and others at work there -/

/-- An archive of one file that may be executed. -/
def runArchive : Bytes := parcel "run" "1750"

/-- The marker for its address. -/
def markerBytes : Bytes := [104, 116, 116, 112, 115, 58, 47, 47, 104, 47, 114, 117, 110, 46, 116, 97, 114, 10]

/-- What others write into a directory while the archive is on its way: the marker and the file. -/
def guests (directory : Text) : List (Text × Intrusion) :=
  [(Path.join directory ".source-url", .file 0o644 markerBytes), (Path.join directory "run", .file 0o755 [35, 33])]

/-- A machine where they do. -/
def joining (content : Bytes) (directory : Text) (files : FileSystem) : Machine :=
  { serving content files with server := [("https://h/run.tar", ⟨200, none, [], content, none, none, guests directory⟩)] }

/-- The machine once the archive was asked for. -/
def joined (content : Bytes) (directory : Text) (files : FileSystem) : Machine :=
  { joining content directory files with journal := { Journal.empty with requests := [⟨"GET", "https://h/run.tar", "c"⟩] } }

section

variable {content : Bytes} {directory staging : Text} {files above staged opened found created stored unpacked removed finished : FileSystem}
  {l : Location} {place : FilePath}

theorem exec_send_joining (hintrude : exec (intrudeAll (guests directory)) (joined content directory opened) =
    (.ok (), joined content directory found)) : exec (servedClient.send .get "https://h/run.tar") (joining content directory opened) =
      (.ok ⟨200, none, some content, none⟩, joined content directory found) := by
  obtain ⟨hurl, hrender⟩ := url_serving
  have hanswer : (joined content directory opened).server.answer "https://h/run.tar" =
      ⟨200, none, [], content, none, none, guests directory⟩ := by
    rw [Server.answer, joined, joining, Table.get?, if_pos rfl, Option.getD_some]
  have hexchange : exec (servedClient.exchange .get ⟨"https", [], "h", none, "/run.tar", none, none⟩) (joining content directory opened) =
      (.ok ⟨200, none, some content, none⟩, joined content directory found) := by
    have hrecord : exec (record fun j => { j with requests := j.requests ++ [⟨"GET", "https://h/run.tar", "c"⟩] })
        (joining content directory opened) = (.ok (), joined content directory opened) := rfl
    have hcheck : Client.checkScheme "https" = .ok () := by decide
    rw [Client.exchange, hcheck, exec_bind_of_ok (exec_ofExcept (.ok ()))]
    simp only [hrender]
    refine (exec_bind_of_ok hrecord).trans ?_
    rw [exec_bind_of_ok exec_get, hanswer, exec_bind_of_ok hintrude]
    rfl
  rw [Client.send, hurl, exec_bind_of_ok (exec_ofExcept (.ok _)), Client.follow, exec_bind_of_ok hexchange]
  rfl

/-- A download that takes each of its steps. -/
theorem comes_joining (i : Installation) {plan : Plan} (hurl : plan.dependency.url = "https://h/run.tar")
    (htype : plan.dependency.archiveType = "tar") (hone : plan.binaries = ["run"])
    (hancestry : exec (makeAncestry plan.path.parent) (joining content directory files) = (.ok (), joining content directory above))
    (hstaging : exec (makeTemporary plan.path.parent.toText (Text.join [".", plan.path.name, "-"])) (joining content directory above) =
      (.ok staging, joining content directory staged))
    (htemporary : exec (makeTemporary "/" "runwrap-") (joining content directory staged) =
      (.ok "/runwrap-XXXXXXXX", joining content directory opened))
    (hparent : exec (makeDirectories "/runwrap-XXXXXXXX" true) (joining content directory opened) =
      (.ok (), joining content directory opened))
    (hintrude : exec (intrudeAll (guests directory)) (joined content directory opened) = (.ok (), joined content directory found))
    (hcreate : exec (create "/runwrap-XXXXXXXX/run.tar") (joined content directory found) = (.ok l, joined content directory created))
    (happend : created.append l content = stored)
    (hextract : exec (extractArchive "/runwrap-XXXXXXXX/run.tar" (ofText staging).toText "tar") (joined content directory stored) =
      (.ok (), joined content directory unpacked))
    (hremove : exec (discard "/runwrap-XXXXXXXX") (joined content directory unpacked) = (.ok (), joined content directory removed))
    (hlocate : exec (locateBinary (ofText staging) "run") (joined content directory removed) = (.ok place, joined content directory removed))
    (hexecute : exec (makeExecutable place.toText) (joined content directory removed) = (.ok (), joined content directory removed))
    (hverify : exec (verifyBinary (ofText staging) "https://h/run.tar" "run") (joined content directory removed) =
      (.ok true, joined content directory removed))
    (hmark : exec (Installation.writeMarker (ofText staging) "https://h/run.tar") (joined content directory removed) =
      (.ok (), joined content directory finished)) :
    i.Comes (some servedClient) plan (joining content directory files) ⟨ofText staging, "/runwrap-XXXXXXXX", servedClient⟩
      (joining content directory opened) ⟨200, none, some content, none⟩ (joined content directory found)
      (joined content directory finished) := by
  have hname : Path.join "/runwrap-XXXXXXXX" (archiveName "https://h/run.tar") = "/runwrap-XXXXXXXX/run.tar" := by decide
  have habove : Path.parent "/runwrap-XXXXXXXX/run.tar" = "/runwrap-XXXXXXXX" := by decide
  have hquiet (origin : Log.Origin) (message : Text) (files : FileSystem) :
      exec (log Log.info origin message) (joining content directory files) = (.ok (), joining content directory files) ∧
        exec (log Log.info origin message) (joined content directory files) = (.ok (), joined content directory files) := ⟨rfl, rfl⟩
  refine ⟨?_, by rw [hurl]; exact exec_send_joining hintrude, ?_⟩
  · rw [Installation.approach, exec_bind_of_ok (hquiet _ _ _).1, exec_bind_of_ok hancestry, exec_bind_of_ok hstaging,
      exec_bind_of_ok exec_get]
    refine (exec_bind_of_ok htemporary).trans ?_
    simp only [hurl, hname, habove]
    rw [exec_bind_of_ok hparent, exec_bind_of_ok (hquiet _ _ _).1]
    rfl
  · have hreceive : exec (receive "https://h/run.tar" "/runwrap-XXXXXXXX/run.tar" ⟨200, none, some content, none⟩)
        (joined content directory found) = (.ok (), joined content directory stored) := by
      rw [receive, if_neg (not_not.2 rfl), exec_bind_of_ok hcreate, ← happend]
      rfl
    have hfinish := exec_finish_single hone hlocate hexecute (hurl ▸ hverify)
    rw [hurl, hmark] at hfinish
    simp only [Installation.prepare, Workplace.archive, hurl, htype, hname]
    rw [exec_bind_of_ok hreceive, exec_bind_of_ok (hquiet _ _ _).2, exec_bind_of_ok hextract, exec_bind_of_ok hremove, hfinish]

end

theorem members_runArchive : Tar.members false runArchive = .ok ([parcelMember "run"], .plain runArchive 1024) := by cbv

/-- The archive once it was received. -/
def guestArchive (content : Bytes) : Location × Node := (["runwrap-XXXXXXXX", "run.tar"], .file 2 0o644 content)

/-- What others leave in the directory. -/
def guestNodes (l : Location) : List (Location × Node) :=
  [(l ++ [(".source-url" : Text)], .file 0 0o644 markerBytes), (l ++ [("run" : Text)], .file 1 0o755 [35, 33])]

/-- What the download makes of the archive. -/
def ownFile (l : Location) : Location × Node := (l ++ [(".linux-x64-XXXXXXXX" : Text), "run"], .file 3 0o755 [35, 33])

def ownMarker (l : Location) : Location × Node := (l ++ [(".linux-x64-XXXXXXXX" : Text), ".source-url"], .file 4 0o644 markerBytes)

/-- The files when others were at work, with the directory for the archive and without. -/
def guestOpened (more : List (Location × Node)) (next : Nat) : FileSystem :=
  room (roomStaging :: temporaryNode :: (["unpacked_bin", "linux-x64"], .directory 0o755) ::
    (guestNodes ["unpacked_bin", "linux-x64"] ++ more)) next

def guestStaged (more : List (Location × Node)) (next : Nat) : FileSystem :=
  room (roomStaging :: (["unpacked_bin", "linux-x64"], .directory 0o755) :: (guestNodes ["unpacked_bin", "linux-x64"] ++ more)) next

abbrev guestDirectory : Text := "/unpacked_bin/linux-x64"

theorem guest_requests (content : Bytes) :
    exec (makeAncestry (ofText "/unpacked_bin/linux-x64").parent) (joining content guestDirectory emptyFiles) =
      (.ok (), joining content guestDirectory (room [] 0)) ∧
    exec (makeTemporary "/unpacked_bin" ".linux-x64-") (joining content guestDirectory (room [] 0)) =
      (.ok "/unpacked_bin/.linux-x64-XXXXXXXX", joining content guestDirectory (room [roomStaging] 0)) ∧
    exec (makeTemporary "/" "runwrap-") (joining content guestDirectory (room [roomStaging] 0)) =
      (.ok "/runwrap-XXXXXXXX", joining content guestDirectory (room [roomStaging, temporaryNode] 0)) ∧
    exec (makeDirectories "/runwrap-XXXXXXXX" true) (joining content guestDirectory (room [roomStaging, temporaryNode] 0)) =
      (.ok (), joining content guestDirectory (room [roomStaging, temporaryNode] 0)) ∧
    exec (intrudeAll (guests guestDirectory)) (joined content guestDirectory (room [roomStaging, temporaryNode] 0)) =
      (.ok (), joined content guestDirectory (guestOpened [] 2)) :=
  ⟨by cbv, by cbv, by cbv, by cbv, by cbv⟩

/-- What others have left at the destination is found there. -/
example : (guestOpened [] 2).status "/unpacked_bin/linux-x64/run" true = .ok (["unpacked_bin", "linux-x64", "run"], .file 1 0o755 [35, 33]) := by
  cbv

theorem guest_archive (content : Bytes) :
    exec (create "/runwrap-XXXXXXXX/run.tar") (joined content guestDirectory (guestOpened [] 2)) =
      (.ok (guestArchive []).1, joined content guestDirectory (guestOpened [guestArchive []] 3)) ∧
    (guestOpened [guestArchive []] 3).append (guestArchive []).1 content = guestOpened [guestArchive content] 3 ∧
    exec (makeDirectories "/unpacked_bin/.linux-x64-XXXXXXXX" true) (joined content guestDirectory (guestOpened [guestArchive content] 3)) =
      (.ok (), joined content guestDirectory (guestOpened [guestArchive content] 3)) ∧
    exec (readFile "/runwrap-XXXXXXXX/run.tar") (joined content guestDirectory (guestOpened [guestArchive content] 3)) =
      (.ok content, joined content guestDirectory (guestOpened [guestArchive content] 3)) ∧
    exec (checkMembers "/unpacked_bin/.linux-x64-XXXXXXXX" ["run"])
        (joined content guestDirectory (guestOpened [guestArchive content] 3)) =
      (.ok (), joined content guestDirectory (guestOpened [guestArchive content] 3)) ∧
    exec (discard "/runwrap-XXXXXXXX")
        (joined content guestDirectory (guestOpened [guestArchive content, ownFile ["unpacked_bin"]] 4)) =
      (.ok (), joined content guestDirectory (guestStaged [ownFile ["unpacked_bin"]] 4)) :=
  ⟨by cbv, by cbv, by cbv, by cbv, by cbv, by cbv⟩

theorem guest_unpack :
    exec ((Tar.unpackAll [parcelMember "run"] "/unpacked_bin/.linux-x64-XXXXXXXX").run (.plain runArchive 1024))
        (joined runArchive guestDirectory (guestOpened [guestArchive runArchive] 3)) =
      (.ok ((), .plain runArchive 514),
        joined runArchive guestDirectory (guestOpened [guestArchive runArchive, ownFile ["unpacked_bin"]] 4)) := by cbv

example : (guestStaged [ownFile ["unpacked_bin"]] 4).status "/unpacked_bin/.linux-x64-XXXXXXXX/run" true =
    .ok (["unpacked_bin", ".linux-x64-XXXXXXXX", "run"], .file 3 0o755 [35, 33]) := by cbv

theorem guest_finish (content : Bytes) :
    exec (locateBinary (ofText "/unpacked_bin/.linux-x64-XXXXXXXX") "run")
        (joined content guestDirectory (guestStaged [ownFile ["unpacked_bin"]] 4)) =
      (.ok (ofText "/unpacked_bin/.linux-x64-XXXXXXXX" / ("run" : Text)),
        joined content guestDirectory (guestStaged [ownFile ["unpacked_bin"]] 4)) ∧
    exec (makeExecutable (ofText "/unpacked_bin/.linux-x64-XXXXXXXX" / ("run" : Text)).toText)
        (joined content guestDirectory (guestStaged [ownFile ["unpacked_bin"]] 4)) =
      (.ok (), joined content guestDirectory (guestStaged [ownFile ["unpacked_bin"]] 4)) ∧
    exec (verifyBinary (ofText "/unpacked_bin/.linux-x64-XXXXXXXX") "https://h/run.tar" "run")
        (joined content guestDirectory (guestStaged [ownFile ["unpacked_bin"]] 4)) =
      (.ok true, joined content guestDirectory (guestStaged [ownFile ["unpacked_bin"]] 4)) ∧
    exec (Installation.writeMarker (ofText "/unpacked_bin/.linux-x64-XXXXXXXX") "https://h/run.tar")
        (joined content guestDirectory (guestStaged [ownFile ["unpacked_bin"]] 4)) =
      (.ok (), joined content guestDirectory (guestStaged [ownFile ["unpacked_bin"], ownMarker ["unpacked_bin"]] 5)) :=
  ⟨by cbv, by cbv, by cbv, by cbv⟩

/-- The plan to install the file. -/
def guestPlan (force : Json) : Plan := { hostedPlan ["run"] "https://h/run.tar" with force := force }

theorem comes_guest (force : Json) : (hosted ["run"] "https://h/run.tar").Comes (some servedClient) (guestPlan force)
    (joining runArchive guestDirectory emptyFiles)
    ⟨ofText "/unpacked_bin/.linux-x64-XXXXXXXX", "/runwrap-XXXXXXXX", servedClient⟩
    (joining runArchive guestDirectory (room [roomStaging, temporaryNode] 0)) ⟨200, none, some runArchive, none⟩
    (joined runArchive guestDirectory (guestOpened [] 2))
    (joined runArchive guestDirectory (guestStaged [ownFile ["unpacked_bin"], ownMarker ["unpacked_bin"]] 5)) := by
  have hmembers := members_runArchive
  have hunpack := guest_unpack
  generalize runArchive = content at hmembers hunpack ⊢
  have htext : (ofText "/unpacked_bin/.linux-x64-XXXXXXXX").toText = "/unpacked_bin/.linux-x64-XXXXXXXX" := by decide
  obtain ⟨hancestry, hstaging, htemporary, hparent, hintrude⟩ := guest_requests content
  obtain ⟨hcreate, happend, htarget, hread, hcheck, hremove⟩ := guest_archive content
  obtain ⟨hlocate, hexecute, hverify, hmark⟩ := guest_finish content
  have hextract := exec_extractArchive_tar hmembers htarget hread hcheck hunpack
  exact comes_joining _ rfl rfl rfl hancestry hstaging htemporary hparent hintrude hcreate happend (htext.symm ▸ hextract) hremove
    hlocate hexecute hverify hmark

theorem isMadeFor_guestPlan : (guestPlan .null).IsMadeFor (hosted ["run"] "https://h/run.tar") := by
  have htext : FilePath.toText ⟨"/", ["unpacked_bin", "linux-x64"]⟩ = "/unpacked_bin/linux-x64" := by decide
  have hnone : (exec ((hosted ["run"] "https://h/run.tar").isInstalled ⟨"linux-x64", "https://h/run.tar", "tar"⟩)
    (serving [] emptyFiles)).1 = .ok false := by cbv
  have hplan : Installing.exec (Installing.plan .null) (hosted ["run"] "https://h/run.tar") _ = _ :=
    Installing.exec_plan (hostDependency_hosted rfl) (destination_hosted ["run"] "https://h/run.tar") rfl hnone
  exact ⟨_, _, _, _, hplan, List.mem_singleton.2 (htext ▸ rfl)⟩

theorem isMadeFor_guestPlan_forced : (guestPlan (.bool true)).IsMadeFor (hosted ["run"] "https://h/run.tar") := isMadeFor_hostedPlan rfl

theorem path_guestPlan (force : Json) : (guestPlan force).path = ⟨"/", ["unpacked_bin", "linux-x64"]⟩ :=
  path_hostedPlan ["run"] "https://h/run.tar"

example : emptyFiles.status "/unpacked_bin/linux-x64" true = .error .noEntry := by cbv

theorem isClear_guestPlan (force : Json) : (guestPlan force).IsClear (joining runArchive guestDirectory emptyFiles) where
  direct := path_guestPlan force ▸ isDirect_emptyFiles
  temporary d hd := by
    rw [path_guestPlan] at hd ⊢
    obtain rfl := liesIn_unlinked unlinked_emptyFiles hd
    cbv

theorem sound_guest : (guestOpened [] 2).Sound := by
  have hname : ∀ name ∈ [("unpacked_bin" : Text), ".linux-x64-XXXXXXXX", "runwrap-XXXXXXXX", "linux-x64", ".source-url", "run"],
      IsEntryName name := by
    intro name hname
    simp only [List.mem_cons, List.not_mem_nil, or_false] at hname
    rcases hname with rfl | rfl | rfl | rfl | rfl | rfl <;> exact ⟨⟨by decide, by decide⟩, by decide, by decide, by decide⟩
  refine sound_of_nodes (fun x hx => ?_) (fun x hx name hin => ?_) fun x hx number hn => ?_ <;>
    simp only [guestOpened, room, roomStaging, temporaryNode, guestNodes, List.append_nil, List.mem_cons, List.not_mem_nil, or_false] at hx
  · rcases hx with rfl | rfl | rfl | rfl | rfl | rfl
    · exact isDir_nil
    · exact ⟨0o755, by decide⟩
    · exact isDir_nil
    · exact ⟨0o755, by decide⟩
    · exact ⟨0o755, by decide⟩
    · exact ⟨0o755, by decide⟩
  · refine hname name (List.Subset.trans ?_ (List.Subset.refl _) hin)
    rcases hx with rfl | rfl | rfl | rfl | rfl | rfl <;> decide
  · rcases hx with rfl | rfl | rfl | rfl | rfl | rfl <;> cases hn <;> decide

theorem joined_guest (force : Json) : (guestPlan force).Joined (joining runArchive guestDirectory emptyFiles)
    (joining runArchive guestDirectory (room [roomStaging, temporaryNode] 0)) (joined runArchive guestDirectory (guestOpened [] 2)) where
  outside d hd l hl := by
    rw [path_guestPlan] at hd hl
    obtain rfl := liesIn_unlinked unlinked_emptyFiles hd
    refine get?_append (room [roomStaging, temporaryNode] 0).nodes
      ((["unpacked_bin", "linux-x64"], .directory 0o755) :: guestNodes ["unpacked_bin", "linux-x64"]) fun x hx => ?_
    simp only [guestNodes, List.mem_cons, List.not_mem_nil, or_false] at hx
    rintro rfl
    rcases hx with rfl | rfl | rfl <;> exact hl (by decide)
  sound := sound_guest
  cwd := rfl

theorem isOrdinary_runArchive (files : FileSystem) (path : Text) : IsOrdinary files path "tar" runArchive := by
  intro compressed members source htype hmembers member hmember
  obtain rfl : compressed = false := by simpa [tarTypes] using htype
  cases members_runArchive.symm.trans hmembers
  obtain rfl := List.mem_singleton.1 hmember
  exact ⟨.inl rfl, by decide, fun habsolute => absurd habsolute (by decide)⟩

theorem isInstalled_guest (content : Bytes) {t : Location} (ht : (guestOpened [] 2).Addresses "/runwrap-XXXXXXXX" t) :
    (exec ((hosted ["run"] "https://h/run.tar").isInstalled ⟨"linux-x64", "https://h/run.tar", "tar"⟩)
      { joined content guestDirectory (guestOpened [] 2) with files := (guestOpened [] 2).without t }).1 = .ok true := by
  have hfound : (guestOpened [] 2).status "/runwrap-XXXXXXXX" false = .ok (["runwrap-XXXXXXXX"], .directory 0o700) := by cbv
  have hstatus : (guestOpened [] 2).status "/runwrap-XXXXXXXX" false = _ := ht.status (.inl rfl)
  obtain rfl : t = ["runwrap-XXXXXXXX"] := by
    rw [hfound] at hstatus
    split at hstatus
    · cases hstatus
    · exact (Prod.mk.inj (Except.ok.inj hstatus)).1.symm
  cbv

theorem liesIn_guest {force : Json} {d : Location} (h : (guestOpened [] 2).LiesIn (guestPlan force).path d) : d = ["unpacked_bin"] := by
  have hfound : (guestOpened [] 2).get? ["unpacked_bin"] = some (.directory 0o755) := by decide
  rw [path_guestPlan] at h
  exact liesIn_unlinked (fun target ht => by cases hfound.symm.trans ht) h

theorem asideName_guestPlan (force : Json) (m : Machine) (h : m.identifiers = 0) :
    (guestPlan force).asideName m = ".linux-x64-old-00000000000000000000000000000001" := by
  show (ofText "/unpacked_bin/linux-x64").asideName (Text.hex 32 (m.identifiers + 1)) = _
  rw [h]
  rfl

theorem suits_guest : Suits ⟨"/", ["unpacked_bin", "linux-x64"]⟩ ".linux-x64-old-00000000000000000000000000000001" := by
  have hfits (name : Text) (hname : name ∈ [("linux-x64" : Text), ".linux-x64-old-00000000000000000000000000000001"]) :
      Fits ⟨"/", ["unpacked_bin", "linux-x64"]⟩ name := by
    simp only [List.mem_cons, List.not_mem_nil, or_false] at hname
    rcases hname with rfl | rfl <;> exact ⟨⟨⟨by decide, by decide⟩, by decide⟩, by decide, by decide⟩
  exact ⟨⟨hfits _ (by decide), ⟨_, rfl, by decide⟩⟩, hfits _ (by decide), ⟨_, rfl, by decide⟩⟩

/-- What is to be installed through what is installed. -/
def strayed : Installation := { crossed with config := ⟨"/", ["run"], [("linux-x64", "https://h/run.tar")]⟩ }

def strayPlan : Plan := { crossedPlan with binaries := ["run"] }

/-- The files when others were at work, with the directory for the archive and without. -/
def strayOpened (more : List (Location × Node)) (next : Nat) : FileSystem :=
  crossingStaged (temporaryNode :: (guestNodes ["d", "linux-x64"] ++ more)) next

def strayStaged (more : List (Location × Node)) (next : Nat) : FileSystem :=
  crossingStaged (guestNodes ["d", "linux-x64"] ++ more) next

/-- The files once the destination was moved aside with what others had left in it: its path leads nowhere then. -/
def strayLost : FileSystem :=
  ⟨(["d"], .directory 0o755) :: (["d", ".linux-x64-old-00000000000000000000000000000001"], .directory 0o755) ::
    (["d", ".linux-x64-old-00000000000000000000000000000001", "up"], .link "..") :: stagingNode ::
    (guestNodes ["d", ".linux-x64-old-00000000000000000000000000000001"] ++ [ownFile ["d"], ownMarker ["d"]]), 5, []⟩

abbrev strayDirectory : Text := "/d/linux-x64"

theorem stray_requests (content : Bytes) :
    exec (makeAncestry (ofText "/d/linux-x64/up/linux-x64").parent) (joining content strayDirectory crossing) =
      (.ok (), joining content strayDirectory crossing) ∧
    exec (makeTemporary "/d/linux-x64/up" ".linux-x64-") (joining content strayDirectory crossing) =
      (.ok "/d/linux-x64/up/.linux-x64-XXXXXXXX", joining content strayDirectory (crossingStaged [] 0)) ∧
    exec (makeTemporary "/" "runwrap-") (joining content strayDirectory (crossingStaged [] 0)) =
      (.ok "/runwrap-XXXXXXXX", joining content strayDirectory (crossingStaged [temporaryNode] 0)) ∧
    exec (makeDirectories "/runwrap-XXXXXXXX" true) (joining content strayDirectory (crossingStaged [temporaryNode] 0)) =
      (.ok (), joining content strayDirectory (crossingStaged [temporaryNode] 0)) ∧
    exec (intrudeAll (guests strayDirectory)) (joined content strayDirectory (crossingStaged [temporaryNode] 0)) =
      (.ok (), joined content strayDirectory (strayOpened [] 2)) :=
  ⟨by cbv, by cbv, by cbv, by cbv, by cbv⟩

/-- What others have left at the destination is found through it. -/
example : (strayOpened [] 2).status "/d/linux-x64/up/linux-x64/run" true = .ok (["d", "linux-x64", "run"], .file 1 0o755 [35, 33]) := by
  cbv

theorem stray_archive (content : Bytes) :
    exec (create "/runwrap-XXXXXXXX/run.tar") (joined content strayDirectory (strayOpened [] 2)) =
      (.ok (guestArchive []).1, joined content strayDirectory (strayOpened [guestArchive []] 3)) ∧
    (strayOpened [guestArchive []] 3).append (guestArchive []).1 content = strayOpened [guestArchive content] 3 ∧
    exec (makeDirectories "/d/linux-x64/up/.linux-x64-XXXXXXXX" true) (joined content strayDirectory (strayOpened [guestArchive content] 3)) =
      (.ok (), joined content strayDirectory (strayOpened [guestArchive content] 3)) ∧
    exec (readFile "/runwrap-XXXXXXXX/run.tar") (joined content strayDirectory (strayOpened [guestArchive content] 3)) =
      (.ok content, joined content strayDirectory (strayOpened [guestArchive content] 3)) ∧
    exec (checkMembers "/d/linux-x64/up/.linux-x64-XXXXXXXX" ["run"])
        (joined content strayDirectory (strayOpened [guestArchive content] 3)) =
      (.ok (), joined content strayDirectory (strayOpened [guestArchive content] 3)) ∧
    exec (discard "/runwrap-XXXXXXXX") (joined content strayDirectory (strayOpened [guestArchive content, ownFile ["d"]] 4)) =
      (.ok (), joined content strayDirectory (strayStaged [ownFile ["d"]] 4)) :=
  ⟨by cbv, by cbv, by cbv, by cbv, by cbv, by cbv⟩

theorem stray_unpack :
    exec ((Tar.unpackAll [parcelMember "run"] "/d/linux-x64/up/.linux-x64-XXXXXXXX").run (.plain runArchive 1024))
        (joined runArchive strayDirectory (strayOpened [guestArchive runArchive] 3)) =
      (.ok ((), .plain runArchive 514),
        joined runArchive strayDirectory (strayOpened [guestArchive runArchive, ownFile ["d"]] 4)) := by cbv

theorem stray_finish (content : Bytes) :
    exec (locateBinary (ofText "/d/linux-x64/up/.linux-x64-XXXXXXXX") "run")
        (joined content strayDirectory (strayStaged [ownFile ["d"]] 4)) =
      (.ok (ofText "/d/linux-x64/up/.linux-x64-XXXXXXXX" / ("run" : Text)),
        joined content strayDirectory (strayStaged [ownFile ["d"]] 4)) ∧
    exec (makeExecutable (ofText "/d/linux-x64/up/.linux-x64-XXXXXXXX" / ("run" : Text)).toText)
        (joined content strayDirectory (strayStaged [ownFile ["d"]] 4)) =
      (.ok (), joined content strayDirectory (strayStaged [ownFile ["d"]] 4)) ∧
    exec (verifyBinary (ofText "/d/linux-x64/up/.linux-x64-XXXXXXXX") "https://h/run.tar" "run")
        (joined content strayDirectory (strayStaged [ownFile ["d"]] 4)) =
      (.ok true, joined content strayDirectory (strayStaged [ownFile ["d"]] 4)) ∧
    exec (Installation.writeMarker (ofText "/d/linux-x64/up/.linux-x64-XXXXXXXX") "https://h/run.tar")
        (joined content strayDirectory (strayStaged [ownFile ["d"]] 4)) =
      (.ok (), joined content strayDirectory (strayStaged [ownFile ["d"], ownMarker ["d"]] 5)) :=
  ⟨by cbv, by cbv, by cbv, by cbv⟩

example : strayLost.status "/d/linux-x64/up/linux-x64" false = .error .noEntry := by cbv

/-- What comes after that, and what others have left by then. -/
theorem stray_settle (content : Bytes) :
    exec (strayed.settle strayPlan.begun (ofText "/d/linux-x64/up/.linux-x64-XXXXXXXX") (ofText "/d/linux-x64/up/linux-x64") 10)
        (joined content strayDirectory (strayStaged [ownFile ["d"], ownMarker ["d"]] 5)) =
      (.error (.download (.notPlaced "linux-x64" "/d/linux-x64/up/linux-x64")),
        { joined content strayDirectory strayLost with identifiers := 10 }) ∧
    exec (removeTree "/d/linux-x64/up/.linux-x64-XXXXXXXX") { joined content strayDirectory strayLost with identifiers := 10 } =
      (.ok (), { joined content strayDirectory strayLost with identifiers := 10 }) ∧
    (exec (strayed.isInstalled strayPlan.dependency) (joined content strayDirectory (strayOpened [] 2))).1 = .ok true :=
  ⟨by cbv, by cbv, by cbv⟩

theorem comes_stray : strayed.Comes (some servedClient) strayPlan (joining runArchive strayDirectory crossing)
    ⟨ofText "/d/linux-x64/up/.linux-x64-XXXXXXXX", "/runwrap-XXXXXXXX", servedClient⟩
    (joining runArchive strayDirectory (crossingStaged [temporaryNode] 0)) ⟨200, none, some runArchive, none⟩
    (joined runArchive strayDirectory (strayOpened [] 2))
    (joined runArchive strayDirectory (strayStaged [ownFile ["d"], ownMarker ["d"]] 5)) := by
  have hmembers := members_runArchive
  have hunpack := stray_unpack
  generalize runArchive = content at hmembers hunpack ⊢
  have htext : (ofText "/d/linux-x64/up/.linux-x64-XXXXXXXX").toText = "/d/linux-x64/up/.linux-x64-XXXXXXXX" := by decide
  obtain ⟨hancestry, hstaging, htemporary, hparent, hintrude⟩ := stray_requests content
  obtain ⟨hcreate, happend, htarget, hread, hcheck, hremove⟩ := stray_archive content
  obtain ⟨hlocate, hexecute, hverify, hmark⟩ := stray_finish content
  have hextract := exec_extractArchive_tar hmembers htarget hread hcheck hunpack
  exact comes_joining _ rfl rfl rfl hancestry hstaging htemporary hparent hintrude hcreate happend (htext.symm ▸ hextract) hremove
    hlocate hexecute hverify hmark

theorem isMadeFor_strayPlan : strayPlan.IsMadeFor strayed := by
  have hdependency : strayed.hostDependency = .ok ⟨"linux-x64", "https://h/run.tar", "tar"⟩ := rfl
  have hdestination : strayed.destination = .ok ⟨"/", ["d", "linux-x64", "up", "linux-x64"]⟩ := by
    show Except.ok (ofText "/d/linux-x64/up" / ("linux-x64" : Text)) = _
    decide
  have htext : FilePath.toText ⟨"/", ["d", "linux-x64", "up", "linux-x64"]⟩ = "/d/linux-x64/up/linux-x64" := by decide
  exact Plan.isMadeFor_forced (serving [] crossing) hdependency hdestination htext rfl

theorem sound_stray : (strayOpened [] 2).Sound := by
  have hname : ∀ name ∈ [("d" : Text), "linux-x64", "up", ".linux-x64-XXXXXXXX", "runwrap-XXXXXXXX", ".source-url", "run"],
      IsEntryName name := by
    intro name hname
    simp only [List.mem_cons, List.not_mem_nil, or_false] at hname
    rcases hname with rfl | rfl | rfl | rfl | rfl | rfl | rfl <;> exact ⟨⟨by decide, by decide⟩, by decide, by decide, by decide⟩
  refine sound_of_nodes (fun x hx => ?_) (fun x hx name hin => ?_) fun x hx number hn => ?_ <;>
    simp only [strayOpened, crossingStaged, crossing, stagingNode, temporaryNode, guestNodes, List.mem_append, List.mem_cons,
      List.not_mem_nil, or_false] at hx
  · rcases hx with (rfl | rfl | rfl) | rfl | rfl | rfl | rfl
    · exact isDir_nil
    · exact ⟨0o755, by decide⟩
    · exact ⟨0o755, by decide⟩
    · exact ⟨0o755, by decide⟩
    · exact isDir_nil
    · exact ⟨0o755, by decide⟩
    · exact ⟨0o755, by decide⟩
  · refine hname name (List.Subset.trans ?_ (List.Subset.refl _) hin)
    rcases hx with (rfl | rfl | rfl) | rfl | rfl | rfl | rfl <;> decide
  · rcases hx with (rfl | rfl | rfl) | rfl | rfl | rfl | rfl <;> cases hn <;> decide

theorem joined_stray : strayPlan.Joined (joining runArchive strayDirectory crossing)
    (joining runArchive strayDirectory (crossingStaged [temporaryNode] 0)) (joined runArchive strayDirectory (strayOpened [] 2)) where
  outside d hd l hl := by
    obtain rfl := liesIn_crossing hd
    have hname : strayPlan.path.name = "linux-x64" := by
      show (ofText "/d/linux-x64/up/linux-x64").name = _
      decide
    rw [hname] at hl
    refine get?_append (crossingStaged [temporaryNode] 0).nodes (guestNodes ["d", "linux-x64"]) fun x hx => ?_
    simp only [guestNodes, List.mem_cons, List.not_mem_nil, or_false] at hx
    rintro rfl
    rcases hx with rfl | rfl <;> exact hl (by decide)
  sound := sound_stray
  cwd := rfl

theorem stray_conclude (content : Bytes) :
    exec (strayed.conclude strayPlan.begun (ofText "/d/linux-x64/up/.linux-x64-XXXXXXXX"))
        (joined content strayDirectory (strayStaged [ownFile ["d"], ownMarker ["d"]] 5)) =
      (.error (.download (.notPlaced "linux-x64" "/d/linux-x64/up/linux-x64")),
        { joined content strayDirectory strayLost with identifiers := 10 }) := by
  have htext : (ofText "/d/linux-x64/up/.linux-x64-XXXXXXXX").toText = "/d/linux-x64/up/.linux-x64-XXXXXXXX" := by decide
  have hsettle : exec (attempt (strayed.settle strayPlan.begun (ofText "/d/linux-x64/up/.linux-x64-XXXXXXXX") strayPlan.begun.path
      Installation.attempts)) (joined content strayDirectory (strayStaged [ownFile ["d"], ownMarker ["d"]] 5)) =
        (.ok (.error (.download (.notPlaced "linux-x64" "/d/linux-x64/up/linux-x64"))),
          { joined content strayDirectory strayLost with identifiers := 10 }) :=
    (exec_attempt _).trans (congrArg (fun r => (Except.ok r.1, r.2)) (stray_settle content).1)
  rw [Installation.conclude, exec_bind_of_ok hsettle, htext]
  exact exec_bind_of_ok (stray_settle content).2.1

end Prebuilt
