import Prebuilt.Proofs.Archive.Confinement
import Prebuilt.Proofs.Install.Outcome
/-!
Installing an archive of one file, step by step, on a machine where nothing is yet.
-/
set_option autoImplicit false

namespace Prebuilt

open FileSystem Action FilePath

variable {content : Bytes} {binary name : Text}

/-- An archive of one file of two bytes that may be executed. -/
def parcel (name sum : String) : Bytes :=
  Tar.field 100 name ++ Tar.field 8 "755" ++ Tar.field 8 "0" ++ Tar.field 8 "0" ++ Tar.field 12 "2" ++ Tar.field 12 "0" ++
    Tar.field 8 sum ++ Tar.field 1 "0" ++ Tar.field 100 "" ++ Tar.field 255 "" ++ Tar.field 512 "#!"

/-- The member of such an archive. -/
def parcelMember (name : Text) : Tar.Member := ⟨name, .file, 0o755, 0, 0, "", "", 2, .whole 0, "", 512, none⟩

/-- The directory for installations, and what else there is. -/
def room (more : List (Location × Node)) (next : Nat) : FileSystem := ⟨(["unpacked_bin"], .directory 0o755) :: more, next, []⟩

def roomStaging : Location × Node := (["unpacked_bin", ".linux-x64-XXXXXXXX"], .directory 0o700)

/-- What there is when the archive is there. -/
def roomArchive (content : Bytes) : List (Location × Node) := [roomStaging, temporaryNode, archiveNode content]

def parcelFile (directory name : Text) : Location × Node := (["unpacked_bin", directory, name], .file 1 0o755 [35, 33])

def parcelMarker (directory : Text) : Location × Node := (["unpacked_bin", directory, ".source-url"], .file 2 0o644
  [104, 116, 116, 112, 115, 58, 47, 47, 104, 47, 114, 117, 110, 46, 116, 97, 114, 10])

/-- What is at the destination in the end. -/
def parcelInstalled (name : Text) : FileSystem :=
  room [(["unpacked_bin", "linux-x64"], .directory 0o700), parcelFile "linux-x64" name, parcelMarker "linux-x64"] 3

/-- The staging directory, when the file is there and then the marker. -/
def parcelStaged (name : Text) (more : List (Location × Node)) (next : Nat) : FileSystem :=
  room (roomStaging :: parcelFile ".linux-x64-XXXXXXXX" name :: more) next

/-- The steps that depend on the names: unpacking, finding the binary under one of its names, and putting it in place. -/
structure IsShipped (binary name : Text) (content : Bytes) : Prop where
  members : Tar.members false content = .ok ([parcelMember name], .plain content 1024)
  check : exec (checkMembers "/unpacked_bin/.linux-x64-XXXXXXXX" [name]) (served content (room (roomArchive content) 1)) =
    (.ok (), served content (room (roomArchive content) 1))
  unpack : exec ((Tar.unpackAll [parcelMember name] "/unpacked_bin/.linux-x64-XXXXXXXX").run (.plain content 1024))
      (served content (room (roomArchive content) 1)) =
    (.ok ((), .plain content 514), served content (room (roomArchive content ++ [parcelFile ".linux-x64-XXXXXXXX" name]) 2))
  remove : exec (discard "/runwrap-XXXXXXXX")
      (served content (room (roomArchive content ++ [parcelFile ".linux-x64-XXXXXXXX" name]) 2)) =
    (.ok (), served content (parcelStaged name [] 2))
  locate : exec (locateBinary (ofText "/unpacked_bin/.linux-x64-XXXXXXXX") binary) (served content (parcelStaged name [] 2)) =
    (.ok (ofText "/unpacked_bin/.linux-x64-XXXXXXXX" / name), served content (parcelStaged name [] 2))
  execute : exec (makeExecutable (ofText "/unpacked_bin/.linux-x64-XXXXXXXX" / name).toText)
      (served content (parcelStaged name [] 2)) = (.ok (), served content (parcelStaged name [] 2))
  verify : exec (verifyBinary (ofText "/unpacked_bin/.linux-x64-XXXXXXXX") "https://h/run.tar" binary)
      (served content (parcelStaged name [] 2)) = (.ok true, served content (parcelStaged name [] 2))
  mark : exec (Installation.writeMarker (ofText "/unpacked_bin/.linux-x64-XXXXXXXX") "https://h/run.tar")
      (served content (parcelStaged name [] 2)) = (.ok (), served content (parcelStaged name [parcelMarker ".linux-x64-XXXXXXXX"] 3))
  aside : exec (moveAside "/unpacked_bin/linux-x64") (served content (parcelStaged name [parcelMarker ".linux-x64-XXXXXXXX"] 3)) =
    (.ok none, { served content (parcelStaged name [parcelMarker ".linux-x64-XXXXXXXX"] 3) with identifiers := 1 })
  place : exec (rename "/unpacked_bin/.linux-x64-XXXXXXXX" "/unpacked_bin/linux-x64")
      { served content (parcelStaged name [parcelMarker ".linux-x64-XXXXXXXX"] 3) with identifiers := 1 } =
    (.ok (), { served content (parcelInstalled name) with identifiers := 1 })

/-- The only binary is found, everybody may execute it, and it is verified. -/
theorem exec_finish_single {plan : Plan} {staging found : FilePath} {m m₁ m₂ m₃ : Machine} (hone : plan.binaries = [binary])
    (hlocate : exec (locateBinary staging binary) m = (.ok found, m₁)) (hexecute : exec (makeExecutable found.toText) m₁ = (.ok (), m₂))
    (hverify : exec (verifyBinary staging plan.dependency.url binary) m₂ = (.ok true, m₃)) :
    exec (Installation.finish plan staging) m = exec (Installation.writeMarker staging plan.dependency.url) m₃ := by
  have hprepare : exec (plan.binaries.forM fun binary => do makeExecutable (← locateBinary staging binary).toText) m =
      (.ok PUnit.unit, m₂) := by
    rw [hone]
    refine (exec_bind_of_ok (a := PUnit.unit) ?_).trans rfl
    rw [exec_bind_of_ok hlocate]
    exact hexecute
  have hall : exec (plan.binaries.allM (verifyBinary staging plan.dependency.url)) m₂ = (.ok true, m₃) := by
    rw [hone]
    exact (exec_bind_of_ok hverify).trans rfl
  rw [Installation.finish, exec_bind_of_ok hprepare, exec_bind_of_ok hall]
  rfl

section

set_option maxRecDepth 100000

theorem ship_requests (content : Bytes) :
    exec (makeAncestry (ofText "/unpacked_bin/linux-x64").parent) (serving content emptyFiles) = (.ok (), serving content (room [] 0)) ∧
    exec (makeTemporary "/unpacked_bin" ".linux-x64-") (serving content (room [] 0)) =
      (.ok "/unpacked_bin/.linux-x64-XXXXXXXX", serving content (room [roomStaging] 0)) ∧
    exec (makeTemporary "/" "runwrap-") (serving content (room [roomStaging] 0)) =
      (.ok "/runwrap-XXXXXXXX", serving content (room [roomStaging, temporaryNode] 0)) ∧
    exec (downloadFile (some servedClient) .null "https://h/run.tar" "/runwrap-XXXXXXXX/run.tar")
      (serving content (room [roomStaging, temporaryNode] 0)) = (.ok (), served content (room (roomArchive content) 1)) ∧
    exec (makeDirectories "/unpacked_bin/.linux-x64-XXXXXXXX" true) (served content (room (roomArchive content) 1)) =
      (.ok (), served content (room (roomArchive content) 1)) ∧
    exec (readFile "/runwrap-XXXXXXXX/run.tar") (served content (room (roomArchive content) 1)) =
      (.ok content, served content (room (roomArchive content) 1)) := by
  refine ⟨by cbv, by cbv, by cbv, ?_, by cbv, by cbv⟩
  have htruncate : (room [roomStaging, temporaryNode] 0).truncate "/runwrap-XXXXXXXX/run.tar" = .ok (room (roomArchive []) 1) := by cbv
  have hstatus : (room (roomArchive []) 1).status "/runwrap-XXXXXXXX/run.tar" true =
    .ok (["runwrap-XXXXXXXX", "run.tar"], .file 0 0o644 []) := by cbv
  have happend : (room (roomArchive []) 1).append ["runwrap-XXXXXXXX", "run.tar"] content = room (roomArchive content) 1 := by cbv
  rw [exec_downloadFile_serving ⟨_, rfl, by decide⟩ (by cbv) htruncate hstatus, happend]

variable (h : IsShipped binary name content)

include h

theorem ship_extractArchive : exec (extractArchive "/runwrap-XXXXXXXX/run.tar" "/unpacked_bin/.linux-x64-XXXXXXXX" "tar")
      (served content (room (roomArchive content) 1)) =
    (.ok (), served content (room (roomArchive content ++ [parcelFile ".linux-x64-XXXXXXXX" name]) 2)) := by
  obtain ⟨hmembers, hcheck, hunpack⟩ := h
  obtain ⟨-, -, -, -, htarget, hread⟩ := ship_requests content
  exact exec_extractArchive_tar hmembers htarget hread hcheck hunpack

theorem ship_downloadArchive :
    exec (downloadArchive (some servedClient) .null "https://h/run.tar" "/unpacked_bin/.linux-x64-XXXXXXXX" "tar")
        (serving content (room [roomStaging] 0)) = (.ok (), served content (parcelStaged name [] 2)) := by
  have hname : Path.join "/runwrap-XXXXXXXX" (archiveName "https://h/run.tar") = "/runwrap-XXXXXXXX/run.tar" := by decide
  obtain ⟨-, -, htemporary, hdownload, -⟩ := ship_requests content
  rw [downloadArchive, exec_bind_of_ok exec_get]
  refine (exec_bind_of_ok htemporary).trans ?_
  simp only [hname]
  rw [exec_ensure, exec_bind_of_ok hdownload, exec_bind_of_ok (exec_log_served ..), ship_extractArchive h, h.remove]

theorem ship_settle : exec ((hosted [binary] "https://h/run.tar").settle (hostedPlan [binary] "https://h/run.tar").begun
      (ofText "/unpacked_bin/.linux-x64-XXXXXXXX") (ofText "/unpacked_bin/linux-x64") 10)
      (served content (parcelStaged name [parcelMarker ".linux-x64-XXXXXXXX"] 3)) =
    (.ok true, { served content (parcelInstalled name) with identifiers := 1 }) := by
  have hstaging : (ofText "/unpacked_bin/.linux-x64-XXXXXXXX").toText = "/unpacked_bin/.linux-x64-XXXXXXXX" := by decide
  have hdestination : (ofText "/unpacked_bin/linux-x64").toText = "/unpacked_bin/linux-x64" := by decide
  rw [Installation.settle, hdestination]
  refine (exec_bind_of_ok (a := false) rfl).trans ((exec_bind_of_ok h.aside).trans ?_)
  have hplace : exec ((hosted [binary] "https://h/run.tar").place (hostedPlan [binary] "https://h/run.tar").begun
      (ofText "/unpacked_bin/.linux-x64-XXXXXXXX") (ofText "/unpacked_bin/linux-x64"))
      { served content (parcelStaged name [parcelMarker ".linux-x64-XXXXXXXX"] 3) with identifiers := 1 } =
        (.ok (some true), { served content (parcelInstalled name) with identifiers := 1 }) := by
    rw [Installation.place, hstaging, hdestination]
    refine (exec_bind_of_ok (a := ()) rfl).trans ?_
    rw [exec_bind_of_ok (exec_attempt _), h.place]
    rfl
  refine (exec_bind_of_ok (a := some true) ?_).trans rfl
  rw [exec_ensure, hplace]
  rfl

theorem ship_fill : exec ((hosted [binary] "https://h/run.tar").fill (some servedClient) (hostedPlan [binary] "https://h/run.tar").begun
      (ofText "/unpacked_bin/.linux-x64-XXXXXXXX")) (serving content (room [roomStaging] 0)) =
    (.ok true, { served content (parcelInstalled name) with identifiers := 1 }) := by
  have htext : (ofText "/unpacked_bin/.linux-x64-XXXXXXXX").toText = "/unpacked_bin/.linux-x64-XXXXXXXX" := by decide
  have hfinish : exec (Installation.finish (hostedPlan [binary] "https://h/run.tar").begun _) _ = _ :=
    exec_finish_single rfl h.locate h.execute h.verify
  rw [Installation.exec_fill_eq, htext]
  refine (exec_bind_of_ok (ship_downloadArchive h)).trans ?_
  exact (exec_bind_of_ok (hfinish.trans h.mark)).trans (ship_settle h)

theorem ship_perform : exec (((hosted [binary] "https://h/run.tar").keep (hostedPlan [binary] "https://h/run.tar").begun).perform
      (some servedClient) (hostedPlan [binary] "https://h/run.tar").begun) (serving content emptyFiles) =
    (.ok (), { served content (parcelInstalled name) with identifiers := 1 }) := by
  obtain ⟨hancestry, hstaging, -⟩ := ship_requests content
  rw [Installation.perform]
  refine (exec_bind_of_ok hancestry).trans ((exec_bind_of_ok hstaging).trans ?_)
  refine (exec_bind_of_ok (a := .ok true) ?_).trans rfl
  rw [exec_attempt]
  exact congrArg (fun x => (Except.ok x.1, x.2)) (ship_fill h)

/-- The plan is closed, and the file is all there is at the destination, next to the marker. -/
theorem ship_download : Installing.exec (Installing.download (some servedClient) (hostedPlan [binary] "https://h/run.tar"))
      ((hosted [binary] "https://h/run.tar").planned (hostedPlan [binary] "https://h/run.tar")) (serving content emptyFiles) =
    ((.ok true, (((hosted [binary] "https://h/run.tar").planned (hostedPlan [binary] "https://h/run.tar")).keep
      (hostedPlan [binary] "https://h/run.tar").begun).mark (hostedPlan [binary] "https://h/run.tar").begun true),
        { served content (parcelInstalled name) with identifiers := 1 }) := by
  have hperform : Installing.exec (Installing.act (attempt
      ((((hosted [binary] "https://h/run.tar").planned (hostedPlan [binary] "https://h/run.tar")).keep
        (hostedPlan [binary] "https://h/run.tar").begun).perform (some servedClient) (hostedPlan [binary] "https://h/run.tar").begun)))
      (((hosted [binary] "https://h/run.tar").planned (hostedPlan [binary] "https://h/run.tar")).keep
        (hostedPlan [binary] "https://h/run.tar").begun) (serving content emptyFiles) =
      ((.ok (.ok ()), ((hosted [binary] "https://h/run.tar").planned (hostedPlan [binary] "https://h/run.tar")).keep
        (hostedPlan [binary] "https://h/run.tar").begun), { served content (parcelInstalled name) with identifiers := 1 }) := by
    rw [Installing.exec_act, exec_attempt]
    exact congrArg (fun x => ((Except.ok x.1, _), x.2)) (ship_perform h)
  have hbegun : Installing.exec (Installing.act (log Log.info Installing.downloading (Text.join ["Downloading ",
      (hostedPlan [binary] "https://h/run.tar").key, " from ", (hostedPlan [binary] "https://h/run.tar").dependency.url])))
      ((hosted [binary] "https://h/run.tar").planned (hostedPlan [binary] "https://h/run.tar")) (serving content emptyFiles) =
    ((.ok (), (hosted [binary] "https://h/run.tar").planned (hostedPlan [binary] "https://h/run.tar")), serving content emptyFiles) := rfl
  rw [Installing.download, Installing.exec_bind_of_ok hbegun, Installing.exec_bind_of_ok (Installing.exec_modify _),
    Installing.exec_bind_of_ok Installing.exec_get]
  refine (Installing.exec_bind_of_ok hperform).trans ?_
  rfl

omit h

/-- Under its second name the only binary is shipped for another system. -/
theorem isShipped_suffix : IsShipped "run" "run.exe" (parcel "run.exe" "2530") := by
  -- what is not read from the archive holds for any other one
  refine ⟨by cbv, ?_, by cbv, ?_, ?_, ?_, ?_, ?_, ?_, ?_⟩ <;> generalize parcel "run.exe" "2530" = content <;> cbv

/-- Under its own name it is shipped for this one. -/
theorem isShipped_own : IsShipped "run" "run" (parcel "run" "1750") := by
  refine ⟨by cbv, ?_, by cbv, ?_, ?_, ?_, ?_, ?_, ?_, ?_⟩ <;> generalize parcel "run" "1750" = content <;> cbv

/-- A binary that has the name of the marker is shipped under its second name. -/
theorem isShipped_marker : IsShipped ".source-url" ".source-url.exe" (parcel ".source-url.exe" "4102") := by
  refine ⟨by cbv, ?_, by cbv, ?_, ?_, ?_, ?_, ?_, ?_, ?_⟩ <;> generalize parcel ".source-url.exe" "4102" = content <;> cbv

end

end Prebuilt
