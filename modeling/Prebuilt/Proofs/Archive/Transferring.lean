import Prebuilt.Proofs.Archive.Altering
import Prebuilt.Proofs.Archive.Downloading
/-!
What a download of an archive comes to, whatever the servers answer and whatever the archive holds. What is unpacked is the
content of a transfer that came to its end, and without one the files are in the end what they were. The temporary directory goes
in any case that leaves the links on its way alone; unpacking can replace those, and never takes a directory away.
-/
set_option autoImplicit false

namespace Prebuilt

open FileSystem Action

variable {m m' m₁ : Machine} {client : Client} {given : Option Client} {timeout : Json} {fs : FileSystem}
  {url target path name type : Text} {t l : Location} {mode : Nat} {content : Bytes} {reply : Reply}

/-- What is transferred is the same however one comes by it. -/
theorem Server.Transfers.unique {server : Server} {other : Bytes} (h : server.Transfers client url content)
    (h' : server.Transfers client url other) : content = other := by
  obtain ⟨start, reply, hstart, hends, -, hread⟩ := h
  obtain ⟨start', reply', hstart', hends', -, hread'⟩ := h'
  cases hstart.symm.trans hstart'
  cases (course_ok_iff.2 hends).symm.trans (course_ok_iff.2 hends')
  exact Except.ok.inj (hread.symm.trans hread')

/-! ## Dots -/

/-- A path that ends in dots leads to a directory, if it leads anywhere. -/
theorem FileSystem.place_dots {purpose : Purpose} {place : Place} (hroot : fs.Rooted) (hname : name = "." ∨ name = "..")
    (h : fs.place purpose (Path.join path name) = .ok place) : ∃ l mode, place = .taken l (.directory mode) := by
  have hslash : CodePoint.char '/' ∉ name := by rcases hname with rfl | rfl <;> decide
  obtain ⟨above, hsplit, -⟩ := Path.splitOn_join path hslash
  have hcontinues : Continues purpose [name] := by rcases hname with rfl | rfl <;> exact ⟨by simp, fun _ => by decide⟩
  simp only [FileSystem.place, bind, Except.bind] at h
  cases hstart : fs.start (Path.join path name) with
  | error e => simp [hstart] at h
  | ok d =>
    simp only [hstart, hsplit] at h
    obtain ⟨n, d', -, hreach, hlast⟩ := walk_append_ok hcontinues h
    have hdir : fs.IsDir d' := hreach.isDir hroot (start_ok hstart).2
    rcases hname with rfl | rfl
    · obtain ⟨mode, hmode⟩ := hdir
      rw [walk_skip (by decide), walk, hmode] at hlast
      exact ⟨d', mode, (Except.ok.inj hlast).symm⟩
    · obtain ⟨mode, hmode⟩ := hdir.dropLast hroot
      rw [walk_up, walk, hmode] at hlast
      exact ⟨d'.dropLast, mode, (Except.ok.inj hlast).symm⟩

namespace Action

/-- No file is opened under dots. -/
theorem exec_create_dots (path : Text) (hroot : m.files.Rooted) (hname : name = "." ∨ name = "..") :
    ∃ e, exec (create (Path.join path name)) m = (.error e, m) := by
  rcases request_cases (Path.join path name) (·.truncate (Path.join path name)) m with ⟨e, he⟩ | ⟨opened, hopened, -⟩
  · exact ⟨e, by rw [create, exec_bind_of_error he]⟩
  · rcases truncate_ok hopened with ⟨l, node, hplace, hnode, -⟩ | ⟨directory, free, hplace, -⟩
    · obtain ⟨l', mode, hdots⟩ := place_dots hroot hname hplace
      cases hdots
      cases hnode
    · obtain ⟨l', mode, hdots⟩ := place_dots hroot hname hplace
      cases hdots

theorem slash_not_mem_archiveName (url : Text) : CodePoint.char '/' ∉ archiveName url := by
  unfold archiveName
  dsimp only
  split
  · decide
  · exact Text.not_mem_afterLast _ url

/-- An archive is called by a name, or by dots. -/
theorem archiveName_cases (url : Text) : IsComponent (archiveName url) ∨ archiveName url = "." ∨ archiveName url = ".." := by
  by_cases hone : archiveName url = "."
  · exact .inr (.inl hone)
  by_cases htwo : archiveName url = ".."
  · exact .inr (.inr htwo)
  refine .inl ⟨⟨FilePath.isPart_iff.2 ⟨?_, hone⟩, htwo⟩, slash_not_mem_archiveName url⟩
  unfold archiveName
  dsimp only
  split
  · decide
  · rename_i hempty
    simpa using hempty

/-! ## Whether a download goes well -/

theorem receive_ok_iff : (∃ m', exec (receive url target reply) m = (.ok (), m')) ↔
    reply.status = 200 ∧ (∃ content, reply.read = .ok content) ∧ IsCreatable m.files target := by
  rw [receive, ← create_ok_iff]
  by_cases hstatus : reply.status = 200
  · simp only [hstatus, ne_eq, not_true_eq_false, if_false, true_and]
    constructor
    · rintro ⟨m', h⟩
      obtain ⟨location, m₁, hcreate, h⟩ := bind_ok.1 h
      refine ⟨?_, location, m₁, hcreate⟩
      rw [Reply.read]
      cases hcontent : reply.content with
      | none => simp [hcontent] at h
      | some content =>
        simp only [hcontent] at h
        obtain ⟨_, m₂, -, h⟩ := bind_ok.1 h
        cases hbroken : reply.broken with
        | none => exact ⟨content, rfl⟩
        | some fault => simp [refuseBroken, hbroken] at h
    · rintro ⟨⟨content, hread⟩, location, m₁, hcreate⟩
      obtain ⟨hcontent, hbroken⟩ := Reply.read_ok_iff.1 hread
      rw [exec_bind_of_ok hcreate, hcontent]
      exact ⟨_, by rw [refuseBroken, hbroken]; rfl⟩
  · simp only [hstatus, ne_eq, not_false_eq_true, if_true, false_and, iff_false, not_exists]
    intro m' h
    obtain ⟨_, _, hthrow, -⟩ := bind_ok.1 h
    cases hthrow

theorem fetch_ok_iff (hquiet : m.server.Undisturbed) : (∃ m', exec (fetch client url target) m = (.ok (), m')) ↔
    (∃ content, m.server.Transfers client url content) ∧ IsCreatable m.files target := by
  rw [fetch_eq]
  cases hurl : Url.ofRequest url with
  | error e =>
    rw [exec_bind_of_error (client.exec_send_of_error .get hurl)]
    refine iff_of_false (by simp) ?_
    rintro ⟨⟨content, start, reply, hstart, -⟩, -⟩
    cases hurl.symm.trans hstart
  | ok start =>
    have hsend := client.exec_send_of_ok hquiet .get hurl
    cases hreply : (m.server.course .get client.followRedirects Client.redirectLimit start).2 with
    | error e =>
      rw [exec_bind_of_error (hreply ▸ hsend)]
      refine iff_of_false (by simp) ?_
      rintro ⟨⟨content, start', reply, hstart, hends, -⟩, -⟩
      cases hurl.symm.trans hstart
      cases hreply.symm.trans (Server.course_ok_iff.2 hends)
    | ok reply =>
      rw [exec_bind_of_ok (hreply ▸ hsend), receive_ok_iff, ← and_assoc]
      refine and_congr_left fun _ => ⟨?_, ?_⟩
      · rintro ⟨hstatus, content, hread⟩
        exact ⟨content, start, reply, hurl, Server.course_ok_iff.1 hreply, hstatus, hread⟩
      · rintro ⟨content, start', reply', hstart, hends, hstatus, hread⟩
        cases hurl.symm.trans hstart
        cases hreply.symm.trans (Server.course_ok_iff.2 hends)
        exact ⟨hstatus, content, hread⟩

/-- A download goes well if it can be announced, the content comes whole and there is a file to take it. -/
theorem downloadFile_ok_iff (given : Option Client) (timeout : Json) (url : Text) (hquiet : m.server.Undisturbed)
    (habove : exec (makeDirectories (Path.parent target) true) m = (.ok (), m)) :
    (∃ m', exec (downloadFile given timeout url target) m = (.ok (), m')) ↔ IsLoggable m.threshold (downloadMessage url target) ∧
      (∃ content, m.server.Transfers (clientFor given timeout) url content) ∧ IsCreatable m.files target := by
  constructor
  · rintro ⟨m', h⟩
    obtain ⟨hloggable, m₁, hworld, hfetch⟩ := downloadFile_fetches (by rw [habove]; exact quiet_refl m) h
    have hok := (fetch_ok_iff (hworld.server ▸ hquiet)).1 ⟨m', hfetch⟩
    rw [hworld.server, hworld.files] at hok
    exact ⟨hloggable, hok⟩
  · rintro ⟨hloggable, hok⟩
    obtain ⟨m₁, hlog⟩ : ∃ m₁, exec (log Log.info downloading (downloadMessage url target)) m = (.ok (), m₁) := log_ok.2 hloggable
    have hlogged := quiet_log Log.info downloading (downloadMessage url target) m
    rw [hlog] at hlogged
    obtain ⟨m₂, hclient, hopened⟩ := exec_clientOr given timeout m₁
    have hworld := hlogged.trans hopened
    rw [← hworld.server, ← hworld.files] at hok
    obtain ⟨m', hfetch⟩ := (fetch_ok_iff (hworld.server ▸ hquiet)).2 hok
    rw [downloadMessage] at hlog
    exact ⟨m', by rw [downloadFile, exec_bind_of_ok habove, exec_bind_of_ok hlog, exec_bind_of_ok hclient, exec_catching, hfetch]⟩

/-! ## In the temporary directory -/

theorem Lodged.parent (h : Lodged m path t mode m₁) (hslash : CodePoint.char '/' ∉ name) : Path.parent (Path.join path name) = path :=
  Path.parent_join hslash (.inr h.addresses.endsInSlash)

theorem Lodged.makeDirectories (h : Lodged m path t mode m₁) (hslash : CodePoint.char '/' ∉ name) :
    exec (makeDirectories (Path.parent (Path.join path name)) true) m₁ = (.ok (), m₁) := by
  rw [h.parent hslash]
  exact exec_makeDirectories_there h.addresses h.barren.sound.rooted ⟨mode, h.get?⟩ h.fresh.sendable

/-- Whatever the archive is called, opening its file keeps to the temporary directory. -/
theorem Lodged.opening (h : Lodged m path t mode m₁) (url : Text) : Opening m₁ [t] m₁.files (Path.join path (archiveName url)) := by
  rcases archiveName_cases url with hname | hdots
  · exact opening_of_inward h.barren (h.staysInward h.barren (by simp) hname)
  · constructor
    · intro m₂ hm₂
      obtain ⟨e, he⟩ := exec_create_dots path hm₂.files.rooted hdots
      rw [he]
      exact hm₂
    · intro m₂ m₃ location hm₂ hcreate
      obtain ⟨e, he⟩ := exec_create_dots path hm₂.files.rooted hdots
      rw [he] at hcreate
      cases hcreate

/-- A download changes nothing outside the temporary directory. -/
theorem Lodged.keeps_download (given : Option Client) (timeout : Json) (url : Text) (h : Lodged m path t mode m₁) (hquiet : m.server.Undisturbed) :
    m₁.Holds (Sealed .none [t] m₁.files) (exec (downloadFile given timeout url (Path.join path (archiveName url))) m₁).2 := by
  have hparent : StaysFounded .none [t] m₁.files (Path.parent (Path.join path (archiveName url))) := by
    have hsome : IsComponent "archive" := ⟨⟨by decide, by decide⟩, by decide⟩
    have hin := h.staysInward h.barren (List.mem_singleton_self t) hsome
    rw [h.parent (slash_not_mem_archiveName url), ← h.parent hsome.noSlash]
    exact hin.founded.parent (by rw [h.parent hsome.noSlash]; exact addresses_ne_nil h.addresses)
  exact keeps_downloadFile (h.server ▸ hquiet) h.barren hparent (h.opening url) m₁ (Machine.holds_self h.barren.sealed)

/-- What is downloaded is in the file. -/
theorem Lodged.download_ok {m₂ : Machine} (h : Lodged m path t mode m₁) (hquiet : m.server.Undisturbed)
    (hrun : exec (downloadFile given timeout url (Path.join path (archiveName url))) m₁ = (.ok (), m₂)) :
    ∃ content, m.server.Transfers (clientFor given timeout) url content ∧
      m₂.files.read (Path.join path (archiveName url)) = .ok content := by
  have hquiet' : m₁.server.Undisturbed := h.server ▸ hquiet
  obtain ⟨-, htransfers, hcreatable⟩ := (downloadFile_ok_iff given timeout url hquiet' (h.makeDirectories (slash_not_mem_archiveName url))).1 ⟨m₂, hrun⟩
  have hname : IsComponent (archiveName url) := by
    refine (archiveName_cases url).resolve_right fun hdots => ?_
    obtain ⟨location, m₃, hcreate⟩ := create_ok_iff.2 hcreatable
    obtain ⟨e, he⟩ := exec_create_dots path h.barren.sound.rooted hdots
    rw [he] at hcreate
    cases hcreate
  obtain ⟨content, hfetched⟩ := downloadFile_ok hquiet' h.barren.sound h.addresses ⟨mode, h.get?⟩ hname h.empty hrun
  exact ⟨content, h.server ▸ hfetched.transfers, hfetched.read⟩

/-- What the message about unpacking says. -/
def unpackMessage (archive target : Text) : Text := Text.join ["Extracting ", archive, " to ", target]

/-- What is done with an archive while the temporary directory is there. -/
def fetchAndUnpack (given : Option Client) (timeout : Json) (url archive target type : Text) : Action Unit := do
  downloadFile given timeout url archive
  log Log.info extracting (unpackMessage archive target)
  extractArchive archive target type

theorem exec_downloadArchive_made {path : Text} (h : exec (makeTemporary m.temporary "runwrap-") m = (.ok path, m₁)) :
    exec (downloadArchive given timeout url target type) m =
      exec (ensure (fetchAndUnpack given timeout url (Path.join path (archiveName url)) target type) (discard path)) m₁ := by
  rw [downloadArchive, exec_bind_of_ok exec_get, exec_bind_of_ok h]
  rfl

/-- All that a download takes, from the temporary directory to the whole content. -/
structure Obtains (m : Machine) (given : Option Client) (timeout : Json) (url target path : Text) (t : Location) (mode : Nat)
    (content : Bytes) : Prop where
  made : exec (makeTemporary m.temporary "runwrap-") m = (.ok path, { m with files := m.files.put t (.directory mode) })
  announced : IsLoggable m.threshold (downloadMessage url (Path.join path (archiveName url)))
  creatable : IsCreatable (m.files.put t (.directory mode)) (Path.join path (archiveName url))
  transfers : m.server.Transfers (clientFor given timeout) url content
  reported : IsLoggable m.threshold (unpackMessage (Path.join path (archiveName url)) target)

/-- There is one temporary directory. -/
theorem Obtains.place {path' : Text} {t' : Location} {mode' : Nat} (h : Obtains m given timeout url target path t mode content)
    (hmade : exec (makeTemporary m.temporary "runwrap-") m = (.ok path', { m with files := m.files.put t' (.directory mode') })) :
    path = path' ∧ t = t' ∧ mode = mode' := by
  have hsame := h.made.symm.trans hmade
  simp only [Prod.mk.injEq, Except.ok.injEq, Machine.mk.injEq, and_true, true_and] at hsame
  obtain ⟨hplace, hnode⟩ := put_inj hsame.2
  exact ⟨hsame.1, hplace, Node.directory.inj hnode⟩

/-- Either all goes well up to where the archive is unpacked, or it fails in the temporary directory. -/
theorem Lodged.fetchAndUnpack_cases (given : Option Client) (timeout : Json) (url target type : Text)
    (h : Lodged m path t mode m₁) (hquiet : m.server.Undisturbed)
    (hmade : exec (makeTemporary m.temporary "runwrap-") m = (.ok path, m₁)) :
    (∃ content m₂, Obtains m given timeout url target path t mode content ∧ m₁.Holds (Sealed .none [t] m₁.files) m₂ ∧
        m₂.files.read (Path.join path (archiveName url)) = .ok content ∧
        exec (fetchAndUnpack given timeout url (Path.join path (archiveName url)) target type) m₁ =
          exec (extractArchive (Path.join path (archiveName url)) target type) m₂) ∨
      (∀ content, ¬ Obtains m given timeout url target path t mode content) ∧
        ∃ e m₂, m₁.Holds (Sealed .none [t] m₁.files) m₂ ∧
          exec (fetchAndUnpack given timeout url (Path.join path (archiveName url)) target type) m₁ = (.error e, m₂) := by
  have hquiet' : m₁.server.Undisturbed := h.server ▸ hquiet
  have hiff := downloadFile_ok_iff given timeout url hquiet'
    (h.makeDirectories (slash_not_mem_archiveName url))
  have hsealed := h.keeps_download given timeout url hquiet
  have hthreshold : m₁.threshold = m.threshold := by rw [h.machine]
  have hfiles : m₁.files = m.files.put t (.directory mode) := by rw [h.machine]
  rw [hthreshold, hfiles, h.server] at hiff
  rcases hrun : exec (downloadFile given timeout url (Path.join path (archiveName url))) m₁ with ⟨r, m₂⟩
  rw [hrun] at hsealed
  cases r with
  | error e =>
    refine .inr ⟨fun content hobtains => ?_, e, m₂, hsealed, by rw [fetchAndUnpack, exec_bind_of_error hrun]⟩
    obtain ⟨m', hok⟩ := hiff.2 ⟨hobtains.announced, ⟨content, hobtains.transfers⟩, hobtains.creatable⟩
    rw [hrun] at hok
    cases hok
  | ok _ =>
    obtain ⟨hannounced, -, hcreatable⟩ := hiff.1 ⟨m₂, hrun⟩
    obtain ⟨content, htransfers, hread⟩ := h.download_ok hquiet hrun
    have hthreshold₂ : m₂.threshold = m.threshold := (hsealed.same (·.threshold) fun _ _ _ => rfl).trans hthreshold
    have hlog : (∃ m₃, exec (log Log.info extracting (unpackMessage (Path.join path (archiveName url)) target)) m₂ = (.ok (), m₃)) ↔
        IsLoggable m.threshold (unpackMessage (Path.join path (archiveName url)) target) := hthreshold₂ ▸ log_ok
    have hlogged := quiet_log Log.info extracting (unpackMessage (Path.join path (archiveName url)) target) m₂
    rcases hreport : exec (log Log.info extracting (unpackMessage (Path.join path (archiveName url)) target)) m₂ with ⟨r, m₃⟩
    rw [hreport] at hlogged
    have hsealed₃ := hsealed.trans (hlogged.imp fun fs hfs => hfs ▸ hsealed.files)
    cases r with
    | error e =>
      refine .inr ⟨fun content hobtains => ?_, e, m₃, hsealed₃, by
        rw [fetchAndUnpack, exec_bind_of_ok hrun, exec_bind_of_error hreport]⟩
      obtain ⟨m', hok⟩ := hlog.2 hobtains.reported
      rw [hreport] at hok
      cases hok
    | ok _ =>
      refine .inl ⟨content, m₃, ⟨h.machine ▸ hmade, hannounced, hcreatable, htransfers, hlog.1 ⟨m₃, hreport⟩⟩, hsealed₃, ?_, by
        rw [fetchAndUnpack, exec_bind_of_ok hrun, exec_bind_of_ok hreport]⟩
      rw [hlogged.files]
      exact hread

/-- The temporary directory goes, with all that is in it, if it lasts and the links on its way are what they were. -/
theorem Lodged.discard {m₂ : Machine} (h : Lodged m path t mode m₁) (hdirs : ∀ l, m₁.files.IsDir l → m₂.files.IsDir l)
    (hcwd : m₂.files.workingDirectory = m₁.files.workingDirectory)
    (hlinks : ∀ l, m.files.LeadsThrough path l → m₂.files.get? l = m.files.get? l) :
    exec (Action.discard path) m₂ = (.ok (), { m₂ with files := m₂.files.without t }) := by
  have hne := h.fresh.nameable.ne_nil
  have hvacant := vacant_of_none h.sound.rooted h.fresh.none
  -- What was there before lies outside the directory, so it is there without it too.
  have hout {l : Location} (hl : m.files.get? l ≠ none) : (m₂.files.without t).get? l = m₂.files.get? l := by
    rw [get?_without hne, if_neg fun hp => hl (hvacant l hp)]
  have haddr : (m₂.files.without t).Addresses path t := by
    refine h.fresh.addresses.of_kept (fun l hl => ?_) (fun hhome => ?_) fun l hl => ?_
    · obtain ⟨mode, hmode⟩ := hdirs l (h.extends.dir l hl)
      exact ⟨mode, (hout hl.get?_ne_none).trans hmode⟩
    · exact hcwd.trans (h.extends.cwd hhome)
    · obtain ⟨target, htarget⟩ := hl.isLink
      rw [hout (by simp [htarget]), hlinks l hl]
  obtain ⟨mode', hthere⟩ := hdirs t ⟨mode, h.get?⟩
  have hhere : m₂.files.Addresses path t := haddr.of_extends (extends_of_without hne (fun _ _ => rfl) fun _ => rfl)
  rw [exec_discard hhere h.fresh.sendable hthere, Action.removeTree, exec_bind_of_ok (h.fresh.sendable.exec m₂),
    exec_bind_of_ok exec_files, haddr.removeTree hthere]
  rfl

/-- The archive is unpacked from its file in the temporary directory, and nothing else has changed before. The call ends as the
unpacking does and the directory goes with all that is in it, unless a link on its way is not what it was once the archive is
unpacked. -/
structure HandsOver (m : Machine) (path : Text) (t : Location) (archive target type : Text) (content : Bytes)
    (result : Except Error Unit × Machine) (m₂ : Machine) : Prop where
  fresh : Fresh m.files path t
  before : m.Holds (fun fs => ∀ l, ¬ t <+: l → fs.get? l = m.files.get? l) m₂
  read : m₂.files.read archive = .ok content
  ending : (result.1 = (exec (extractArchive archive target type) m₂).1 ∧
      ∀ l, result.2.files.get? l = if t <+: l then none else (exec (extractArchive archive target type) m₂).2.files.get? l) ∨
    ∃ l, m.files.LeadsThrough path l ∧ (exec (extractArchive archive target type) m₂).2.files.get? l ≠ m.files.get? l

theorem Lodged.handsOver {m₂ : Machine} {archive : Text} (h : Lodged m path t mode m₁)
    (hsealed : m₁.Holds (Sealed .none [t] m₁.files) m₂) (hread : m₂.files.read archive = .ok content) {work : Action Unit}
    (hwork : exec work m₁ = exec (extractArchive archive target type) m₂) :
    HandsOver m path t archive target type content (exec (ensure work (Action.discard path)) m₁) m₂ := by
  have hne := h.fresh.nameable.ne_nil
  have houtside (l : Location) (hl : ¬ t <+: l) : m₂.files.get? l = m.files.get? l := by
    have hls : l ≠ t := fun he => hl (he ▸ List.prefix_rfl)
    rw [hsealed.files.outside l (by simpa [Beneath] using hl), h.machine, get?_put hne, if_neg hls]
  have hbefore : m.Holds (fun fs => ∀ l, ¬ t <+: l → fs.get? l = m.files.get? l) m₂ := by
    refine ⟨?_, houtside⟩
    rw [hsealed.world, h.machine]
  have hextracted : m₂.Holds (Relation.ReflTransGen Alters m₂.files) (exec (extractArchive archive target type) m₂).2 :=
    keeps_extractArchive archive target type m₂ (Machine.holds_self .refl)
  rcases hrun : exec (extractArchive archive target type) m₂ with ⟨r, m₃⟩
  rw [hrun] at hextracted hwork
  obtain ⟨hdirs, hcwd⟩ := lasts_of_alters hextracted.files
  refine ⟨h.fresh, hbefore, hread, ?_⟩
  rw [hrun]
  by_cases hlinks : ∀ l, m.files.LeadsThrough path l → m₃.files.get? l = m.files.get? l
  · have hremove := h.discard (fun l hl => hdirs l (hsealed.files.dirs l hl)) (hcwd.trans hsealed.files.cwd) hlinks
    have hresult : exec (ensure work (Action.discard path)) m₁ = (r, { m₃ with files := m₃.files.without t }) := by
      rw [exec_ensure, hwork, hremove]
    rw [hresult]
    exact .inl ⟨rfl, fun l => get?_without hne⟩
  · simp only [not_forall] at hlinks
    obtain ⟨l, hl, hchanged⟩ := hlinks
    exact .inr ⟨l, hl, hchanged⟩

/-- A machine whose temporary files go through a link, and a server with an archive. -/
def diverted (content : Bytes) (files : FileSystem) : Machine :=
  { unpacking [] with
    files := files
    temporary := "/e/l"
    server := [("https://h/a.tar", ⟨200, none, [], content, none, none, []⟩)] }

/-- The same once the archive was asked for. -/
def divertedAsked (content : Bytes) (files : FileSystem) : Machine := (diverted content files).asked ⟨"GET", "https://h/a.tar", "c"⟩

def divertedFiles : FileSystem := ⟨[(["e"], .directory 0o755), (["e", "d"], .directory 0o755), (["e", "l"], .link "d")], 0, []⟩

def divertedNode : Location × Node := (["e", "d", "runwrap-XXXXXXXX"], .directory 0o700)

/-- The files while the archive is fetched. -/
def divertedMade (more : List (Location × Node)) (next : Nat) : FileSystem :=
  ⟨(["e"], .directory 0o755) :: (["e", "d"], .directory 0o755) :: (["e", "l"], .link "d") :: divertedNode :: more, next, []⟩

def divertedArchive (content : Bytes) : Location × Node := (["e", "d", "runwrap-XXXXXXXX", "a.tar"], .file 0 0o644 content)

/-- The files once it is unpacked beside the link. -/
def divertedEnd (content : Bytes) : FileSystem :=
  ⟨[(["e"], .directory 0o755), (["e", "d"], .directory 0o755), divertedNode, divertedArchive content, (["e", "l"], .link "x")], 1, []⟩

section

set_option maxRecDepth 100000

theorem diverted_url : Url.ofRequest "https://h/a.tar" = .ok ⟨"https", [], "h", none, "/a.tar", none, none⟩ ∧
    Url.render ⟨"https", [], "h", none, "/a.tar", none, none⟩ = "https://h/a.tar" := ⟨rfl, rfl⟩

theorem answer_diverted {files : FileSystem} : (diverted content files).server.answer
    (Url.render ⟨"https", [], "h", none, "/a.tar", none, none⟩) = ⟨200, none, [], content, none, none, []⟩ := by
  rw [diverted_url.2]
  rfl

/-- What comes before the transfer, what it does to the files, and what comes after it. -/
theorem diverted_requests (content : Bytes) :
    exec (makeTemporary "/e/l" "runwrap-") (diverted content divertedFiles) =
      (.ok "/e/l/runwrap-XXXXXXXX", diverted content (divertedMade [] 0)) ∧
    exec (makeDirectories (Path.parent "/e/l/runwrap-XXXXXXXX/a.tar") true) (diverted content (divertedMade [] 0)) =
      (.ok (), diverted content (divertedMade [] 0)) ∧
    (divertedMade [] 0).truncate "/e/l/runwrap-XXXXXXXX/a.tar" = .ok (divertedMade [divertedArchive []] 1) ∧
    (divertedMade [divertedArchive []] 1).status "/e/l/runwrap-XXXXXXXX/a.tar" true =
      .ok (["e", "d", "runwrap-XXXXXXXX", "a.tar"], .file 0 0o644 []) ∧
    exec (discard "/e/l/runwrap-XXXXXXXX") (divertedAsked content (divertedEnd content)) =
      (.ok (), divertedAsked content (divertedEnd content)) :=
  ⟨by cbv, by cbv, by cbv, by cbv, by cbv⟩

theorem sendable_diverted : IsSendable "/e/l/runwrap-XXXXXXXX/a.tar" := ⟨_, rfl, by decide⟩

theorem diverted_name : Path.join "/e/l/runwrap-XXXXXXXX" (archiveName "https://h/a.tar") = "/e/l/runwrap-XXXXXXXX/a.tar" := by decide

theorem diverted_download : exec (downloadFile (some ⟨true, .null, "c"⟩) .null "https://h/a.tar" "/e/l/runwrap-XXXXXXXX/a.tar")
      (diverted content (divertedMade [] 0)) = (.ok (), divertedAsked content (divertedMade [divertedArchive content] 1)) := by
  obtain ⟨-, hparent, htruncate, hstatus, -⟩ := diverted_requests content
  have happend : (divertedMade [divertedArchive []] 1).append ["e", "d", "runwrap-XXXXXXXX", "a.tar"] content =
    divertedMade [divertedArchive content] 1 := rfl
  rw [exec_downloadFile_plain (m := diverted content (divertedMade [] 0)) ⟨true, .null, "c"⟩ .null diverted_url.1 rfl
    answer_diverted rfl sendable_diverted hparent htruncate hstatus, happend, diverted_url.2]
  rfl

theorem diverted_extract : exec (extractArchive "/e/l/runwrap-XXXXXXXX/a.tar" "/e" "tar")
      (divertedAsked archiveOfLink (divertedMade [divertedArchive archiveOfLink] 1)) =
    (.ok (), divertedAsked archiveOfLink (divertedEnd archiveOfLink)) := by
  have hmembers := members_archiveOfLink
  generalize archiveOfLink = content at hmembers ⊢
  exact exec_extractArchive_tar hmembers (by cbv) (by cbv) (by cbv) (by cbv)

end

theorem undisturbed_diverted : (diverted content divertedFiles).server.Undisturbed :=
  Server.answer_of_all (P := fun answer => answer.meanwhile = []) (by simp [diverted]) rfl

theorem sound_divertedFiles : divertedFiles.Sound := by
  have hname : ∀ name ∈ [("e" : Text), "d", "l"], IsEntryName name := by
    intro name hname
    simp only [List.mem_cons, List.not_mem_nil, or_false] at hname
    rcases hname with rfl | rfl | rfl <;> exact ⟨⟨by decide, by decide⟩, by decide, by decide, by decide⟩
  refine sound_of_nodes (fun x hx => ?_) (fun x hx name hin => ?_) fun x hx number hn => ?_ <;>
    simp only [divertedFiles, List.mem_cons, List.not_mem_nil, or_false] at hx
  · rcases hx with rfl | rfl | rfl
    · exact isDir_nil
    · exact ⟨0o755, by decide⟩
    · exact ⟨0o755, by decide⟩
  · refine hname name (List.Sublist.subset ?_ hin)
    rcases hx with rfl | rfl | rfl <;> decide
  · rcases hx with rfl | rfl | rfl <;> cases hn

theorem obtains_diverted : Obtains (diverted content divertedFiles) (some ⟨true, .null, "c"⟩) .null "https://h/a.tar" "/t"
    "/e/l/runwrap-XXXXXXXX" ["e", "d", "runwrap-XXXXXXXX"] 0o700 content where
  made := (diverted_requests content).1
  announced := fun h => by cases h
  creatable := by
    obtain ⟨-, -, htruncate, hstatus, -⟩ := diverted_requests content
    rw [diverted_name]
    exact ⟨sendable_diverted, _, _, htruncate, hstatus⟩
  transfers := transfers_plain _ diverted_url.1 rfl answer_diverted
  reported := fun h => by cases h

end Action

end Prebuilt
