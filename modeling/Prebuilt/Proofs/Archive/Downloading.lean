import Prebuilt.Download
import Prebuilt.Proofs.Actions.Temporary
import Prebuilt.Proofs.Actions.Writing
import Prebuilt.Proofs.Archive.Confinement
import Prebuilt.Proofs.Http.Courses
import Prebuilt.Proofs.Text.Digits
/-!
Downloading an archive and unpacking it into a directory that is there. What is unpacked is what a server has delivered, and
nothing is changed but that directory: the one that the archive was kept in is gone.
-/
set_option autoImplicit false

namespace Prebuilt

open FileSystem Action

variable {before m m' m₁ : Machine} {client : Client} {given : Option Client} {timeout : Json} {roots : List Location}
  {base fs : FileSystem} {url target path name next type : Text} {d s t l : Location} {mode : Nat} {content : Bytes}

theorem Reply.read_ok_iff {reply : Reply} {content : Bytes} : reply.read = .ok content ↔
    reply.content = some content ∧ reply.broken = none := by
  rw [Reply.read]
  cases reply.content with
  | none => simp
  | some whole => cases reply.broken <;> simp

/-- What comes to a client from a server: the redirects that it follows end in success, and the content arrives whole. -/
def Server.Transfers (server : Server) (client : Client) (address : Text) (content : Bytes) : Prop :=
  ∃ url reply, Url.ofRequest address = .ok url ∧ server.Ends .get client.followRedirects Client.redirectLimit url reply ∧
    reply.status = 200 ∧ reply.read = .ok content

/-- A client can be sent to the address. -/
def Url.IsWeb (address : Text) : Prop := ∃ url, Url.ofRequest address = .ok url ∧ Client.checkScheme url.scheme = .ok ()

theorem Server.Transfers.isWeb {server : Server} {client : Client} {address : Text} {content : Bytes}
    (h : server.Transfers client address content) : Url.IsWeb address := by
  obtain ⟨url, reply, haddress, hends, -⟩ := h
  refine ⟨url, haddress, ?_⟩
  cases hends with
  | here honward => exact (Server.replyTo_ok (Server.onward_ok honward).1).1
  | onward honward _ => exact (Server.replyTo_ok (Server.onward_ok honward).1).1

namespace Action

/-! ## Files -/

theorem read_of_addresses {number mode : Nat} (haddr : fs.Addresses path l)
    (hg : fs.get? l = some (.file number mode content)) : fs.read path = .ok content := by
  rw [FileSystem.read, haddr.status (.inr (by simp [IsLink, hg])), hg]

/-- What is done with a reply: its content goes to a file. -/
def receive (url target : Text) (reply : Reply) : Action Unit := do
  if reply.status ≠ 200 then throw (.download (.status url reply.status))
  let location ← create target
  match reply.content with
  | none => throw (.transport .badContent)
  | some content =>
    write location content
    refuseBroken reply

theorem fetch_eq (client : Client) (url target : Text) : fetch client url target = client.send .get url >>= receive url target := rfl

/-- Opening the file keeps to the roots, and so does what is written to it. -/
structure Opening (before : Machine) (roots : List Location) (base : FileSystem) (target : Text) : Prop where
  keeps : Keeps (before.Holds (Sealed .none roots base)) (create target)
  beneath : ∀ {m m' : Machine} {location : Location}, before.Holds (Sealed .none roots base) m →
    exec (create target) m = (.ok location, m') → Beneath roots location

theorem opening_of_inward (hbase : Barren roots base) (h : StaysInward .none roots base target) : Opening before roots base target where
  keeps := keeps_create hbase h
  beneath := beneath_of_create hbase h

theorem keeps_receive (hbase : Barren roots base) (h : Opening before roots base target) (url : Text) (reply : Reply) :
    Keeps (before.Holds (Sealed .none roots base)) (receive url target reply) := by
  have hcontent : Keeps (before.Holds (Sealed .none roots base)) (do
      let location ← create target
      match reply.content with
      | none => throw (.transport .badContent)
      | some content =>
        write location content
        refuseBroken reply) := by
    refine Keeps.bind_of h.keeps fun m location m₁ hm hrun hm₁ => ?_
    cases reply.content with
    | none => exact hm₁
    | some content =>
      refine ((keeps_write hbase (h.beneath hm hrun)).bind fun _ => ?_) m₁ hm₁
      rw [refuseBroken]
      cases reply.broken with
      | none => exact keeps_pure _
      | some fault => exact keeps_throw _
  exact Keeps.ite (fun _ => (keeps_throw _).bind fun (_ : Unit) => hcontent) fun _ => hcontent

theorem keeps_fetch (hquiet : before.server.Undisturbed) (hbase : Barren roots base) (h : Opening before roots base target) :
    Keeps (before.Holds (Sealed .none roots base)) (fetch client url target) := by
  have hsend : Keeps (before.Holds (Sealed .none roots base)) (client.send .get url) := by
    intro m hm
    have hworld := (exec_send client (m := m) (by rw [hm.world]; exact hquiet) url).1
    exact hm.trans (hworld.imp fun fs hfs => hfs ▸ hm.files)
  exact hsend.bind fun reply => keeps_receive hbase h url reply

/-- A reply that is received is one of success that came to its end, and all that is new is a file that holds its content. -/
theorem receive_ok {reply : Reply} (hsound : m.files.Sound) (haddr : m.files.Addresses path d)
    (hdir : m.files.IsDir d) (hname : IsComponent name) (hnone : m.files.get? (child d name) = none)
    (h : exec (receive url (Path.join path name) reply) m = (.ok (), m')) :
    ∃ content, (reply.status = 200 ∧ reply.broken = none ∧ reply.content = some content) ∧
      m.files.Addresses (Path.join path name) (child d name) ∧
      m.Holds (m.files.Differs (child d name) (.file m.files.nextNumber fileMode content)) m' := by
  rw [receive] at h
  by_cases hstatus : reply.status = 200
  · simp only [ne_eq, hstatus, not_true_eq_false, if_false] at h
    obtain ⟨location, m₂, hcreate, h⟩ := bind_ok.1 h
    obtain ⟨hsendable, place, hplace⟩ := create_ok hcreate
    have htarget := haddr.join hdir hname hplace
    have hwrite : m.files.IsWritable (child d name) := by
      intro node hg
      rw [hnone] at hg
      cases hg
    have hsole : m.files.Sole (child d name) := by
      intro l' number hn
      simp [FileSystem.number?, hnone] at hn
    obtain ⟨m₂', hcreate', hopen⟩ := exec_create htarget hsendable hwrite hsole
    rw [hcreate] at hcreate'
    cases hcreate'
    cases hcontent : reply.content with
    | none =>
      simp only [hcontent] at h
      cases h
    | some content =>
      simp only [hcontent] at h
      obtain ⟨m₃, hwritten, hputs⟩ := exec_write hopen hsound hwrite hsole child_ne_nil content
      rw [exec_bind_of_ok hwritten, refuseBroken] at h
      cases hbroken : reply.broken with
      | some fault =>
        rw [hbroken] at h
        cases h
      | none =>
        rw [hbroken] at h
        cases h
        have hholds := hputs.holds
        rw [FileSystem.written, hnone] at hholds
        exact ⟨content, ⟨hstatus, rfl, rfl⟩, htarget, hholds⟩
  · simp only [ne_eq, hstatus, not_false_eq_true, if_true] at h
    obtain ⟨_, _, hthrow, -⟩ := bind_ok.1 h
    cases hthrow

/-- All that is new is a file that holds what the server has delivered, all of it. -/
structure Fetched (m : Machine) (client : Client) (url path : Text) (l : Location) (content : Bytes) (m' : Machine) : Prop where
  delivers : m.server.Delivers url content
  transfers : m.server.Transfers client url content
  addresses : m.files.Addresses path l
  none : m.files.get? l = none
  holds : m.Holds (m.files.Differs l (.file m.files.nextNumber fileMode content)) m'

theorem fetch_ok (hquiet : m.server.Undisturbed) (hsound : m.files.Sound) (haddr : m.files.Addresses path d)
    (hdir : m.files.IsDir d) (hname : IsComponent name) (hnone : m.files.get? (child d name) = none)
    (h : exec (fetch client url (Path.join path name)) m = (.ok (), m')) :
    ∃ content, Fetched m client url (Path.join path name) (child d name) content m' := by
  obtain ⟨hworld, hsent⟩ := exec_send client hquiet url
  rw [fetch_eq] at h
  obtain ⟨reply, m₁, hsend, h⟩ := bind_ok.1 h
  rw [hsend] at hworld hsent
  obtain ⟨address, answer, haddress, hleads, hrefused, hreply⟩ := hsent reply rfl
  have hfiles : m₁.files = m.files := hworld.files
  obtain ⟨content, ⟨hstatus, hbroken, hcontent⟩, htarget, hholds⟩ := receive_ok (hfiles ▸ hsound) (hfiles ▸ haddr) (hfiles ▸ hdir)
    hname (hfiles ▸ hnone) h
  rw [hfiles] at htarget hholds
  have hends : m.server.Ends .get client.followRedirects Client.redirectLimit address reply := by
    rw [client.exec_send_of_ok hquiet .get haddress] at hsend
    exact Server.course_ok_iff.1 (congrArg Prod.fst hsend)
  refine ⟨content, ⟨address, answer, haddress, hleads, ?_⟩, ⟨address, reply, haddress, hends, hstatus, ?_⟩, htarget, hnone,
    Machine.Holds.trans hworld hholds⟩
  · subst hreply
    exact ⟨hstatus, hrefused, hbroken, hcontent⟩
  · exact Reply.read_ok_iff.2 ⟨hcontent, hbroken⟩

/-- The client that a download goes through: the given one, or one that follows redirects. -/
def clientFor (given : Option Client) (timeout : Json) : Client := given.getD ⟨true, timeout, Client.agentName⟩

theorem exec_clientOr (given : Option Client) (timeout : Json) (m : Machine) :
    ∃ m', exec (clientOr given timeout) m = (.ok (clientFor given timeout), m') ∧ Quiet m m' := by
  cases given with
  | some client => exact ⟨m, rfl, quiet_refl m⟩
  | none => exact ⟨_, rfl, (quiet_refl m).setJournal⟩

theorem quiet_clientOr (given : Option Client) (timeout : Json) (m : Machine) : Quiet m (exec (clientOr given timeout) m).2 := by
  cases given with
  | some client => exact quiet_refl m
  | none => exact ((keeps_record _).bind fun _ => keeps_pure _) m (quiet_refl m)

/-- The parent of a path in a directory is the directory. -/
theorem parent_join_of_addresses (haddr : m.files.Addresses path d) (hname : IsComponent name) :
    Path.parent (Path.join path name) = path :=
  Path.parent_join hname.noSlash (.inr haddr.endsInSlash)

/-- There is nothing to make above a name in a directory that is there. -/
theorem quiet_makeDirectories_parent (hsound : m.files.Sound) (haddr : m.files.Addresses path d) (hdir : m.files.IsDir d)
    (hname : IsComponent name) : Quiet m (exec (makeDirectories (Path.parent (Path.join path name)) true) m).2 := by
  obtain ⟨mode, hm⟩ := hdir
  have hstatus : m.files.status path true = .ok (d, .directory mode) := by
    rw [haddr.status (.inr (by simp [IsLink, hm])), hm]
  obtain ⟨n, -, hstart, hreach⟩ := status_directory hstatus
  rw [parent_join_of_addresses haddr hname]
  refine keeps_makeDirectories_there hsound.rooted (fun front l k hfront hl => ?_) true m (quiet_refl m)
  exact (hreach.isDir_of_front hsound.rooted (start_ok hstart).2 hfront hl).get?_ne_none

theorem keeps_downloadFile (hquiet : before.server.Undisturbed) (hbase : Barren roots base)
    (hparent : StaysFounded .none roots base (Path.parent target)) (h : Opening before roots base target) :
    Keeps (before.Holds (Sealed .none roots base)) (downloadFile given timeout url target) := by
  unfold downloadFile
  refine (keeps_makeDirectories hparent true).bind fun _ => (keeps_log _ _ _).bind fun _ => Keeps.bind ?_ fun client => ?_
  · intro m hm
    exact hm.trans ((quiet_clientOr given timeout m).imp fun fs hfs => hfs ▸ hm.files)
  · refine (keeps_fetch hquiet hbase h).catching fun e action he => ?_
    cases e with
    | transport fault =>
      cases he
      exact keeps_throw _
    | _ => cases he

/-- What the message about a download says. -/
def downloadMessage (url target : Text) : Text := Text.join ["Downloading file from ", url, " to ", target]

/-- A download that goes well is announced, and then the content is fetched. -/
theorem downloadFile_fetches (hmade : Quiet m (exec (makeDirectories (Path.parent target) true) m).2)
    (h : exec (downloadFile given timeout url target) m = (.ok (), m')) : IsLoggable m.threshold (downloadMessage url target) ∧
      ∃ m₁, Quiet m m₁ ∧ exec (fetch (clientFor given timeout) url target) m₁ = (.ok (), m') := by
  obtain ⟨_, m₁, hmake, h⟩ := bind_ok.1 h
  obtain ⟨_, m₂, hlog, h⟩ := bind_ok.1 h
  obtain ⟨client, m₃, hclient, h⟩ := bind_ok.1 h
  rw [hmake] at hmade
  have hlogged := quiet_log Log.info downloading (downloadMessage url target) m₁
  rw [downloadMessage, hlog] at hlogged
  obtain ⟨m₃', hclient', hopened⟩ := exec_clientOr given timeout m₂
  rw [hclient] at hclient'
  cases hclient'
  refine ⟨?_, m₃, (hmade.trans hlogged).trans hopened, ?_⟩
  · rw [← hmade.same (·.threshold) fun _ _ _ => rfl]
    exact log_ok.1 ⟨m₂, hlog⟩
  · rw [exec_catching] at h
    split at h
    · rename_i hrun
      rw [hrun, h]
    · rename_i e _ hrun
      cases e <;> cases h

theorem downloadFile_ok (hquiet : m.server.Undisturbed) (hsound : m.files.Sound) (haddr : m.files.Addresses path d)
    (hdir : m.files.IsDir d) (hname : IsComponent name) (hnone : m.files.get? (child d name) = none)
    (h : exec (downloadFile given timeout url (Path.join path name)) m = (.ok (), m')) :
    ∃ content, Fetched m (clientFor given timeout) url (Path.join path name) (child d name) content m' := by
  obtain ⟨-, m₁, hworld, hfetch⟩ := downloadFile_fetches (quiet_makeDirectories_parent hsound haddr hdir hname) h
  have hfiles : m₁.files = m.files := hworld.files
  obtain ⟨content, hdelivers, htransfers, htarget, -, hholds⟩ := fetch_ok (hworld.server ▸ hquiet) (hfiles ▸ hsound)
    (hfiles ▸ haddr) (hfiles ▸ hdir) hname (hfiles ▸ hnone) hfetch
  rw [hfiles] at hholds
  exact ⟨content, hworld.server ▸ hdelivers, hworld.server ▸ htransfers, hfiles ▸ htarget, hnone,
    Machine.Holds.trans hworld hholds⟩

theorem Fetched.read (h : Fetched m client url path l content m') : m'.files.read path = .ok content := by
  have hwrite : m.files.IsWritable l := by
    intro node hg
    rw [h.none] at hg
    cases hg
  exact read_of_addresses (h.holds.files.addresses hwrite h.addresses) h.holds.files.self

/-! ## Plain answers -/

theorem exec_log_disabled {level : Log.Level} (h : Log.isEnabled m.threshold level = false) (origin : Log.Origin) (message : Text) :
    exec (log level origin message) m = (.ok (), m) := by
  have hline : Log.line? m.threshold level origin message = .ok none := if_pos (by rw [h]; rfl)
  rw [log, exec_bind_of_ok exec_get, hline, exec_bind_of_ok (exec_ofExcept _)]
  rfl

variable {address archive : Text} {requested : Url} {opened : FileSystem} {node : Node}

/-- Plain content goes to the file at the path. -/
theorem exec_fetch_plain (client : Client) (hurl : Url.ofRequest address = .ok requested) (hscheme : requested.scheme = "https")
    (hanswer : m.server.answer requested.render = ⟨200, none, [], content, none, none, []⟩) (hsend : IsSendable archive)
    (htruncate : m.files.truncate archive = .ok opened) (hstatus : opened.status archive true = .ok (l, node)) :
    exec (fetch client address archive) m =
      (.ok (), { m.asked ⟨"GET", requested.render, client.agent⟩ with files := opened.append l content }) := by
  have hcreate : exec (create archive) (m.asked ⟨"GET", requested.render, client.agent⟩) =
      (.ok l, { m.asked ⟨"GET", requested.render, client.agent⟩ with files := opened }) := by
    have hrequest : exec (request archive (·.truncate archive)) (m.asked ⟨"GET", requested.render, client.agent⟩) =
        (.ok (), { m.asked ⟨"GET", requested.render, client.agent⟩ with files := opened }) := by
      rw [exec_request hsend]
      simp only [Machine.asked, htruncate]
    rw [create, exec_bind_of_ok hrequest]
    exact (exec_bind_of_ok (exec_ask_of_ok hsend hstatus)).trans rfl
  rw [fetch, exec_bind_of_ok (exec_send_plain client hurl hscheme hanswer)]
  exact (exec_bind_of_ok hcreate).trans rfl

theorem transfers_plain {server : Server} (client : Client) (hurl : Url.ofRequest address = .ok requested)
    (hscheme : requested.scheme = "https") (hanswer : server.answer requested.render = ⟨200, none, [], content, none, none, []⟩) :
    server.Transfers client address content := by
  have hreply : server.replyTo .get requested = .ok ⟨200, none, some content, none⟩ := by
    rw [Server.replyTo, hscheme, hanswer]
    rfl
  have honward : server.onward .get client.followRedirects requested = .ok (⟨200, none, some content, none⟩, none) := by
    rw [Server.onward, hreply]
  exact ⟨requested, _, hurl, .here honward, rfl, rfl⟩

theorem exec_downloadFile_plain (client : Client) (timeout : Json) (hurl : Url.ofRequest address = .ok requested)
    (hscheme : requested.scheme = "https") (hanswer : m.server.answer requested.render = ⟨200, none, [], content, none, none, []⟩)
    (hthreshold : Log.isEnabled m.threshold Log.info = false) (hsend : IsSendable archive)
    (hparent : exec (makeDirectories (Path.parent archive) true) m = (.ok (), m))
    (htruncate : m.files.truncate archive = .ok opened) (hstatus : opened.status archive true = .ok (l, node)) :
    exec (downloadFile (some client) timeout address archive) m =
      (.ok (), { m.asked ⟨"GET", requested.render, client.agent⟩ with files := opened.append l content }) := by
  have hclient : exec (clientOr (some client) timeout) m = (.ok client, m) := rfl
  rw [downloadFile, exec_bind_of_ok hparent, exec_bind_of_ok (exec_log_disabled hthreshold ..), exec_bind_of_ok hclient, exec_catching,
    exec_fetch_plain client hurl hscheme hanswer hsend htruncate hstatus]

/-- A tar archive is unpacked into a directory that is there. -/
theorem exec_extractArchive_tar {members : List Tar.Member} {source source' : Source}
    (hmembers : Tar.members false content = .ok (members, source))
    (htarget : exec (makeDirectories target true) m = (.ok (), m)) (hread : exec (readFile archive) m = (.ok content, m))
    (hcheck : exec (checkMembers target (members.map (·.name))) m = (.ok (), m))
    (hunpack : exec ((Tar.unpackAll members target).run source) m = (.ok ((), source'), m')) :
    exec (extractArchive archive target "tar") m = (.ok (), m') := by
  have hextract : exec (Tar.extract false archive target) m = (.ok (), m') := by
    rw [Tar.extract, exec_bind_of_ok hread, exec_bind_of_ok (by rw [exec_ofExcept, hmembers])]
    exact (exec_bind_of_ok hcheck).trans (exec_bind_of_ok hunpack)
  rw [extractArchive, exec_bind_of_ok htarget, exec_catching, unpackArchive, if_neg (by decide), if_pos rfl, hextract]

/-! ## Archives -/

theorem isComponent_temporaryName (attempt : Nat) : IsComponent (("runwrap-" : Text) ++ temporaryEnding attempt) where
  isName := by
    refine ⟨FilePath.isPart_iff.2 ⟨?_, ?_⟩, ?_⟩ <;> intro h <;> simp at h
  noSlash := by simp [Text.slash_not_mem_temporaryEnding]

end Action

/-- What stands at each place of a directory, seen from there. -/
abbrev Tree := Location → Option Node

def FileSystem.tree (fs : FileSystem) (s : Location) : Tree := fun l => fs.get? (s ++ l)

/-- The archive leaves this tree in a directory that was empty but for the archive's own, which does not count. -/
inductive Unpacked (type : Text) (content : Bytes) (tree : Tree) : Prop
  | intro {m m' : Machine} {archive target : Text} {s t : Location} :
      m.files.Sound → m.files.Addresses target s → m.files.IsDir s → ¬ t <+: s →
        (∀ l, s <+: l → l ≠ s → m.files.get? l ≠ none → t <+: l) → m.files.read archive = .ok content →
          exec (extractArchive archive target type) m = (.ok (), m') → tree = (m'.files.without t).tree s →
            Unpacked type content tree

/-- However it is read, the content has members that lead down from the target, and no links or special files. -/
def IsPlain (fs : FileSystem) (target type : Text) (content : Bytes) : Prop :=
  ∀ compressed members source, (type, compressed) ∈ tarTypes → Tar.members compressed content = .ok (members, source) →
    Tar.LeadDown members fs target ∧ (Tar.linksOf members).Within .none

theorem IsPlain.of_sameLinks (hlinks : base.SameLinks fs) (hcwd : fs.workingDirectory = base.workingDirectory)
    (h : IsPlain base target type content) : IsPlain fs target type content := fun compressed members source htype hmembers =>
  (h compressed members source htype hmembers).imp_left fun hdown => hdown.of_sameLinks hlinks hcwd

/-- An empty directory to unpack into. -/
structure Ready (fs : FileSystem) (target : Text) (s : Location) : Prop where
  sound : fs.Sound
  addresses : fs.Addresses target s
  isDir : fs.IsDir s
  empty : ∀ l, s <+: l → l ≠ s → fs.get? l = none
  downward : Path.Downward target

theorem Ready.barren (h : Ready fs target s) : Barren [s] fs := by
  refine ⟨fun l hl hg => ?_, h.sound⟩
  obtain ⟨r, hr, hp⟩ := hl
  cases List.mem_singleton.1 hr
  by_cases hne : l = s
  · exact hne ▸ h.isDir
  · exact absurd (h.empty l hp hne) hg

namespace Action

/-- A temporary directory for the archive, made while the target was ready. -/
structure Stored (m : Machine) (target path : Text) (s t : Location) (mode : Nat) (m₁ : Machine) : Prop
    extends Lodged m path t mode m₁ where
  ready : Ready m.files target s

variable {m₂ : Machine}

theorem Stored.barren (h : Stored m target path s t mode m₁) : Barren [t, s] m₁.files := by
  rw [h.machine]
  exact h.fresh.barren h.ready.barren

theorem Stored.isDir (h : Stored m target path s t mode m₁) : ∀ r ∈ [t, s], m₁.files.IsDir r := by
  have ht : m₁.files.IsDir t := ⟨mode, h.get?⟩
  simpa [ht] using h.extends.dir s h.ready.isDir

theorem Stored.status_target (h : Stored m target path s t mode m₁) :
    ∃ mode', m₁.files.status target true = .ok (s, .directory mode') := by
  obtain ⟨mode', hg⟩ := h.isDir s (by simp)
  exact ⟨mode', by rw [(h.ready.addresses.of_extends h.extends).status (.inr (by simp [IsLink, hg])), hg]⟩

theorem Stored.staysInward (h : Stored m target path s t mode m₁) (hname : IsComponent name) :
    StaysInward .none [t, s] m₁.files (Path.join path name) := h.toLodged.staysInward h.barren (by simp) hname

/-- What is downloaded to the directory is what the server has delivered, and no other directory is worked in. -/
theorem Stored.download (h : Stored m target path s t mode m₁) (given : Option Client) (timeout : Json) (url : Text) (hquiet : m.server.Undisturbed) (hname : IsComponent name) :
    m₁.Holds (Sealed .none [t, s] m₁.files) (exec (downloadFile given timeout url (Path.join path name)) m₁).2 ∧
      ∀ m₂, exec (downloadFile given timeout url (Path.join path name)) m₁ = (.ok (), m₂) →
        ∃ content, Fetched m₁ (clientFor given timeout) url (Path.join path name) (child t name) content m₂ := by
  have hquiet' : m₁.server.Undisturbed := h.server ▸ hquiet
  have hin := h.staysInward hname
  refine ⟨?_, fun m₂ hrun => ?_⟩
  · refine keeps_downloadFile hquiet' h.barren (hin.founded.parent ?_) (opening_of_inward h.barren hin) m₁
      (Machine.holds_self h.barren.sealed)
    rw [parent_join_of_addresses h.addresses hname]
    exact addresses_ne_nil h.addresses
  · exact downloadFile_ok hquiet' h.barren.sound h.addresses ⟨mode, h.get?⟩ hname h.empty hrun

/-- Unpacking what was downloaded keeps to the two directories. -/
theorem Stored.extract (h : Stored m target path s t mode m₁) (hplain : IsPlain m.files target type content)
    (hm : m₁.Holds (Sealed .none [t, s] m₁.files) m₂) (hread : m₂.files.read name = .ok content) :
    m₁.Holds (Sealed .none [t, s] m₁.files) (exec (extractArchive name target type) m₂).2 := by
  obtain ⟨mode', hstatus⟩ := h.status_target
  have hplain : IsPlain m₁.files target type content := hplain.of_sameLinks h.sameLinks (by rw [h.machine]; rfl)
  refine extractArchive_sealed nofun h.barren h.isDir hm (by simp) (addresses_ne_nil h.ready.addresses) hstatus
    (fun _ => h.ready.downward) (fun content' hcontent => ?_) fun content' compressed members source hcontent htype hmembers => ?_
  all_goals
    rw [hread] at hcontent
    cases hcontent
  · exact fun compressed members source htype hmembers => (hplain compressed members source htype hmembers).1
  · exact (hplain compressed members source htype hmembers).2

theorem Stored.unpacked {m₃ : Machine} {node : Node} (h : Stored m target path s t mode m₁)
    (hm : m₁.Holds (Sealed .none [t, s] m₁.files) m₂) (hdiffers : m₁.files.Differs (child t next) node m₂.files)
    (hread : m₂.files.read name = .ok content) (hextract : exec (extractArchive name target type) m₂ = (.ok (), m₃)) :
    Unpacked type content ((m₃.files.without t).tree s) := by
  have hout : ¬ t <+: s := fun hp =>
    h.ready.isDir.get?_ne_none (vacant_of_none h.ready.sound.rooted h.fresh.none s hp)
  have hext := h.extends.trans (hm.files.extends h.barren)
  refine .intro hm.files.sound (h.ready.addresses.of_extends hext) (hext.dir s h.ready.isDir) hout (fun l hl hne hg => ?_)
    hread hextract rfl
  by_contra hbelow
  have hne' : l ≠ child t next := fun he => hbelow (he ▸ List.prefix_append ..)
  have hne'' : l ≠ t := fun he => hbelow (he ▸ List.prefix_rfl)
  rw [hdiffers.get?, if_neg hne', h.machine, get?_put h.fresh.nameable.ne_nil, if_neg hne''] at hg
  exact hg (h.ready.empty l hl hne)

/-- What is done while the temporary directory is there. -/
theorem Stored.work (h : Stored m target path s t mode m₁) (hquiet : m.server.Undisturbed)
    (hname : IsComponent (archiveName url))
    (hplain : ∀ content, m.server.Delivers url content → IsPlain m.files target type content)
    {result : Except Error Unit × Machine} (hresult : result = exec (do
      downloadFile given timeout url (Path.join path (archiveName url))
      log Log.info extracting (Text.join ["Extracting ", Path.join path (archiveName url), " to ", target])
      extractArchive (Path.join path (archiveName url)) target type) m₁) :
    m₁.Holds (Sealed .none [t, s] m₁.files) result.2 ∧ (result.1 = .ok () → IsLoggable m.threshold target ∧ Url.IsWeb url ∧
      ∃ content, m.server.Delivers url content ∧ Unpacked type content ((result.2.files.without t).tree s)) := by
  obtain ⟨hdownload, hfetched⟩ := h.download given timeout url hquiet hname
  rcases hrun : exec (downloadFile given timeout url (Path.join path (archiveName url))) m₁ with ⟨r, m₂⟩
  rw [hrun] at hdownload
  cases r with
  | error e =>
    rw [exec_bind_of_error hrun] at hresult
    exact hresult ▸ ⟨hdownload, nofun⟩
  | ok _ =>
    rw [exec_bind_of_ok hrun] at hresult
    obtain ⟨content, hfetch⟩ := hfetched m₂ hrun
    have hlogged := quiet_log Log.info extracting
      (Text.join ["Extracting ", Path.join path (archiveName url), " to ", target]) m₂
    rcases hlog : exec (log Log.info extracting
      (Text.join ["Extracting ", Path.join path (archiveName url), " to ", target])) m₂ with ⟨r, m₂'⟩
    rw [hlog] at hlogged
    have hm₂ : m₁.Holds (Sealed .none [t, s] m₁.files) m₂' :=
      hdownload.trans (hlogged.imp fun fs hfs => hfs ▸ hdownload.files)
    cases r with
    | error e =>
      rw [exec_bind_of_error hlog] at hresult
      exact hresult ▸ ⟨hm₂, nofun⟩
    | ok _ =>
      rw [exec_bind_of_ok hlog] at hresult
      have hdelivers : m.server.Delivers url content := h.server ▸ hfetch.delivers
      have hread : m₂'.files.read (Path.join path (archiveName url)) = .ok content := by
        rw [hlogged.files]
        exact hfetch.read
      refine ⟨hresult ▸ h.extract (hplain content hdelivers) hm₂ hread, fun hok => ?_⟩
      obtain ⟨_, m₃⟩ := result
      cases hok
      have hdiffers := hfetch.holds.files
      rw [← hlogged.files] at hdiffers
      refine ⟨?_, hfetch.transfers.isWeb, content, hdelivers, h.unpacked hm₂ hdiffers hread hresult.symm⟩
      have hmessage := log_ok.1 ⟨m₂', hlog⟩
      have hthreshold : m₂.threshold = m₁.threshold := hdownload.same (·.threshold) fun _ _ _ => rfl
      rw [hthreshold, h.machine] at hmessage
      simp only [Text.join, List.flatten_cons, isLoggable_append] at hmessage
      exact hmessage.2.2.2.1

/-- Nothing is left of a download but what was unpacked, and that is what the server has delivered. The target is named in the
log. -/
theorem exec_downloadArchive (given : Option Client) (timeout : Json) (hquiet : m.server.Undisturbed) (hready : Ready m.files target s)
    (hname : IsComponent (archiveName url))
    (hplain : ∀ content, m.server.Delivers url content → IsPlain m.files target type content) :
    m.Holds (Sealed .none [s] m.files) (exec (downloadArchive given timeout url target type) m).2 ∧
      ∀ m', exec (downloadArchive given timeout url target type) m = (.ok (), m') → IsLoggable m.threshold target ∧
        Url.IsWeb url ∧ ∃ content, m.server.Delivers url content ∧ Unpacked type content (m'.files.tree s) := by
  rw [downloadArchive, exec_bind_of_ok exec_get]
  rcases exec_makeTemporary m.temporary hready.sound.rooted isComponent_temporaryName with
    ⟨e, he⟩ | ⟨attempt, t, mode, he, hfresh⟩
  · rw [exec_bind_of_error he]
    exact ⟨Machine.holds_self hready.barren.sealed, nofun⟩
  rw [exec_bind_of_ok he]
  generalize temporaryPath m.temporary "runwrap-" attempt = path at hfresh
  have hstored : Stored m target path s t mode { m with files := m.files.put t (.directory mode) } := ⟨⟨hready.sound, hfresh, rfl⟩, hready⟩
  simp only [exec_ensure]
  generalize hresult : exec _ { m with files := m.files.put t (.directory mode) } = result
  obtain ⟨hsealed, hunpacked⟩ := hstored.work hquiet hname hplain hresult.symm
  obtain ⟨hremove, hleft⟩ := hfresh.discard hready.barren hsealed.files
  rw [hremove]
  refine ⟨⟨?_, hleft⟩, fun m' hrun => ?_⟩
  · show { result.2 with files := result.2.files.without t } = _
    rw [hsealed.world]
  · obtain ⟨r, m₃⟩ := result
    cases hrun
    exact hunpacked rfl

end Action

end Prebuilt
