import Prebuilt.Files.Aside
import Prebuilt.Proofs.Actions.Confined
/-!
Writing to a file that has one name. Nothing changes but the node at its location, so what a file holds afterwards, and
with which permissions, can be said of the location alone.
-/
set_option autoImplicit false

namespace Prebuilt

namespace FileSystem

variable {fs fs' : FileSystem} {l l' : Location} {path : Text} {node : Node} {data more : Bytes}

/-- What stands at the location has no other name. -/
def Sole (fs : FileSystem) (l : Location) : Prop :=
  ∀ l' number, fs.number? l = some number → fs.number? l' = some number → l' = l

theorem Sealed.sole {links : Links} {roots : List Location} {base : FileSystem} (hbase : Barren roots base)
    (h : Sealed links roots base fs) (hhard : ¬ links.hard) (hl : Beneath roots l) : fs.Sole l := fun _ _ =>
  h.single_name hbase hhard hl

theorem get?_update_sole (hsole : fs.Sole l) (hg : fs.get? l = some node) (hne : l ≠ []) (change : Node → Node) :
    (fs.update l change).get? l' = if l' = l then some (change node) else fs.get? l' := by
  by_cases hnil : l' = []
  · rw [hnil, get?_nil, get?_nil, if_neg hne.symm]
  · rw [get?_update change hnil, hg, Option.elim_some]
    by_cases hl : l' = l
    · rw [if_pos hl, hl, hg]
      simp [isSame]
    · rw [if_neg hl]
      cases hother : fs.get? l' with
      | none => rfl
      | some other =>
        have hdiff : isSame (l, node) (l', other) = false := by
          rw [isSame, Bool.or_eq_false_iff, beq_eq_false_iff_ne, Bool.and_eq_false_imp]
          refine ⟨Ne.symm hl, fun hsome => ?_⟩
          obtain ⟨number, hn⟩ := Option.isSome_iff_exists.1 hsome
          rw [beq_eq_false_iff_ne]
          intro he
          exact hl (hsole l' number (number?_eq_some_iff.2 ⟨node, hg, hn⟩) (number?_eq_some_iff.2 ⟨other, hother, he ▸ hn⟩))
        simp [hdiff]

/-- The file that stands at the location once it was made or emptied, and filled. -/
def written (fs : FileSystem) (l : Location) (data : Bytes) : Node :=
  match fs.get? l with
  | some (.file number mode _) => .file number mode data
  | _ => .file fs.nextNumber fileMode data

theorem written_file (fs : FileSystem) (l : Location) (data : Bytes) : ∃ number mode, fs.written l data = .file number mode data := by
  unfold written
  split
  · exact ⟨_, _, rfl⟩
  · exact ⟨_, _, rfl⟩

/-- There is nothing at the location, or a file. -/
def IsWritable (fs : FileSystem) (l : Location) : Prop := ∀ node, fs.get? l = some node → node.isFile

theorem IsWritable.not_isLink (h : fs.IsWritable l) : ¬ fs.IsLink l := by
  rintro ⟨target, ht⟩
  cases h _ ht

theorem IsWritable.cases (h : fs.IsWritable l) :
    fs.get? l = none ∨ ∃ number mode content, fs.get? l = some (.file number mode content) := by
  cases hg : fs.get? l with
  | none => exact .inl rfl
  | some node =>
    cases node with
    | file number mode content => exact .inr ⟨number, mode, content, rfl⟩
    | _ => cases h _ hg

/-- All that is different is what stands at the location. -/
structure Differs (fs : FileSystem) (l : Location) (node : Node) (fs' : FileSystem) : Prop where
  get? : ∀ l', fs'.get? l' = if l' = l then some node else fs.get? l'
  cwd : fs'.workingDirectory = fs.workingDirectory

theorem Differs.self (h : fs.Differs l node fs') : fs'.get? l = some node := by rw [h.get?, if_pos rfl]

theorem Differs.trans {fs'' : FileSystem} {node' : Node} (h : fs.Differs l node fs') (h' : fs'.Differs l node' fs'') :
    fs.Differs l node' fs'' := by
  refine ⟨fun l' => ?_, h'.cwd.trans h.cwd⟩
  rw [h'.get?, h.get?]
  split <;> rfl

theorem differs_update (hsole : fs.Sole l) (hg : fs.get? l = some node) (hne : l ≠ []) (change : Node → Node) :
    fs.Differs l (change node) (fs.update l change) :=
  ⟨fun _ => get?_update_sole hsole hg hne change, workingDirectory_update ..⟩

theorem Addresses.truncate (h : fs.Addresses path l) (hwrite : fs.IsWritable l) (hsole : fs.Sole l) :
    ∃ fs', fs.truncate path = .ok fs' ∧ fs.Differs l (fs.written l []) fs' := by
  have hplace := h.place .creation (.inr hwrite.not_isLink)
  have hne := h.ne_nil
  rcases hwrite.cases with hnone | ⟨number, mode, content, hg⟩
  · have hl : l.dropLast ++ [l.getLast?.getD []] = l := by
      rw [List.getLast?_eq_some_getLast hne, Option.getD_some, List.dropLast_append_getLast]
    rw [hnone] at hplace
    refine ⟨fs.addFile l fileMode [], by simp [FileSystem.truncate, hplace, bind, Except.bind, hl, pure, Except.pure], ?_⟩
    exact ⟨fun l' => by rw [get?_addFile _ _ hne, written, hnone], rfl⟩
  · rw [hg] at hplace
    refine ⟨fs.update l (Node.withContent []), by simp [FileSystem.truncate, hplace, bind, Except.bind, pure, Except.pure], ?_⟩
    have hwritten : fs.written l [] = Node.withContent [] (.file number mode content) := by simp [written, hg, Node.withContent]
    rw [hwritten]
    exact differs_update hsole hg hne _

/-- What keeps the way to a location keeps the location addressed. -/
theorem Differs.addresses {l' : Location} (h : fs.Differs l node fs') (hl : fs.IsWritable l) (haddr : fs.Addresses path l') :
    fs'.Addresses path l' := by
  have hkeep {l' : Location} {other : Node} (hother : other.isFile = false) (hg : fs.get? l' = some other) :
      fs'.get? l' = some other := by
    rw [h.get?, if_neg, hg]
    rintro rfl
    rw [hl _ hg] at hother
    cases hother
  exact haddr.of_extends ⟨fun l' ⟨mode, hm⟩ => ⟨mode, hkeep rfl hm⟩, fun l' target ht => hkeep rfl ht, fun _ => h.cwd⟩

theorem Differs.sole (h : fs.Differs l (fs.written l data) fs') (hsound : fs.Sound) (hwrite : fs.IsWritable l)
    (hsole : fs.Sole l) : fs'.Sole l := by
  intro l' number hn hn'
  by_contra hdiff
  have hother : fs.number? l' = some number := by
    rwa [FileSystem.number?, h.get?, if_neg hdiff, ← FileSystem.number?] at hn'
  rw [FileSystem.number?, h.self] at hn
  rcases hwrite.cases with hnone | ⟨number', mode, content, hg⟩
  · have hlt := hsound.number?_lt hother
    simp [written, hnone, Node.number?] at hn
    omega
  · have hsame : number' = number := by simpa [written, hg, Node.number?] using hn
    exact hdiff (hsole l' number (by simp [FileSystem.number?, hg, Node.number?, hsame]) hother)

end FileSystem

namespace Action

open FileSystem

variable {m m' m₁ : Machine} {path : Text} {l : Location} {node : Node} {data : Bytes}

/-- Files and nothing else have changed, and of the files what stands at the location. -/
structure Puts (m : Machine) (l : Location) (node : Node) (m' : Machine) : Prop where
  world : m' = { m with files := m'.files }
  differs : m.files.Differs l node m'.files

theorem Puts.trans {m'' : Machine} {node' : Node} (h : Puts m l node m') (h' : Puts m' l node' m'') : Puts m l node' m'' :=
  ⟨by rw [h'.world, h.world], h.differs.trans h'.differs⟩

theorem Puts.holds (h : Puts m l node m') : m.Holds (m.files.Differs l node) m' := by
  refine ⟨?_, h.differs⟩
  rw [h.world]

/-- A file that can be opened for writing is empty then. -/
theorem exec_create (haddr : m.files.Addresses path l) (hsend : IsSendable path) (hwrite : m.files.IsWritable l)
    (hsole : m.files.Sole l) : ∃ m', exec (create path) m = (.ok l, m') ∧ Puts m l (m.files.written l []) m' := by
  obtain ⟨fs, hfs, hdiffers⟩ := haddr.truncate hwrite hsole
  obtain ⟨number, mode, hnode⟩ := written_file m.files l []
  have hget : fs.get? l = some (.file number mode []) := by rw [hdiffers.self, hnode]
  have hstatus : fs.status path true = .ok (l, .file number mode []) := by
    rw [(hdiffers.addresses hwrite haddr).status (.inr (by simp [IsLink, hget])), hget]
  refine ⟨{ m with files := fs }, ?_, rfl, hdiffers⟩
  rw [create, exec_bind_of_ok (by rw [exec_request hsend, hfs]), status,
    exec_bind_of_ok (exec_ask_of_ok (m := { m with files := fs }) hsend hstatus)]
  rfl

theorem create_ok {location : Location} (h : exec (create path) m = (.ok location, m')) :
    IsSendable path ∧ ∃ place, m.files.place .creation path = .ok place := by
  obtain ⟨_, m₁, hrequest, -⟩ := bind_ok.1 h
  refine ⟨isSendable_of_request hrequest, ?_⟩
  rcases request_cases path (·.truncate path) m with ⟨e, he⟩ | ⟨fs, hfs, -⟩
  · rw [he] at hrequest
    cases hrequest
  · cases hplace : m.files.place .creation path with
    | ok place => exact ⟨place, rfl⟩
    | error e => simp [FileSystem.truncate, hplace, bind, Except.bind] at hfs

/-- A file can be opened for writing at the path. -/
def IsCreatable (fs : FileSystem) (path : Text) : Prop :=
  IsSendable path ∧ ∃ opened found, fs.truncate path = .ok opened ∧ opened.status path true = .ok found

/-- Whether a file can be opened depends on nothing but the files. -/
theorem create_ok_iff : (∃ location m', exec (create path) m = (.ok location, m')) ↔ IsCreatable m.files path := by
  constructor
  · rintro ⟨location, m', h⟩
    obtain ⟨_, m₁, hrequest, h⟩ := bind_ok.1 h
    obtain ⟨found, m₂, hstatus, -⟩ := bind_ok.1 h
    have hsend := isSendable_of_request hrequest
    rcases request_cases path (·.truncate path) m with ⟨e, he⟩ | ⟨opened, hopened, he⟩
    · rw [he] at hrequest
      cases hrequest
    · rw [he] at hrequest
      cases hrequest
      exact ⟨hsend, opened, found, hopened, (ask_ok hstatus).2⟩
  · rintro ⟨hsend, opened, found, hopened, hstatus⟩
    have hrequest : exec (request path (·.truncate path)) m = (.ok (), { m with files := opened }) := by
      rw [exec_request hsend, hopened]
    exact ⟨found.1, { m with files := opened }, by
      rw [create, exec_bind_of_ok hrequest, status, exec_bind_of_ok (exec_ask_of_ok hsend hstatus), exec_pure]⟩

/-- A directory cannot be opened for writing. -/
theorem isWritable_of_create {location : Location} (haddr : m.files.Addresses path l)
    (hplain : ∀ node, m.files.get? l = some node → Links.none.Allows node) (h : exec (create path) m = (.ok location, m')) :
    m.files.IsWritable l := by
  intro node hg
  have hallowed := hplain node hg
  obtain ⟨_, m₁, hrequest, -⟩ := bind_ok.1 h
  rcases request_cases path (·.truncate path) m with ⟨e, he⟩ | ⟨fs, hfs, -⟩
  · rw [he] at hrequest
    cases hrequest
  · cases node with
    | file number mode content => rfl
    | directory mode =>
      have hplace := haddr.place .creation (.inr (by simp [IsLink, hg]))
      simp [FileSystem.truncate, hplace, hg, bind, Except.bind] at hfs
    | link target => exact hallowed.elim
    | special number mode => exact hallowed.elim

/-- What is written to a file that was just opened is what it holds. -/
theorem exec_write (hopen : Puts m l (m.files.written l []) m₁) (hsound : m.files.Sound) (hwrite : m.files.IsWritable l)
    (hsole : m.files.Sole l) (hne : l ≠ []) (data : Bytes) :
    ∃ m', exec (write l data) m₁ = (.ok (), m') ∧ Puts m l (m.files.written l data) m' := by
  obtain ⟨change, hchange, happend⟩ : ∃ change, (∀ number mode before, change (.file number mode before) =
      .file number mode (before ++ data)) ∧ m₁.files.append l data = m₁.files.update l change := ⟨_, fun _ _ _ => rfl, rfl⟩
  have hdiffers := differs_update (hopen.differs.sole hsound hwrite hsole) hopen.differs.self hne change
  rw [← happend] at hdiffers
  refine ⟨{ m₁ with files := m₁.files.append l data }, rfl, hopen.trans ⟨rfl, ?_⟩⟩
  rcases hwrite.cases with hnone | ⟨number, mode, content, hg⟩
  · simpa [written, hnone, hchange] using hdiffers
  · simpa [written, hg, hchange] using hdiffers

/-- Permission to execute for everybody. -/
def executable (node : Node) : Node := node.withMode ((node.mode ||| 0o111) % 0o10000)

theorem keeps_makeExecutable {before : Machine} {links : Links} {roots : List Location} {base : FileSystem}
    (hbase : Barren roots base) (h : StaysInward links roots base path) :
    Keeps (before.Holds (Sealed links roots base)) (makeExecutable path) :=
  keeps_ask.bind fun _ => keeps_setMode hbase h _

theorem exec_makeExecutable (haddr : m.files.Addresses path l) (hsend : IsSendable path) (hlink : ¬ m.files.IsLink l)
    (hsole : m.files.Sole l) (hg : m.files.get? l = some node) :
    ∃ m', exec (makeExecutable path) m = (.ok (), m') ∧ Puts m l (executable node) m' := by
  have hstatus : m.files.status path true = .ok (l, node) := by rw [haddr.status (.inr hlink), hg]
  have hset : m.files.setMode path (node.mode ||| 0o111) =
      .ok (m.files.update l (Node.withMode ((node.mode ||| 0o111) % 0o10000))) := by
    simp [FileSystem.setMode, hstatus, bind, Except.bind, pure, Except.pure]
  refine ⟨{ m with files := m.files.update l (Node.withMode ((node.mode ||| 0o111) % 0o10000)) }, ?_, rfl, ?_⟩
  · rw [makeExecutable, status, exec_bind_of_ok (exec_ask_of_ok hsend hstatus)]
    show exec (request path (·.setMode path (node.mode ||| 0o111))) m = _
    rw [exec_request hsend, hset]
  · exact differs_update hsole hg haddr.ne_nil (Node.withMode ((node.mode ||| 0o111) % 0o10000))

end Action

end Prebuilt
