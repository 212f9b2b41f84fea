import Prebuilt.Proofs.Actions.Running
import Prebuilt.Proofs.Files.Inward
import Prebuilt.Proofs.Text.Encodable
/-!
Actions that work beneath some directories alone. Each request about an inward path maintains `Sealed`, and so does what is
made of such requests.
-/
set_option autoImplicit false

namespace Prebuilt

/-- Nothing but the files and the journal has changed, and the files are as stated. -/
structure Machine.Holds (before : Machine) (property : FileSystem → Prop) (m : Machine) : Prop where
  world : m = { before with files := m.files, journal := m.journal }
  files : property m.files

namespace Machine

variable {before m : Machine} {property : FileSystem → Prop}

theorem Holds.setFiles {fs : FileSystem} (h : before.Holds property m) (hfs : property fs) :
    before.Holds property { m with files := fs } := by
  refine ⟨?_, hfs⟩
  rw [h.world]

theorem Holds.setJournal {journal : Journal} (h : before.Holds property m) :
    before.Holds property { m with journal } := by
  refine ⟨?_, h.files⟩
  rw [h.world]

/-- All other parts of the machine are the same. -/
theorem Holds.same {α : Type} (h : before.Holds property m) (part : Machine → α)
    (hpart : ∀ (m : Machine) files journal, part { m with files, journal } = part m) : part m = part before := by
  rw [h.world, hpart]

theorem Holds.trans {middle : Machine} {other : FileSystem → Prop} (h : before.Holds property middle)
    (h' : middle.Holds other m) : before.Holds other m := by
  refine ⟨?_, h'.files⟩
  rw [h'.world, h.world]

theorem Holds.imp {other : FileSystem → Prop} (h : before.Holds property m) (himp : ∀ fs, property fs → other fs) :
    before.Holds other m := ⟨h.world, himp _ h.files⟩

theorem holds_self (h : property m.files) : m.Holds property m := ⟨rfl, h⟩

end Machine

namespace Action

open FileSystem

variable {α : Type} {before : Machine} {property : FileSystem → Prop} {links : Links} {roots : List Location} {base : FileSystem}
  {path : Text} {location : Location} {data : Bytes}

theorem keeps_record (change : Journal → Journal) : Keeps (before.Holds property) (record change) := fun _ h =>
  h.setJournal

theorem keeps_log (level : Log.Level) (origin : Log.Origin) (message : Text) :
    Keeps (before.Holds property) (log level origin message) := by
  unfold log
  refine keeps_get.bind fun m => (keeps_ofExcept _).bind fun line => ?_
  cases line with
  | none => exact keeps_pure ()
  | some line =>
    refine (keeps_record _).bind fun _ => keeps_get.bind fun m' => Keeps.ite (fun _ => keeps_record _) fun _ => keeps_pure _

/-- A message without lone surrogates, unless it does not matter. -/
def IsLoggable (threshold : Log.Level) (message : Text) : Prop := Log.isEnabled threshold Log.info = true → message.isString = true

theorem isLoggable_append {threshold : Log.Level} {a b : Text} :
    IsLoggable threshold (a ++ b) ↔ IsLoggable threshold a ∧ IsLoggable threshold b := by
  simp only [IsLoggable, Text.isString_append, Bool.and_eq_true]
  exact ⟨fun h => ⟨fun he => (h he).1, fun he => (h he).2⟩, fun h he => ⟨h.1 he, h.2 he⟩⟩

/-- Messages that can be logged are, and others cannot. -/
theorem log_ok_iff {m : Machine} {level : Log.Level} {origin : Log.Origin} {message : Text} :
    (∃ m', exec (log level origin message) m = (.ok (), m')) ↔ (Log.isEnabled m.threshold level = true → message.isString = true) := by
  have hline : (∃ line, Log.line? m.threshold level origin message = .ok line) ↔
      (Log.isEnabled m.threshold level = true → message.isString = true) := by
    rw [Log.line?]
    cases Log.isEnabled m.threshold level with
    | false => simp
    | true =>
      simp only [forall_const, Bool.not_true, Bool.false_eq_true, if_false]
      rw [← Text.isString_replaceChar (c := '\n') (d := ' ') rfl rfl message, ← Utf8.encode_ok_iff]
      cases Utf8.encode (Text.replaceChar '\n' ' ' message) <;> simp
  rw [← hline, log, exec_bind_of_ok exec_get]
  cases hmessage : Log.line? m.threshold level origin message with
  | error e =>
    rw [exec_bind_of_error (exec_ofExcept (.error e))]
    simp
  | ok line =>
    rw [exec_bind_of_ok (exec_ofExcept (.ok line))]
    refine iff_of_true ?_ ⟨line, rfl⟩
    cases line with
    | none => exact ⟨m, rfl⟩
    | some line =>
      simp only [exec_bind_of_ok (exec_record _), exec_bind_of_ok exec_get]
      split
      · exact ⟨_, rfl⟩
      · exact ⟨_, rfl⟩

theorem log_ok {m : Machine} {origin : Log.Origin} {message : Text} :
    (∃ m', exec (log Log.info origin message) m = (.ok (), m')) ↔ IsLoggable m.threshold message := log_ok_iff

/-! ## Directories and the ones above them -/

theorem exec_lacksHead (path : Text) (m : Machine) : exec (makeDirectories.lacksHead path) m =
    (.ok (!(headAndTail path).1.isEmpty && !(headAndTail path).2.isEmpty && !m.files.hasTarget (headAndTail path).1), m) :=
  rfl

theorem keeps_passExisting {P : Machine → Prop} {e : Error} {action : Action Unit} (h : passExisting e = some action) :
    Keeps P action := by
  cases e <;> simp only [passExisting, reduceCtorEq, Option.ite_none_right_eq_some] at h
  rw [← Option.some.inj h.2]
  exact keeps_pure _

/-- What making each directory on the way maintains, making all of them does. -/
theorem keeps_go {P : Machine → Prop} (good : Text → Prop)
    (hmake : ∀ path, good path → Keeps P (makeDirectory path directoryMode))
    (hhead : ∀ path, good path → (headAndTail path).1 ≠ [] → good (headAndTail path).1) (existing : Bool) (fuel : Nat)
    (h : good path) : Keeps P (makeDirectories.go existing fuel path) := by
  have hlast {path : Text} (h : good path) : Keeps P (makeDirectories.makeLast existing path) := by
    refine (hmake path h).catching fun e action he => ?_
    cases e <;> cases he
    refine Keeps.bind (keeps_of_exec fun _ => rfl) fun _ => ?_
    exact Keeps.ite (fun _ => keeps_pure _) fun _ => keeps_throw _
  induction fuel generalizing path with
  | zero =>
    refine Keeps.bind (keeps_of_exec fun m => ?_) fun _ => Keeps.ite (fun _ => keeps_pure _) fun _ => hlast h
    rw [exec_lacksHead]
  | succ fuel ih =>
    refine Keeps.bind_of (keeps_of_exec fun m => ?_) fun m a m₁ hm hrun hm₁ => ?_
    · rw [exec_lacksHead]
    rw [exec_lacksHead] at hrun
    cases hrun
    refine Keeps.ite (fun hc => ?_) (fun _ => hlast h) m hm
    simp only [Bool.and_eq_true, Bool.not_eq_true', List.isEmpty_eq_false_iff] at hc
    refine Keeps.bind ((ih (hhead path h hc.1.1)).catching fun _ _ => keeps_passExisting) fun _ => ?_
    exact Keeps.ite (fun _ => keeps_pure _) fun _ => hlast h

/-- A path splits before its last component, or before the one that closing slashes follow. -/
theorem headAndTail_cases (path : Text) :
    (headAndTail path).1 = Path.parent path ∧ (headAndTail path).2 = Path.base path ∨
      Path.base path = [] ∧ (headAndTail path).1 = Path.parent (Path.parent path) ∧
        (headAndTail path).2 = Path.base (Path.parent path) := by
  by_cases h : (Path.base path).isEmpty
  · exact .inr (by simp [headAndTail, List.isEmpty_iff.1 h])
  · exact .inl (by simp [headAndTail, h])

theorem front_head (hne : (headAndTail path).1 ≠ []) : Path.names (headAndTail path).1 <+: Path.names path ∧
    Path.isAbsolute (headAndTail path).1 = Path.isAbsolute path := by
  have hparent {path : Text} (hne : Path.parent path ≠ []) : Path.names (Path.parent path) <+: Path.names path ∧
      Path.isAbsolute (Path.parent path) = Path.isAbsolute path := by
    refine ⟨?_, Path.isAbsolute_of_isPrefix (Path.prefix_parent path) hne⟩
    rw [Path.names_eq_parent_base path]
    exact List.prefix_append _ _
  rcases headAndTail_cases path with ⟨h, -⟩ | ⟨-, h, -⟩
  · rw [h] at hne ⊢
    exact hparent hne
  · rw [h] at hne ⊢
    have hne' : Path.parent path ≠ [] := by
      intro he
      rw [he] at hne
      exact hne (by decide)
    obtain ⟨hnames, habs⟩ := hparent hne
    obtain ⟨hnames', habs'⟩ := hparent hne'
    exact ⟨hnames.trans hnames', habs.trans habs'⟩

theorem staysFounded_head (h : StaysFounded links roots base path) (hne : (headAndTail path).1 ≠ []) :
    StaysFounded links roots base (headAndTail path).1 := by
  intro fs hfs
  obtain ⟨hfront, habs⟩ := front_head hne
  exact (h fs hfs).of_front hfront (by rw [origin, origin, habs])

theorem keeps_makeDirectory (h : StaysFounded links roots base path) (mode : Nat) :
    Keeps (before.Holds (Sealed links roots base)) (makeDirectory path mode) :=
  keeps_request fun _ _ hm hfs =>
    hm.setFiles (hm.files.makeDirectory (fun _ hl => (h _ hm.files).denotes hl) hfs)

theorem keeps_makeDirectories (h : StaysFounded links roots base path) (existing : Bool) :
    Keeps (before.Holds (Sealed links roots base)) (makeDirectories path existing) :=
  keeps_go (StaysFounded links roots base) (fun _ h => keeps_makeDirectory h _) (fun _ h hne => staysFounded_head h hne)
    existing _ h

theorem keeps_makeSpecial (hspecial : links.special) (h : StaysInward links roots base path) :
    Keeps (before.Holds (Sealed links roots base)) (makeSpecial path) := by
  unfold makeSpecial
  refine (keeps_checkPath path).bind fun _ => ?_
  intro m hm
  rw [exec_bind_of_ok exec_files]
  cases hfs : m.files.makeSpecial path with
  | error e => exact hm
  | ok fs => exact hm.setFiles (hm.files.makeSpecial hspecial (h _ hm.files).itself hfs)

theorem keeps_makeLink {source target : Text} (h : StaysInward links roots base path) (ht : links.symbolic target) :
    Keeps (before.Holds (Sealed links roots base)) (requestTwo source path (·.makeLink target path)) :=
  keeps_requestTwo fun _ _ hm hfs => hm.setFiles (hm.files.makeLink (h _ hm.files).itself ht hfs)

theorem keeps_addName {source : Text} (hhard : links.hard) (hsource : StaysInward links roots base source)
    (hinside : StaysInside links roots base source) (h : StaysInward links roots base path) :
    Keeps (before.Holds (Sealed links roots base)) (requestTwo source path (·.addName source path)) :=
  keeps_requestTwo fun _ _ hm hfs => hm.setFiles
    (hm.files.addNameAt hhard (hsource _ hm.files) (hinside _ hm.files) (h _ hm.files).itself hfs)

theorem keeps_unlink (h : StaysInside links roots base path) (hslash : Path.endsInSlash path = false) :
    Keeps (before.Holds (Sealed links roots base)) (unlink path) :=
  keeps_request fun _ _ hm hfs => hm.setFiles (hm.files.unlink (h _ hm.files) hslash hfs)

section

variable (hbase : Barren roots base)

include hbase

theorem keeps_setMode (h : StaysInward links roots base path) (mode : Nat) :
    Keeps (before.Holds (Sealed links roots base)) (setMode path mode) :=
  keeps_request fun _ _ hm hfs => hm.setFiles (hm.files.setMode hbase (h _ hm.files).itself hfs)

theorem keeps_setOwner {followLast : Bool} (h : StaysInward links roots base path)
    (hinside : followLast = false → StaysInside links roots base path) :
    Keeps (before.Holds (Sealed links roots base)) (setOwner path followLast) :=
  keeps_request fun _ _ hm hfs => hm.setFiles
    (hm.files.setOwner hbase (h _ hm.files) (fun hf => hinside hf _ hm.files) hfs)

theorem keeps_create (h : StaysInward links roots base path) :
    Keeps (before.Holds (Sealed links roots base)) (create path) := by
  unfold create
  refine Keeps.bind ?_ fun _ => keeps_ask.bind fun _ => keeps_pure _
  exact keeps_request fun _ _ hm hfs => hm.setFiles (hm.files.truncate hbase (h _ hm.files).itself hfs)

/-- Data goes to a location beneath the roots. -/
theorem beneath_of_create {m m' : Machine} (h : StaysInward links roots base path)
    (hm : before.Holds (Sealed links roots base) m) (hok : exec (create path) m = (.ok location, m')) :
    Beneath roots location := by
  have hk := keeps_create hbase h m hm
  rw [hok] at hk
  obtain ⟨_, m₁, -, hask⟩ := bind_ok.1 hok
  obtain ⟨found, m₂, hfound, hret⟩ := bind_ok.1 hask
  cases hret
  obtain ⟨rfl, hstatus⟩ := ask_ok hfound
  exact (h _ hk.files).itself _ (status_ok hk.files.rooted hstatus).1

theorem keeps_update {change : Node → Node} (hin : Beneath roots location) (hchange : Node.Mild change) :
    Keeps (before.Holds (Sealed links roots base)) (do setFiles ((← files).update location change)) :=
  fun _ hm => hm.setFiles (hm.files.update hbase hin hchange)

theorem keeps_write (hin : Beneath roots location) :
    Keeps (before.Holds (Sealed links roots base)) (write location data) := by
  refine keeps_update hbase hin fun node => ?_
  cases node <;> simp [Node.IsLike]

end

end Action

end Prebuilt
