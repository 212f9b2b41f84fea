import Prebuilt.Proofs.Archive.Checking
import Prebuilt.Proofs.Install.Choosing
import Prebuilt.Proofs.Install.Performing
/-!
Moving an entry out of the way and removing it for good. Both are about one entry of one directory: whatever it is, it stands whole
under its new name in between, and afterwards nothing but it is gone.
-/
set_option autoImplicit false

namespace Prebuilt

open FileSystem

variable {fs : FileSystem} {m : Machine} {p : FilePath} {path name : Text} {d o : Location} {parts : List Text}

/-! ## Lengths of names -/

namespace Action

theorem byteLength_append {a b : Text} (h : IsSendable (a ++ b)) : byteLength (a ++ b) = byteLength a + byteLength b := by
  obtain ⟨_, hbytes, -⟩ := h
  obtain ⟨x, y, hx, hy, rfl⟩ := Utf8.encodeFrom_append.1 hbytes
  rw [byteLength_of_ok hbytes, byteLength_of_ok hx, byteLength_of_ok hy, List.length_append]

theorem encode_digitChar (k : Nat) : ∃ byte : UInt8, byte ≠ 0 ∧ String.utf8EncodeChar (Nat.digitChar k) = [byte] := by
  by_cases hk : k < 16
  · have hall : ∀ k < 16, ∃ byte ∈ (List.range' 48 55).map UInt8.ofNat, String.utf8EncodeChar (Nat.digitChar k) = [byte] := by decide
    obtain ⟨byte, hmem, hbyte⟩ := hall k hk
    refine ⟨byte, ?_, hbyte⟩
    rintro rfl
    exact absurd hmem (by decide)
  · have hstar : Nat.digitChar k = '*' := by
      unfold Nat.digitChar
      repeat rw [if_neg (by omega)]
    rw [hstar]
    exact ⟨42, by decide, by decide⟩

/-- Digits can be handed to the system and take a byte each. -/
theorem sendable_digits {t : Text} (h : ∀ c ∈ t, ∃ k, c = CodePoint.char (Nat.digitChar k)) :
    IsSendable t ∧ byteLength t = t.length := by
  induction t with
  | nil => exact ⟨⟨[], rfl, rfl⟩, rfl⟩
  | cons c rest ih =>
    obtain ⟨hc, hrest⟩ := List.forall_mem_cons.1 h
    obtain ⟨k, rfl⟩ := hc
    obtain ⟨byte, hne, hbyte⟩ := encode_digitChar k
    have hone : Utf8.encodeName [CodePoint.char (Nat.digitChar k)] = .ok [byte] := by
      rw [Utf8.encodeName, Utf8.encodeFrom, hbyte]
      rfl
    have hsend : IsSendable ([CodePoint.char (Nat.digitChar k)] ++ rest) :=
      isSendable_append.2 ⟨⟨[byte], hone, by simp [Ne.symm hne]⟩, (ih hrest).1⟩
    refine ⟨hsend, (byteLength_append hsend).trans ?_⟩
    rw [byteLength_of_ok hone, (ih hrest).2, List.length_cons]
    exact Nat.add_comm ..

theorem sendable_hex (width n : Nat) : IsSendable (Text.hex width n) ∧ byteLength (Text.hex width n) = (Text.hex width n).length := by
  refine sendable_digits fun c hc => ?_
  simp only [Text.hex, Text.ofDigits, Text.ofChars, List.map_append, List.mem_append, List.mem_map, List.mem_replicate] at hc
  rcases hc with ⟨_, ⟨-, rfl⟩, rfl⟩ | ⟨digit, hdigit, rfl⟩
  · exact ⟨0, rfl⟩
  · obtain ⟨k, rfl⟩ := Text.exists_digit (by decide) hdigit
    exact ⟨k, rfl⟩

end Action

namespace FileSystem

/-! ## Straight paths -/

/-- A path that ends in the name of an entry, and leads to the entry's directory without following a link or going up. -/
structure Straight (fs : FileSystem) (path : Text) (d : Location) (name : Text) : Prop where
  reach : ∃ above, Text.splitOn '/' path = above ++ [name] ∧ fs.Reaches 0 (fs.origin path) above d
  downward : Path.Downward path
  isName : IsName name
  isDir : fs.IsDir d
  start : Path.isAbsolute path = true ∨ fs.IsDir fs.workingDirectory
  sendable : Action.IsSendable path

/-- What leads straight to a directory leads past everything in it. -/
theorem skirts_of_reaches {n : Nat} (h : fs.Reaches n o parts d) (hzero : n = 0) (hup : ∀ part ∈ parts, part ≠ "..") :
    o <+: d ∧ fs.Skirts (child d name) n o parts d := by
  induction h with
  | nil d => exact ⟨List.prefix_rfl, .nil d⟩
  | skip hskip _ ih =>
    obtain ⟨hp, hs⟩ := ih hzero fun part hpart => hup part (List.mem_cons_of_mem _ hpart)
    exact ⟨hp, .skip hskip hs⟩
  | up hdots _ _ => exact absurd hdots (hup _ List.mem_cons_self)
  | @step n o d part rest hname hpass hlink _ ih =>
    obtain ⟨hp, hs⟩ := ih hzero fun part hpart => hup part (List.mem_cons_of_mem _ hpart)
    refine ⟨(List.prefix_append ..).trans hp, .step hname ⟨hpass.1, fun hbelow => ?_⟩ hlink hs⟩
    have hlen := (hbelow.trans hp).length_le
    simp [child] at hlen
  | link _ _ _ _ _ => cases hzero

namespace Straight

theorem isComponent (h : fs.Straight path d name) : IsComponent name := by
  obtain ⟨above, hs, -⟩ := h.reach
  exact ⟨h.isName, Text.not_mem_of_mem_splitOn (hs ▸ List.mem_append_right above List.mem_cons_self)⟩

theorem ofText_parts (h : fs.Straight path d name) : ∃ above, (FilePath.ofText path).parts = above ++ [name] ∧
    fs.Reaches 0 (fs.origin path) above d := by
  obtain ⟨above, hs, hr⟩ := h.reach
  refine ⟨above.filter FilePath.isPart, ?_, follows_filter.2 hr⟩
  rw [Path.ofText_parts, Path.names, hs, List.filter_append, List.filter_cons_of_pos h.isName.1]
  rfl

theorem name_eq (h : fs.Straight path d name) : (FilePath.ofText path).name = name := by
  obtain ⟨above, hparts, -⟩ := h.ofText_parts
  rw [FilePath.name, hparts, List.getLast?_append_cons]
  rfl

theorem downward_toText (h : fs.Straight path d name) : Path.Downward (FilePath.ofText path).toText := by
  rw [Path.Downward, names_ofText]
  exact h.downward

theorem home (h : fs.Straight path d name) : fs.Home (FilePath.ofText path) d where
  tidy := FilePath.tidy_ofText path
  reach := by
    obtain ⟨above, hparts, hr⟩ := h.ofText_parts
    refine ⟨0, Nat.zero_le _, ?_⟩
    rwa [hparts, List.dropLast_concat, origin_ofText]
  isDir := h.isDir
  start := by
    rw [isAbsolute_ofText]
    exact h.start

theorem isDirect (h : fs.Straight path d name) : fs.IsDirect (FilePath.ofText path) := by
  obtain ⟨above, hparts, hr⟩ := h.ofText_parts
  have hup : ∀ part ∈ above, part ≠ ".." := fun part hpart => h.downward part (by
    rw [← Path.ofText_parts, hparts]
    exact List.mem_append_left _ hpart)
  rintro d' ⟨n, hl⟩
  rw [hparts, List.dropLast_concat, origin_ofText] at hl
  obtain rfl := (hl.deterministic hr.leads).2
  refine ⟨0, ?_⟩
  rw [h.name_eq, hparts, List.dropLast_concat, origin_ofText]
  exact (skirts_of_reaches hr rfl hup).2

theorem start_eq (h : fs.Straight path d name) (hbrief : byteLength path < pathLimit) : fs.start path = .ok (fs.origin path) := by
  obtain ⟨above, hs, -⟩ := h.reach
  have hne : path ≠ [] := by
    rintro rfl
    have hlast := (List.append_inj' (show [] ++ [[]] = above ++ [name] from hs) rfl).2
    exact h.isComponent.ne_nil (List.singleton_injective hlast).symm
  rw [start_cases hne h.start, if_neg (Nat.not_le.2 hbrief)]

theorem addresses (h : fs.Straight path d name) (hshort : byteLength name ≤ nameLimit) (hbrief : byteLength path < pathLimit) :
    fs.Addresses path (child d name) := by
  obtain ⟨above, hs, hr⟩ := h.reach
  exact .intro hs h.isName hshort (h.start_eq hbrief) (Nat.zero_le _) hr h.isDir

theorem lastName (h : fs.Straight path d name) (hbrief : byteLength path < pathLimit) :
    fs.lastName path = .ok ⟨d, some name, false, false⟩ := by
  obtain ⟨above, hs, hr⟩ := h.reach
  exact lastName_of_reaches hs h.isName (h.start_eq hbrief) (Nat.zero_le _) hr h.isDir

theorem sendable_toText (h : fs.Straight path d name) : Action.IsSendable (FilePath.ofText path).toText := by
  refine Action.isSendable_toText ?_ fun part hpart => Action.isSendable_of_mem_names h.sendable hpart
  rcases (FilePath.tidy_ofText path).root with hroot | hroot | hroot <;> rw [hroot]
  · exact ⟨[], rfl, rfl⟩
  · exact ⟨[47], by decide, by decide⟩
  · exact ⟨[47, 47], by decide, by decide⟩

theorem sendable_front (h : fs.Straight path d name) :
    Action.IsSendable (FilePath.ofText path).front ∧ Action.IsSendable name := by
  have hname : IsComponent (FilePath.ofText path).name := h.name_eq.symm ▸ h.isComponent
  have hsend := h.sendable_toText
  rwa [toText_eq_front hname, h.name_eq, Action.isSendable_append] at hsend

end Straight

end FileSystem

/-! ## The name aside -/

namespace Action

/-- The name that an entry is moved to next. -/
def nextName (m : Machine) (name : Text) : Text := Text.join [".", name, "-old-", Text.hex 32 (m.identifiers + 1)]

theorem nextAside_eq (h : m.files.Straight path d name) :
    nextAside m path = ((FilePath.ofText path).beside (nextName m name)).toText := by
  have hparts : (FilePath.ofText path).parts ≠ [] := by
    obtain ⟨above, hparts, -⟩ := h.ofText_parts
    rw [hparts]
    exact List.append_ne_nil_of_right_ne_nil _ (List.cons_ne_nil _ _)
  have haside := (FilePath.tidy_ofText path).asidePath_toText h.downward_toText hparts (Text.slash_not_mem_hex 32 (m.identifiers + 1))
  have hnormal : Path.normalize path = Path.normalize (FilePath.ofText path).toText := by
    rw [normalize_eq h.downward, normalize_eq h.downward_toText, (FilePath.tidy_ofText path).ofText_toText]
  rw [nextAside, asidePath, hnormal, ← asidePath, haside, FilePath.asideName, h.name_eq]
  rfl

theorem isComponent_nextName (h : IsComponent name) : IsComponent (nextName m name) := by
  refine isComponent_of_dot ?_ ?_
  · simp [nextName, Text.join, h.noSlash, Text.slash_not_mem_hex]
  · simp [nextName, Text.join]
    omega

theorem sendable_nextName (h : IsSendable name) : IsSendable (nextName m name) ∧
    byteLength (nextName m name) = byteLength name + 6 + (Text.hex 32 (m.identifiers + 1)).length := by
  obtain ⟨hdigits, hlength⟩ := sendable_hex 32 (m.identifiers + 1)
  have hdot : IsSendable "." ∧ byteLength "." = 1 := ⟨⟨[46], by decide, by decide⟩, by decide⟩
  have hold : IsSendable "-old-" ∧ byteLength "-old-" = 5 := ⟨⟨[45, 111, 108, 100, 45], by decide, by decide⟩, by decide⟩
  have hlast := isSendable_append.2 ⟨hold.1, hdigits⟩
  have hmore := isSendable_append.2 ⟨h, hlast⟩
  have hall := isSendable_append.2 ⟨hdot.1, hmore⟩
  have hname : nextName m name = "." ++ (name ++ ("-old-" ++ Text.hex 32 (m.identifiers + 1))) := by simp [nextName, Text.join]
  rw [hname]
  refine ⟨hall, ?_⟩
  rw [byteLength_append hall, byteLength_append hmore, byteLength_append hlast, hdot.2, hold.2, hlength]
  omega

theorem sendable_nextAside (h : m.files.Straight path d name) : IsSendable (nextAside m path) := by
  obtain ⟨hfront, hname⟩ := h.sendable_front
  rw [nextAside_eq h, FilePath.toText_beside _ (isComponent_nextName h.isComponent).ne_nil]
  exact isSendable_append.2 ⟨hfront, (sendable_nextName hname).1⟩

/-- Where something is moved to is another entry of its directory. -/
theorem siblings_nextName (h : IsSendable name) : Siblings (child d name) (child d (nextName m name)) := by
  refine siblings_child fun he => ?_
  have hlength := congrArg byteLength he
  rw [Name.byteLength_canonical, Name.byteLength_canonical, (sendable_nextName h).2] at hlength
  omega

end Action

/-! ## Away and gone -/

namespace FileSystem

/-- What stood at the first location, with all beneath it, stands at the second one, and all else is what it was. -/
structure Moved (fs fs' : FileSystem) (s t : Location) : Prop where
  whole : ∀ more, fs'.get? (t ++ more) = fs.get? (s ++ more)
  gone : ∀ more, fs'.get? (s ++ more) = none
  rest : ∀ l, ¬ s <+: l → ¬ t <+: l → fs'.get? l = fs.get? l
  next : fs'.nextNumber = fs.nextNumber
  cwd : ¬ s <+: fs.workingDirectory → fs'.workingDirectory = fs.workingDirectory

/-- Nothing is left at the location or beneath it, and all else is what it was. -/
structure Rid (fs fs' : FileSystem) (s : Location) : Prop where
  get? : ∀ l, fs'.get? l = if s <+: l then none else fs.get? l
  next : fs'.nextNumber = fs.nextNumber
  cwd : ¬ s <+: fs.workingDirectory → fs'.workingDirectory = fs.workingDirectory

variable {s t : Location}

theorem Siblings.moved (h : Siblings s t) (fs : FileSystem) : fs.Moved (fs.move s t) s t where
  whole more := by rw [h.get?_move, if_pos (List.prefix_append ..), List.drop_left]
  gone more := by rw [h.get?_move, if_neg (h.disjoint (List.prefix_append ..)), if_pos (List.prefix_append ..)]
  rest l hs ht := by rw [h.get?_move, if_neg ht, if_neg hs]
  next := rfl
  cwd hs := moveLocation_of_outside hs

/-- What is removed after it was moved to a free location is removed from where it was. -/
theorem Siblings.rid (h : Siblings s t) (hsound : fs.Sound) (ht : Nameable t) (hdir : fs.IsDir t.dropLast) (hfree : fs.get? t = none) :
    fs.Rid (Action.cleared (fs.move s t) t) s where
  get? l := by
    have hmoved := hsound.move h.not_prefix h.symm.not_prefix ht hdir
    rw [Action.get?_cleared hmoved.rooted h.right, h.get?_move]
    by_cases htl : t <+: l
    · rw [if_pos htl, if_neg (h.symm.disjoint htl), vacant_of_none hsound.rooted hfree l htl]
    · rw [if_neg htl, if_neg htl]
  next := by rw [nextNumber_cleared]; rfl
  cwd hs := by rw [workingDirectory_cleared, workingDirectory_move hs]

end FileSystem

namespace Action

/-- The path aside leads to the new entry whatever becomes of the old one, because it leads through neither. -/
theorem slot_nextAside (h : m.files.Straight path d name) (hsound : m.files.Sound) (hfits : Fits (FilePath.ofText path) (nextName m name))
    (hfree : m.files.get? (child d (nextName m name)) = none) :
    Slot (m.files.without (child d name)) (nextAside m path) (child d (nextName m name)) := by
  have hhome := h.home.without h.downward_toText h.isDirect
  rw [h.name_eq] at hhome
  refine ⟨by rw [nextAside_eq h]; exact hhome.addresses hfits, fun l hl => ?_, sendable_nextAside h⟩
  rw [get?_without child_ne_nil, vacant_of_none hsound.rooted hfree l hl, ite_self]

/-- What becomes of a request to rename one entry to another. -/
theorem exec_rename {source target : Text} {s t : Location} (hs : m.files.Addresses source s) (ht : m.files.Addresses target t)
    (hsource : IsSendable source) (htarget : IsSendable target) (hst : ¬ s <+: t.dropLast) (hts : ¬ t <+: s.dropLast) :
    exec (rename source target) m = match m.files.renamed s t with
      | .ok fs => (.ok (), { m with files := fs })
      | .error e => (.error (.system ⟨e, some source, some target⟩), m) := by
  rw [← hs.rename ht hst hts]
  exact exec_requestTwo hsource htarget m

/-- If nothing stands at a path, not even a link that leads nowhere, moving it aside does nothing and says so. Otherwise the whole
entry stands at a hidden sibling afterwards and nothing else has changed, and removing it there, on whatever machine has these
files, leaves the files as they were without it. -/
theorem moveAside_removePath (h : m.files.Straight path d name) (hsound : m.files.Sound) (hname : byteLength name ≤ 217)
    (hdigits : (Text.hex 32 (m.identifiers + 1)).length = 32) (hfree : m.files.get? (child d (nextName m name)) = none)
    (hroom : byteLength path < pathLimit) (hroom' : byteLength (nextAside m path) < pathLimit) :
    m.files.Addresses path (child d name) ∧
      (m.files.get? (child d name) = none ∧ exec (moveAside path) m = (.ok none, counted m) ∨
        m.files.get? (child d name) ≠ none ∧ ∃ fs, exec (moveAside path) m = (.ok (some (nextAside m path)), { counted m with files := fs }) ∧
          m.files.Moved fs (child d name) (child d (nextName m name)) ∧ fs.Addresses (nextAside m path) (child d (nextName m name)) ∧
            ∃ fs', m.files.Rid fs' (child d name) ∧ ∀ k : Machine, k.files = fs →
              exec (removePath (nextAside m path)) k = (.ok (), { k with files := fs' })) := by
  have hsend := h.sendable_front.2
  have hshort : byteLength name ≤ nameLimit := hname.trans (by decide)
  have hfits : Fits (FilePath.ofText path) (nextName m name) := by
    refine ⟨isComponent_nextName h.isComponent, ?_, by rwa [← nextAside_eq h]⟩
    rw [(sendable_nextName hsend).2, hdigits, nameLimit]
    omega
  have hhere := h.addresses hshort hroom
  have hthere := h.home.addresses hfits
  have hsiblings := siblings_nextName (m := m) (d := d) hsend
  have hslot := slot_nextAside h hsound hfits hfree
  rw [← nextAside_eq h] at hthere
  have hfiles : (counted m).files = m.files := rfl
  refine ⟨hhere, ?_⟩
  rw [exec_moveAside, exec_rename (m := counted m) hhere hthere h.sendable hslot.sendable hsiblings.not_prefix_dropLast
    hsiblings.symm.not_prefix_dropLast, hfiles]
  cases hg : m.files.get? (child d name) with
  | none =>
    refine .inl ⟨rfl, ?_⟩
    simp only [renamed, hg]
    rfl
  | some node =>
    refine .inr ⟨by simp, m.files.move (child d name) (child d (nextName m name)), ?_, hsiblings.moved m.files, ?_,
      cleared (m.files.move (child d name) (child d (nextName m name))) (child d (nextName m name)), ?_, ?_⟩
    · simp only [renamed, hg, hfree]
    · exact hslot.addresses.of_extends ((without_extends child_ne_nil).move (vacant_without child_ne_nil) hslot.vacant
        hsiblings.not_prefix hsiblings.symm.not_prefix)
    · exact hsiblings.rid hsound hfits.nameable (by simpa [child] using h.isDir) hfree
    · intro k hk
      rw [← hk]
      refine hslot.removePath ?_
      rw [hk]
      exact (without_extends child_ne_nil).move (vacant_without child_ne_nil) hslot.vacant hsiblings.not_prefix
        hsiblings.symm.not_prefix

section

set_option maxRecDepth 10000

/-- A directory with others in it is moved aside and removed. -/
theorem moveAside_removePath_deep : ∃ fs fs', exec (moveAside "/t") (serving [] deepFiles) =
      (.ok (some "/.t-old-00000000000000000000000000000001"), { counted (serving [] deepFiles) with files := fs }) ∧
    (∀ more, fs.get? (([".t-old-00000000000000000000000000000001"] : Location) ++ more) = deepFiles.get? ((["t"] : Location) ++ more)) ∧
      exec (removePath "/.t-old-00000000000000000000000000000001") { counted (serving [] deepFiles) with files := fs } =
        (.ok (), { counted (serving [] deepFiles) with files := fs' }) ∧
      ∀ l, fs'.get? l = if (["t"] : Location) <+: l then none else deepFiles.get? l := by
  have hstraight : deepFiles.Straight "/t" [] "t" := by
    refine ⟨⟨[""], by decide, .skip (by decide) (.nil _)⟩, by decide, ⟨by decide, by decide⟩, isDir_nil, .inl (by decide), [47, 116], ?_, ?_⟩ <;>
      decide
  have hchild : child [] (nextName (serving [] deepFiles) "t") = [".t-old-00000000000000000000000000000001"] := by decide
  have haside : nextAside (serving [] deepFiles) "/t" = "/.t-old-00000000000000000000000000000001" := by cbv
  have hfree : deepFiles.get? [".t-old-00000000000000000000000000000001"] = none := by decide
  have hthere : deepFiles.get? ["t"] = some (.directory 0o755) := get?_deepFiles (by decide : 0 < 17)
  have hmoving := moveAside_removePath (m := serving [] deepFiles) hstraight sound_deepFiles (by decide) (by decide) (hchild ▸ hfree)
    (by decide) (by rw [haside]; decide)
  rw [hchild, haside] at hmoving
  rcases hmoving.2 with ⟨hnone, -⟩ | ⟨-, fs, hrun, hmoved, -, fs', hrid, hremove⟩
  · cases hnone.symm.trans hthere
  · exact ⟨fs, fs', hrun, hmoved.whole, hremove _ rfl, hrid.get?⟩

end

/-! ## Too long a path -/

/-- A path aside that is too long for the system is refused, whether or not anything is there to be moved. -/
theorem moveAside_long (h : m.files.Straight path d name) (hroom : byteLength path < pathLimit)
    (hlong : pathLimit ≤ byteLength (nextAside m path)) :
    exec (moveAside path) m = (.error (.system ⟨.nameTooLong, some path, some (nextAside m path)⟩), counted m) := by
  have hsource := h.lastName hroom
  have htarget := h.home.lastName (isComponent_nextName (m := m) h.isComponent)
  rw [← nextAside_eq h, if_pos hlong] at htarget
  have hrename : exec (rename path (nextAside m path)) (counted m) =
      (.error (.system ⟨.nameTooLong, some path, some (nextAside m path)⟩), counted m) := by
    have hfiles : (counted m).files = m.files := rfl
    rw [rename, exec_requestTwo h.sendable (sendable_nextAside h)]
    simp only [hfiles, FileSystem.rename, hsource, htarget, bind, Except.bind]
  have hother : Errno.nameTooLong ≠ .noEntry := by decide
  rw [exec_moveAside, hrename]
  simp only [if_neg hother]

theorem byteLength_joinWith {names : List Text} (h : ∀ name ∈ names, IsSendable name) (hne : names ≠ []) :
    byteLength (Text.joinWith "/" names) + 1 = (names.map fun name => byteLength name + 1).sum := by
  induction names with
  | nil => exact absurd rfl hne
  | cons name rest ih =>
    cases rest with
    | nil => simp [Text.joinWith]
    | cons next more =>
      have hslash : byteLength "/" = 1 := by decide
      have hrest := ih (List.forall_mem_cons.1 h).2 (List.cons_ne_nil _ _)
      have hall : IsSendable (Text.joinWith "/" (name :: next :: more)) := isSendable_joinWith_iff.2 h
      rw [Text.joinWith] at hall ⊢
      rw [byteLength_append hall, byteLength_append (isSendable_append.1 hall).1, hslash, List.map_cons, List.sum_cons, ← hrest]
      omega

section

set_option maxRecDepth 10000

/-- Something in the deepest directory. -/
def deepEntry (name : Text) : FilePath := ⟨"/", deepWay 16 ++ [name]⟩

def deepLast : Text := List.replicate 60 (CodePoint.char 'a')

theorem isEntryName_deepWay {part : Text} (depth : Nat) (h : part ∈ deepWay depth) : IsEntryName part ∧ IsSendable part := by
  rcases List.mem_cons.1 h with rfl | h
  · exact ⟨⟨⟨by decide, by decide⟩, by decide, by decide, by decide⟩, [116], by decide, by decide⟩
  · rw [List.eq_of_mem_replicate h]
    exact ⟨⟨⟨by decide, by decide⟩, by decide, by decide, by decide⟩, List.replicate 250 97, by decide, by decide⟩

theorem byteLength_deepEntry (h : IsSendable name) : byteLength (deepEntry name).toText = 4019 + byteLength name := by
  have hnames : ∀ part ∈ deepWay 16 ++ [name], IsSendable part := by
    intro part hpart
    rcases List.mem_append.1 hpart with hpart | hpart
    · exact (isEntryName_deepWay 16 hpart).2
    · exact List.mem_singleton.1 hpart ▸ h
  have hjoined := byteLength_joinWith hnames (by simp)
  have htop : byteLength "t" = 1 := by decide
  have hdeep : byteLength deepName = 250 := by decide
  have hslash : byteLength "/" = 1 := by decide
  have htext : (deepEntry name).toText = "/" ++ Text.joinWith "/" (deepWay 16 ++ [name]) := by
    rw [FilePath.toText, deepEntry, if_neg (by simp)]
  rw [htext, byteLength_append (isSendable_append.2 ⟨isSendable_slash, isSendable_joinWith_iff.2 hnames⟩), hslash]
  simp only [deepWay, List.map_append, List.map_cons, List.map_replicate, List.sum_append, List.sum_cons, List.sum_replicate, htop,
    hdeep, List.map_nil, List.sum_nil, List.cons_append, smul_eq_mul] at hjoined
  rw [deepWay, List.cons_append]
  omega

theorem reaches_deepWay {depth : Nat} (h : depth < 17) : deepFiles.Reaches 0 [] (deepWay depth) (deepWay depth) := by
  have hstep {d : Location} {part : Text} {depth : Nat} (hdepth : depth < 17) (hpart : part ∈ deepWay depth)
      (hchild : child d part = deepWay depth) : deepFiles.Reaches 0 d [part] (deepWay depth) := by
    have hdir : deepFiles.IsDir (child d part) := ⟨_, by rw [hchild]; exact get?_deepFiles hdepth⟩
    obtain ⟨hname, -⟩ := isEntryName_deepWay depth hpart
    exact .step hname.isName ⟨hname.short, .inl hdir⟩ (fun hlink => not_isDir_of_isLink hlink hdir) (by rw [hchild]; exact .nil _)
  induction depth with
  | zero => exact hstep h List.mem_cons_self (by decide)
  | succ depth ih =>
    have hway : deepWay (depth + 1) = deepWay depth ++ [deepName] := by
      rw [deepWay, List.replicate_succ', ← List.cons_append]
      rfl
    have hlast : deepName ∈ deepWay (depth + 1) := hway ▸ List.mem_append_right _ List.mem_cons_self
    have hchild : child (deepWay depth) deepName = deepWay (depth + 1) := by
      rw [child, (isEntryName_deepWay _ hlast).1.canonical, hway]
    have hboth := (ih (by omega)).append (hstep h hlast hchild)
    rwa [← hway] at hboth

theorem get?_deepEntry (name : Text) : deepFiles.get? (child (deepWay 16) name) = none := by
  by_contra hthere
  obtain ⟨node, hnode⟩ := Option.ne_none_iff_exists'.1 hthere
  obtain ⟨depth, hdepth, heq⟩ := List.mem_map.1 (mem_nodes_of_get? hnode child_ne_nil)
  have hlength := congrArg (fun e : Location × Node => e.1.length) heq
  simp only [deepWay, child, List.length_cons, List.length_append, List.length_replicate, List.length_nil] at hlength
  rw [List.mem_range] at hdepth
  omega

theorem isEntryName_deepLast : IsEntryName deepLast ∧ IsSendable deepLast :=
  ⟨⟨⟨by decide, by decide⟩, by decide, by decide, by decide⟩, List.replicate 60 97, by decide, by decide⟩

theorem isEntryName_deepEntry {part : Text} (h : part ∈ (deepEntry deepLast).parts) : IsEntryName part ∧ IsSendable part := by
  rcases List.mem_append.1 h with h | h
  · exact isEntryName_deepWay 16 h
  · exact List.mem_singleton.1 h ▸ isEntryName_deepLast

theorem tidy_deepEntry : (deepEntry deepLast).Tidy :=
  ⟨.inr (.inl rfl), fun _ h => (isEntryName_deepEntry h).1.isName.1, fun _ h => (isEntryName_deepEntry h).1.noSlash⟩

theorem straight_deepEntry : deepFiles.Straight (deepEntry deepLast).toText (deepWay 16) deepLast := by
  have habsolute : Path.isAbsolute (deepEntry deepLast).toText = true := by rw [tidy_deepEntry.isAbsolute_toText]; rfl
  obtain ⟨empties, hempty, hs⟩ := tidy_deepEntry.splitOn_toText (by simp [deepEntry])
  have hskip : empties.filter FilePath.isPart = [] := List.filter_eq_nil_iff.2 fun e he => by
    rw [hempty e he]
    decide
  refine ⟨⟨empties ++ deepWay 16, by rw [hs, deepEntry, List.append_assoc], ?_⟩, ?_, isEntryName_deepLast.1.isName,
    ⟨_, get?_deepFiles (by decide)⟩, .inl habsolute, ?_⟩
  · rw [origin, if_pos habsolute]
    refine follows_filter.1 ?_
    rw [List.filter_append, hskip, List.nil_append]
    exact follows_filter.2 (reaches_deepWay (by decide))
  · rw [Path.Downward, tidy_deepEntry.names_toText]
    exact fun _ h => (isEntryName_deepEntry h).1.isName.2
  · exact isSendable_toText isSendable_slash fun _ h => (isEntryName_deepEntry h).2

/-- Nothing stands at the path, and moving it aside fails for another reason. -/
theorem moveAside_too_long : deepFiles.Sound ∧ deepFiles.Straight (deepEntry deepLast).toText (deepWay 16) deepLast ∧
    byteLength deepLast ≤ 217 ∧ (Text.hex 32 ((serving [] deepFiles).identifiers + 1)).length = 32 ∧
      deepFiles.get? (child (deepWay 16) (nextName (serving [] deepFiles) deepLast)) = none ∧
        deepFiles.get? (child (deepWay 16) deepLast) = none ∧ byteLength (deepEntry deepLast).toText < pathLimit ∧
          ∃ e, exec (moveAside (deepEntry deepLast).toText) (serving [] deepFiles) = (.error e, counted (serving [] deepFiles)) := by
  have hsend := isEntryName_deepLast.2
  have hlength : byteLength deepLast = 60 := by decide
  have hdigits : (Text.hex 32 ((serving [] deepFiles).identifiers + 1)).length = 32 := by decide
  have hroom : byteLength (deepEntry deepLast).toText < pathLimit := by
    rw [byteLength_deepEntry hsend, hlength]
    decide
  have hlong : pathLimit ≤ byteLength (nextAside (serving [] deepFiles) (deepEntry deepLast).toText) := by
    obtain ⟨hnext, hnextLength⟩ := sendable_nextName (m := serving [] deepFiles) hsend
    have hbeside : (FilePath.ofText (deepEntry deepLast).toText).beside (nextName (serving [] deepFiles) deepLast) =
        deepEntry (nextName (serving [] deepFiles) deepLast) := by
      rw [tidy_deepEntry.ofText_toText, FilePath.beside, deepEntry, deepEntry, List.dropLast_concat]
    rw [nextAside_eq (m := serving [] deepFiles) straight_deepEntry, hbeside, byteLength_deepEntry hnext, hnextLength, hlength, hdigits]
    decide
  exact ⟨sound_deepFiles, straight_deepEntry, by decide, hdigits, get?_deepEntry _, get?_deepEntry _, hroom, _,
    moveAside_long straight_deepEntry hroom hlong⟩

end

end Action

end Prebuilt
