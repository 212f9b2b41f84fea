import Prebuilt.Proofs.Files.Contents
import Prebuilt.Proofs.Files.Paths
import Prebuilt.Proofs.Text.Names
/-!
Where the components of a path lead. `Leads` follows links and nothing else: a component that is not there is gone
through as it stands, so where a path leads depends on the links alone. `Reaches` is the same for a path whose every
component is there. What `walk` finds is what these two relations say.
-/
set_option autoImplicit false

namespace Prebuilt.FileSystem

variable {fs fs' : FileSystem} {pass pass' : Location → Text → Prop} {d d' l l' : Location}
  {a b parts rest : List Text} {part target : Text} {m n k : Nat}

/-- A component that is the name of something. -/
def IsName (part : Text) : Prop := FilePath.isPart part = true ∧ part ≠ ".."

def IsDir (fs : FileSystem) (l : Location) : Prop := ∃ mode, fs.get? l = some (.directory mode)

def IsLink (fs : FileSystem) (l : Location) : Prop := ∃ target, fs.get? l = some (.link target)

/-- A name as it stands in a directory. -/
structure IsEntryName (name : Name) : Prop where
  isName : IsName name
  noSlash : CodePoint.char '/' ∉ name
  canonical : Name.canonical name = name
  short : byteLength name ≤ nameLimit

/-- Where the target of a link in a directory starts from. -/
def linkStart (d : Location) (target : Text) : Location := if Path.isAbsolute target then [] else d

/-- The location a name stands for in a directory. -/
def child (d : Location) (part : Text) : Location := d ++ [Name.canonical part]

/-- A location that a path may make something at. -/
def Nameable (l : Location) : Prop :=
  ∃ d part, l = child d part ∧ IsName part ∧ CodePoint.char '/' ∉ part ∧ byteLength part ≤ nameLimit

/-- Components lead from a directory to a location, through so many links; each name has to pass. -/
inductive Follows (fs : FileSystem) (pass : Location → Text → Prop) : Nat → Location → List Text → Location → Prop
  | nil (d : Location) : Follows fs pass 0 d [] d
  | skip {n : Nat} {d l : Location} {part : Text} {rest : List Text} :
      FilePath.isPart part = false → Follows fs pass n d rest l → Follows fs pass n d (part :: rest) l
  | up {n : Nat} {d l : Location} {part : Text} {rest : List Text} :
      part = ".." → Follows fs pass n d.dropLast rest l → Follows fs pass n d (part :: rest) l
  | step {n : Nat} {d l : Location} {part : Text} {rest : List Text} :
      IsName part → pass d part → ¬ fs.IsLink (child d part) →
      Follows fs pass n (child d part) rest l → Follows fs pass n d (part :: rest) l
  | link {n : Nat} {d l : Location} {part target : Text} {rest : List Text} :
      IsName part → pass d part → fs.get? (child d part) = some (.link target) →
      Follows fs pass n (linkStart d target) (Path.names target ++ rest) l → Follows fs pass (n + 1) d (part :: rest) l

/-- A name passes if the system takes it, whether or not it is there. -/
abbrev Leads (fs : FileSystem) : Nat → Location → List Text → Location → Prop :=
  Follows fs fun _ part => byteLength part ≤ nameLimit

/-- A name the system takes, of a directory or a link that is there. -/
def CanEnter (fs : FileSystem) (d : Location) (part : Text) : Prop :=
  byteLength part ≤ nameLimit ∧ (fs.IsDir (child d part) ∨ fs.IsLink (child d part))

abbrev Reaches (fs : FileSystem) : Nat → Location → List Text → Location → Prop := Follows fs fs.CanEnter

theorem isPart_dots : FilePath.isPart ".." = true := by decide

theorem not_isPart_iff : FilePath.isPart part = false ↔ part.isEmpty ∨ part = "." := by
  simp [FilePath.isPart]
  tauto

theorem not_isPart_dots (h : FilePath.isPart part = false) : part ≠ ".." := by
  rintro rfl
  rw [isPart_dots] at h
  cases h

theorem not_isDir_of_isLink (h : fs.IsLink l) : ¬ fs.IsDir l := by
  obtain ⟨target, ht⟩ := h
  rintro ⟨mode, hm⟩
  rw [ht] at hm
  cases hm

theorem IsName.canonical (h : IsName part) : IsName (Name.canonical part) := by
  obtain ⟨hpart, hup⟩ := h
  obtain ⟨hne, hdot⟩ := FilePath.isPart_iff.1 hpart
  refine ⟨FilePath.isPart_iff.2 ⟨fun he => hne ?_, fun he => hdot ?_⟩, fun he => hup ?_⟩
  · exact Name.eq_of_canonical_eq (show Utf8.encodeName [] = .ok [] from rfl) (by simp) he
  · exact Name.eq_of_canonical_eq (show Utf8.encodeName [CodePoint.char '.'] = .ok [0x2E] from rfl) (by simp) he
  · exact Name.eq_of_canonical_eq
      (show Utf8.encodeName [CodePoint.char '.', CodePoint.char '.'] = .ok [0x2E, 0x2E] from rfl) (by simp) he

theorem isEntryName_canonical (h : IsName part) (hslash : CodePoint.char '/' ∉ part) (hlen : byteLength part ≤ nameLimit) :
    IsEntryName (Name.canonical part) where
  isName := h.canonical
  noSlash := Name.slash_mem_canonical.not.2 hslash
  canonical := Name.canonical_canonical part
  short := by rwa [Name.byteLength_canonical]

/-! ## Composition -/

theorem Follows.mono (hpass : ∀ d part, pass d part → pass' d part) (h : fs.Follows pass n d parts l) :
    fs.Follows pass' n d parts l := by
  induction h with
  | nil d => exact .nil d
  | skip hp _ ih => exact .skip hp ih
  | up hp _ ih => exact .up hp ih
  | step hp ho hl _ ih => exact .step hp (hpass _ _ ho) hl ih
  | link hp ho hl _ ih => exact .link hp (hpass _ _ ho) hl ih

theorem Follows.leads (h : fs.Reaches n d parts l) : fs.Leads n d parts l := h.mono fun _ _ ho => ho.1

theorem Follows.append (h : fs.Follows pass n d a d') (h' : fs.Follows pass m d' b l) :
    fs.Follows pass (n + m) d (a ++ b) l := by
  induction h with
  | nil d => simpa using h'
  | skip hp _ ih => exact .skip hp (ih h')
  | up hp _ ih => exact .up hp (ih h')
  | step hp ho hl _ ih => exact .step hp ho hl (ih h')
  | link hp ho hl _ ih =>
    rw [Nat.add_right_comm]
    exact .link hp ho hl (by simpa [List.append_assoc] using ih h')

theorem Follows.split (h : fs.Follows pass n d (a ++ b) l) :
    ∃ d' n₁ n₂, fs.Follows pass n₁ d a d' ∧ fs.Follows pass n₂ d' b l ∧ n = n₁ + n₂ := by
  generalize hp : a ++ b = parts at h
  induction h generalizing a with
  | nil d =>
    obtain ⟨rfl, rfl⟩ := List.append_eq_nil_iff.1 hp
    exact ⟨d, 0, 0, .nil d, .nil d, rfl⟩
  | @skip n d l part rest hpart h ih =>
    cases a with
    | nil =>
      obtain rfl : b = part :: rest := hp
      exact ⟨d, 0, n, .nil d, .skip hpart h, by simp⟩
    | cons c r =>
      obtain ⟨rfl, hr⟩ := List.cons_eq_cons.1 hp
      obtain ⟨d', n₁, n₂, h₁, h₂, hn⟩ := ih hr
      exact ⟨d', n₁, n₂, .skip hpart h₁, h₂, hn⟩
  | @up n d l part rest hpart h ih =>
    cases a with
    | nil =>
      obtain rfl : b = part :: rest := hp
      exact ⟨d, 0, n, .nil d, .up hpart h, by simp⟩
    | cons c r =>
      obtain ⟨rfl, hr⟩ := List.cons_eq_cons.1 hp
      obtain ⟨d', n₁, n₂, h₁, h₂, hn⟩ := ih hr
      exact ⟨d', n₁, n₂, .up hpart h₁, h₂, hn⟩
  | @step n d l part rest hpart ho hl h ih =>
    cases a with
    | nil =>
      obtain rfl : b = part :: rest := hp
      exact ⟨d, 0, n, .nil d, .step hpart ho hl h, by simp⟩
    | cons c r =>
      obtain ⟨rfl, hr⟩ := List.cons_eq_cons.1 hp
      obtain ⟨d', n₁, n₂, h₁, h₂, hn⟩ := ih hr
      exact ⟨d', n₁, n₂, .step hpart ho hl h₁, h₂, hn⟩
  | @link n d l part target rest hpart ho hl h ih =>
    cases a with
    | nil =>
      obtain rfl : b = part :: rest := hp
      exact ⟨d, 0, n + 1, .nil d, .link hpart ho hl h, by simp⟩
    | cons c r =>
      obtain ⟨rfl, hr⟩ := List.cons_eq_cons.1 hp
      obtain ⟨d', n₁, n₂, h₁, h₂, hn⟩ := ih (a := Path.names target ++ r) (by rw [List.append_assoc]; exact congrArg _ hr)
      exact ⟨d', n₁ + 1, n₂, .link hpart ho hl h₁, h₂, by omega⟩

/-- Components lead to one location only. -/
theorem Follows.deterministic (h : fs.Follows pass n d parts l) (h' : fs.Follows pass' m d parts l') :
    n = m ∧ l = l' := by
  induction h generalizing m with
  | nil d =>
    cases h'
    exact ⟨rfl, rfl⟩
  | skip hp _ ih =>
    cases h' with
    | skip _ h' => exact ih h'
    | up hu _ => exact absurd hu (not_isPart_dots hp)
    | step hn _ _ _ => simp [hn.1] at hp
    | link hn _ _ _ => simp [hn.1] at hp
  | up hu _ ih =>
    cases h' with
    | skip hp _ => exact absurd hu (not_isPart_dots hp)
    | up _ h' => exact ih h'
    | step hn _ _ _ => exact absurd hu hn.2
    | link hn _ _ _ => exact absurd hu hn.2
  | step hn _ hl _ ih =>
    cases h' with
    | skip hp _ => simp [hn.1] at hp
    | up hu _ => exact absurd hu hn.2
    | step _ _ _ h' => exact ih h'
    | link _ _ hl' _ => exact absurd ⟨_, hl'⟩ hl
  | link hn _ hl _ ih =>
    cases h' with
    | skip hp _ => simp [hn.1] at hp
    | up hu _ => exact absurd hu hn.2
    | step _ _ hl' _ => exact absurd ⟨_, hl⟩ hl'
    | link _ _ hl' h' =>
      rw [hl] at hl'
      cases hl'
      obtain ⟨rfl, rfl⟩ := ih h'
      exact ⟨rfl, rfl⟩

theorem filter_names (target : Text) : (Path.names target).filter FilePath.isPart = Path.names target :=
  List.filter_eq_self.2 fun _ h => Path.isPart_of_mem_names h

/-- Components without effect may be left out or put in. -/
theorem follows_filter : fs.Follows pass n d (parts.filter FilePath.isPart) l ↔ fs.Follows pass n d parts l := by
  constructor
  · intro h
    induction parts generalizing n d with
    | nil => exact h
    | cons part rest ih =>
      by_cases hp : FilePath.isPart part = true
      · rw [List.filter_cons_of_pos hp] at h
        cases h with
        | skip hp' _ => rw [hp] at hp'; cases hp'
        | up hu h => exact .up hu (ih h)
        | step hn ho hl h => exact .step hn ho hl (ih h)
        | link hn ho hl h =>
          obtain ⟨d', n₁, n₂, h₁, h₂, rfl⟩ := h.split
          exact .link hn ho hl (h₁.append (ih h₂))
      · rw [List.filter_cons_of_neg hp] at h
        exact .skip (by simpa using hp) (ih h)
  · intro h
    induction h with
    | nil d => exact .nil d
    | skip hp _ ih => simpa [hp] using ih
    | @up _ _ _ part rest hu _ ih =>
      have hp : FilePath.isPart part = true := hu ▸ isPart_dots
      simpa [hp] using Follows.up hu ih
    | step hn ho hl _ ih => simpa [hn.1] using Follows.step hn ho hl ih
    | link hn ho hl _ ih =>
      rw [List.filter_cons_of_pos hn.1]
      exact .link hn ho hl (by simpa [filter_names] using ih)

theorem follows_splitOn {path : Text} :
    fs.Follows pass n d (Text.splitOn '/' path ++ rest) l ↔ fs.Follows pass n d (Path.names path ++ rest) l := by
  have h : fs.Follows pass n d ((Path.names path ++ rest).filter FilePath.isPart) l ↔
      fs.Follows pass n d (Path.names path ++ rest) l := follows_filter
  rw [← h, ← follows_filter, List.filter_append, List.filter_append, filter_names]
  rfl

/-! ## Names only -/

theorem child_ne_nil : child d part ≠ [] := by simp [child]

/-- Where names without links lead: straight down. -/
def descend (d : Location) (parts : List Text) : Location := d ++ parts.map Name.canonical

theorem descend_cons : descend d (part :: rest) = descend (child d part) rest := by simp [descend, child]

/-- Names lead straight down from a directory that no link lies beneath. -/
theorem Follows.eq_descend (hlinks : ∀ l, d <+: l → ¬ fs.IsLink l) (hnames : ∀ part ∈ parts, part ≠ "..")
    (h : fs.Follows pass n d parts l) : l = descend d (parts.filter FilePath.isPart) := by
  induction h with
  | nil d => simp [descend]
  | skip hp _ ih => rw [List.filter_cons_of_neg (by simp [hp]), ih hlinks fun p hm => hnames p (by simp [hm])]
  | up hu _ _ => exact absurd hu (hnames _ (by simp))
  | step hn _ _ _ ih =>
    rw [List.filter_cons_of_pos hn.1, descend_cons]
    refine ih (fun l hl => hlinks l ?_) fun p hm => hnames p (by simp [hm])
    exact (List.prefix_append ..).trans hl
  | link hn _ hl _ _ => exact absurd ⟨_, hl⟩ (hlinks _ (List.prefix_append ..))

/-- No link leads up. -/
def LinksDownward (fs : FileSystem) : Prop := ∀ l target, fs.get? l = some (.link target) → Path.Downward target

/-! ## Other file systems -/

/-- The same links. -/
def SameLinks (fs fs' : FileSystem) : Prop := ∀ l target, fs.get? l = some (.link target) ↔ fs'.get? l = some (.link target)

theorem SameLinks.trans {fs'' : FileSystem} (h : fs.SameLinks fs') (h' : fs'.SameLinks fs'') : fs.SameLinks fs'' :=
  fun l target => (h l target).trans (h' l target)

theorem SameLinks.isLink_iff (h : fs.SameLinks fs') : fs.IsLink l ↔ fs'.IsLink l := exists_congr fun target => h l target

/-- Where components lead depends on the links alone. -/
theorem Follows.of_sameLinks (hlinks : fs.SameLinks fs') (h : fs.Leads n d parts l) : fs'.Leads n d parts l := by
  induction h with
  | nil d => exact .nil d
  | skip hp _ ih => exact .skip hp ih
  | up hp _ ih => exact .up hp ih
  | step hp ho hl _ ih => exact .step hp ho (hlinks.isLink_iff.not.1 hl) ih
  | link hp ho hl _ ih => exact .link hp ho ((hlinks _ _).1 hl) ih

/-- Every directory and every link is still there, and relative paths start where they did. -/
structure Extends (fs fs' : FileSystem) : Prop where
  dir : ∀ l, fs.IsDir l → fs'.IsDir l
  link : ∀ l target, fs.get? l = some (.link target) → fs'.get? l = some (.link target)
  cwd : fs.IsDir fs.workingDirectory → fs'.workingDirectory = fs.workingDirectory

theorem Extends.refl (fs : FileSystem) : fs.Extends fs := ⟨fun _ h => h, fun _ _ h => h, fun _ => rfl⟩

theorem Extends.trans {fs'' : FileSystem} (h : fs.Extends fs') (h' : fs'.Extends fs'') : fs.Extends fs'' where
  dir l hl := h'.dir l (h.dir l hl)
  link l t hl := h'.link l t (h.link l t hl)
  cwd hd := by
    have hcwd := h.cwd hd
    rw [h'.cwd (hcwd ▸ h.dir _ hd), hcwd]

theorem CanEnter.isDir (h : fs.CanEnter d part) (hl : ¬ fs.IsLink (child d part)) : fs.IsDir (child d part) :=
  h.2.resolve_right hl

/-- From the directory on, the components lead through the link. -/
inductive Crosses (fs : FileSystem) (l : Location) : Location → List Text → Prop
  | here {d : Location} {part : Text} {rest : List Text} :
      IsName part → child d part = l → fs.IsLink l → Crosses fs l d (part :: rest)
  | skip {d : Location} {part : Text} {rest : List Text} :
      FilePath.isPart part = false → Crosses fs l d rest → Crosses fs l d (part :: rest)
  | up {d : Location} {part : Text} {rest : List Text} :
      part = ".." → Crosses fs l d.dropLast rest → Crosses fs l d (part :: rest)
  | step {d : Location} {part : Text} {rest : List Text} :
      IsName part → ¬ fs.IsLink (child d part) → Crosses fs l (child d part) rest → Crosses fs l d (part :: rest)
  | link {d : Location} {part target : Text} {rest : List Text} :
      IsName part → fs.get? (child d part) = some (.link target) →
      Crosses fs l (linkStart d target) (Path.names target ++ rest) → Crosses fs l d (part :: rest)

theorem Crosses.isLink (h : fs.Crosses l d parts) : fs.IsLink l := by
  induction h with
  | here _ _ hl => exact hl
  | skip _ _ ih => exact ih
  | up _ _ ih => exact ih
  | step _ _ _ ih => exact ih
  | link _ _ _ ih => exact ih

theorem Crosses.append (h : fs.Crosses l d a) (b : List Text) : fs.Crosses l d (a ++ b) := by
  induction h with
  | here hp hc hl => exact .here hp hc hl
  | skip hp _ ih => exact .skip hp ih
  | up hp _ ih => exact .up hp ih
  | step hp hl _ ih => exact .step hp hl ih
  | link hp hl _ ih =>
    rw [List.append_assoc] at ih
    exact .link hp hl ih

/-- What is reached is reached where the directories last and the links on the way are what they were. -/
theorem Follows.of_kept (hdirs : ∀ l, fs.IsDir l → fs'.IsDir l) (hlinks : ∀ l, fs.Crosses l d parts → fs'.get? l = fs.get? l)
    (h : fs.Reaches n d parts l) : fs'.Reaches n d parts l := by
  induction h with
  | nil d => exact .nil d
  | skip hp _ ih => exact .skip hp (ih fun l hl => hlinks l (.skip hp hl))
  | up hp _ ih => exact .up hp (ih fun l hl => hlinks l (.up hp hl))
  | step hp ho hl _ ih =>
    have hd := hdirs _ (ho.isDir hl)
    exact .step hp ⟨ho.1, .inl hd⟩ (not_isDir_of_isLink.mt (not_not.2 hd)) (ih fun l hc => hlinks l (.step hp hl hc))
  | link hp ho hl _ ih =>
    have ht := (hlinks _ (.here hp rfl ⟨_, hl⟩)).trans hl
    exact .link hp ⟨ho.1, .inr ⟨_, ht⟩⟩ ht (ih fun l hc => hlinks l (.link hp hl hc))

theorem Extends.get?_of_crosses (hext : fs.Extends fs') (h : fs.Crosses l d parts) : fs'.get? l = fs.get? l := by
  obtain ⟨target, ht⟩ := h.isLink
  rw [hext.link _ _ ht, ht]

theorem Follows.of_extends (hext : fs.Extends fs') (h : fs.Reaches n d parts l) : fs'.Reaches n d parts l :=
  h.of_kept hext.dir fun _ hl => hext.get?_of_crosses hl

end Prebuilt.FileSystem
