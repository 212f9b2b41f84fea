import Prebuilt.Proofs.Install.Recognising
import Prebuilt.Proofs.Install.Serving
/-!
Asking for the files of a name. In a tree of files and directories whose paths are short enough to be asked about, every question
of a search has an answer, and the first file that it finds is the first in the order of paths.
-/
set_option autoImplicit false

namespace Prebuilt

open FileSystem Action FilePath

variable {m m' : Machine} {fs : FileSystem} {p : FilePath} {s d l : Location} {names below : List Text} {name binary : Text}

/-! ## What short paths lead to -/

namespace FileSystem

/-- Short names lead to what is there or to nothing, where no link is on the way. -/
theorem walk_plain (links : Nat) (hroot : fs.Rooted) (hlinks : ∀ l, d <+: l → ¬ fs.IsLink l) (hnames : ∀ part ∈ names, IsName part)
    (hshort : ∀ part ∈ names, byteLength part ≤ nameLimit) (hne : names ≠ []) :
    (∃ node, fs.get? (descend d names) = some node ∧ fs.walk .target links d names = .ok (.taken (descend d names) node)) ∨
      fs.get? (descend d names) = none ∧ ((∃ above free, fs.walk .target links d names = .ok (.free above free)) ∨
        ∃ e, fs.walk .target links d names = .error e ∧ meansAbsent e = true) := by
  induction names generalizing d with
  | nil => exact absurd rfl hne
  | cons part rest ih =>
    obtain ⟨hpart, hnames⟩ := List.forall_mem_cons.1 hnames
    obtain ⟨hlen, hshort⟩ := List.forall_mem_cons.1 hshort
    have hlink : ¬ fs.IsLink (child d part) := hlinks _ (List.prefix_append ..)
    cases rest with
    | nil =>
      rw [walk_last hpart, if_neg (Nat.not_lt.2 hlen), show descend d [part] = child d part from rfl]
      cases hg : fs.get? (child d part) with
      | none => exact .inr ⟨rfl, .inl ⟨_, _, rfl⟩⟩
      | some node =>
        cases node with
        | link target => exact absurd ⟨target, hg⟩ hlink
        | _ => exact .inl ⟨_, rfl, rfl⟩
    | cons next more =>
      have habsent (hnot : ¬ fs.IsDir (child d part)) : fs.get? (descend (child d part) (next :: more)) = none := by
        by_contra hthere
        exact hnot (hroot.isDir_of_below (List.prefix_append ..) (by simp) hthere)
      rw [walk_name hpart (continues_cons (hnames next (by simp))), if_neg (Nat.not_lt.2 hlen), descend_cons]
      cases hg : fs.get? (child d part) with
      | none => exact .inr ⟨habsent fun ⟨mode, hmode⟩ => by simp [hg] at hmode, .inr ⟨_, rfl, rfl⟩⟩
      | some node =>
        cases node with
        | directory mode => exact ih (fun l hl => hlinks l ((List.prefix_append ..).trans hl)) hnames hshort (by simp)
        | link target => exact absurd ⟨target, hg⟩ hlink
        | _ => exact .inr ⟨habsent fun ⟨mode, hmode⟩ => by simp [hg] at hmode, .inr ⟨_, rfl, rfl⟩⟩

theorem Reached.start_under (h : fs.Reached p s) (hsteps : ∀ part ∈ names, IsStep part)
    (hroom : byteLength (p.under names).toText < pathLimit) :
    fs.start (p.under names).toText = .ok (fs.origin (p.under names).toText) := by
  obtain ⟨-, -, hstart, -⟩ := h.reaches
  have hstart' : Path.isAbsolute (p.under names).toText = true ∨ fs.IsDir fs.workingDirectory := by
    rw [h.tidy.isAbsolute_under hsteps]
    have hdir := (start_ok hstart).2
    by_cases habs : Path.isAbsolute p.toText = true
    · exact .inl habs
    · rw [origin, if_neg habs] at hdir
      exact .inr hdir
  rw [start_cases (toText_ne_nil _) hstart', if_neg (Nat.not_le.2 hroom)]

/-- A short path addresses a place in the directory, be something there or not. -/
theorem Reached.addresses_name (h : fs.Reached p s) (hname : IsComponent name) (hshort : byteLength name ≤ nameLimit)
    (hroom : byteLength (p.under [name]).toText < pathLimit) : fs.Addresses (p.under [name]).toText (child s name) := by
  have hsteps : ∀ part ∈ [name], IsStep part := by simpa using hname.isStep
  obtain ⟨front, n, hsplit, hn, hreach⟩ := h.splitOn_under hsteps
  exact .intro hsplit hname.isName hshort (h.start_under hsteps hroom) hn hreach h.isDir

/-- A short path beneath the directory leads to what is where its names lead, or to nothing. -/
theorem Reached.status_short (h : fs.Reached p s) (hnames : ∀ part ∈ names, IsComponent part)
    (hshort : ∀ part ∈ names, byteLength part ≤ nameLimit) (hne : names ≠ [])
    (hroom : byteLength (p.under names).toText < pathLimit) :
    (∃ node, fs.get? (descend s names) = some node ∧ fs.status (p.under names).toText true = .ok (descend s names, node)) ∨
      fs.get? (descend s names) = none ∧ ∃ e, fs.status (p.under names).toText true = .error e ∧ meansAbsent e = true := by
  have hsteps : ∀ name ∈ names, IsStep name := fun name hname => (hnames name hname).isStep
  obtain ⟨front, n, hsplit, hn, hreach⟩ := h.splitOn_under hsteps
  obtain ⟨name, more, rfl⟩ := List.exists_cons_of_ne_nil hne
  have hcontinues : Continues .target (name :: more) := continues_cons (hnames name (by simp)).isName
  simp only [FileSystem.status, if_true, FileSystem.place, h.start_under hsteps hroom, bind, Except.bind, hsplit,
    walk_append_of_reaches hcontinues hreach hn]
  rcases walk_plain (linkLimit - n) h.rooted h.noLink (fun part hpart => (hnames part hpart).isName) hshort (by simp) with
    ⟨node, hg, hwalk⟩ | ⟨hnone, ⟨above, free, hwalk⟩ | ⟨e, hwalk, habsent⟩⟩
  · exact .inl ⟨node, hg, by rw [hwalk]⟩
  · exact .inr ⟨hnone, .noEntry, by rw [hwalk], rfl⟩
  · exact .inr ⟨hnone, e, by rw [hwalk], habsent⟩

/-- It tells what is there. -/
theorem Reached.node?_under (h : fs.Reached p s) (hnames : ∀ part ∈ names, IsComponent part)
    (hshort : ∀ part ∈ names, byteLength part ≤ nameLimit) (hne : names ≠ [])
    (hroom : byteLength (p.under names).toText < pathLimit) : fs.node? (p.under names).toText = .ok (fs.get? (descend s names)) ∧
      fs.status (p.under names).toText true ≠ .error .nameTooLong := by
  rw [FileSystem.node?]
  rcases h.status_short hnames hshort hne hroom with ⟨node, hg, hstatus⟩ | ⟨hnone, e, hstatus, habsent⟩
  · rw [hstatus, hg]
    refine ⟨rfl, fun he => ?_⟩
    cases he
  · rw [hstatus, hnone]
    refine ⟨if_pos habsent, fun he => ?_⟩
    rw [Except.error.inj he] at habsent
    cases habsent

end FileSystem

/-! ## Files of a name -/

theorem isSendable_of_canonical (h : IsSendable (Name.canonical name)) : IsSendable name := by
  obtain ⟨bytes, hbytes, hzero⟩ := h
  rcases Name.encodeName_canonical name with hc | hc
  · exact ⟨bytes, hc ▸ hbytes, hzero⟩
  · exact ⟨bytes, hc ▸ hbytes, hzero⟩

namespace FileSystem

/-- All that is asked in a search for the binary has an answer: in each directory its names can be asked for, and what is there has
names that the system can be given. -/
structure Answers (fs : FileSystem) (p : FilePath) (s : Location) (binary : Text) : Prop where
  reached : fs.Reached p s
  sound : fs.Sound
  sendable : IsSendable p.toText
  named : ∀ l, s <+: l → fs.get? l ≠ none → ∀ part ∈ l.drop s.length, IsSendable part
  component : IsComponent binary
  short : byteLength binary ≤ 251
  roomy : ∀ below ∈ fs.directoriesBelow s, ∀ name ∈ binaryNames binary, byteLength (p.under (below ++ [name])).toText < pathLimit

/-- A file of the name stands in a directory beneath the top, or at the top. -/
def HasFile (fs : FileSystem) (s : Location) (below : List Name) (name : Text) : Prop := fs.IsFile (child (s ++ below) name)

/-- Of all files of the name this is the one whose path comes first, component by component. -/
def IsFirst (fs : FileSystem) (s : Location) (name : Text) (below : List Name) : Prop :=
  fs.HasFile s below name ∧ ∀ other, fs.HasFile s other name → search.le (below ++ [name]) (other ++ [name]) = true

theorem search_le_antisymm {a b : List Text} (h : search.le a b = true) (h' : search.le b a = true) : a = b := by
  induction a generalizing b with
  | nil =>
    cases b with
    | nil => rfl
    | cons y t => cases h'
  | cons x r ih =>
    cases b with
    | nil => cases h
    | cons y t =>
      by_cases hxy : x = y
      · subst hxy
        rw [ih (by simpa [search.le] using h) (by simpa [search.le] using h')]
      · simp only [search.le, if_neg hxy, if_neg (Ne.symm hxy)] at h h'
        exact absurd (Text.le_antisymm h h') hxy

/-- There is only one that comes first. -/
theorem IsFirst.unique {other : List Name} (h : fs.IsFirst s name below) (h' : fs.IsFirst s name other) : below = other :=
  List.append_inj_left' (search_le_antisymm (h.2 _ h'.1) (h'.2 _ h.1)) rfl

theorem get?_of_mem_directoriesBelow (hdir : fs.IsDir s) (h : below ∈ fs.directoriesBelow s) : fs.get? (s ++ below) ≠ none := by
  rcases List.mem_cons.1 h with rfl | h
  · obtain ⟨mode, hg⟩ := hdir
    simp [hg]
  · obtain ⟨⟨l, node⟩, hmem, hl⟩ := List.mem_filterMap.1 h
    simp only [Option.ite_none_right_eq_some, Option.some.injEq, Bool.and_eq_true, List.isPrefixOf_iff_prefix, bne_iff_ne] at hl
    obtain ⟨⟨⟨-, rest, rfl⟩, hne⟩, rfl⟩ := hl
    rw [List.drop_left]
    refine get?_ne_none_of_mem ?_ hmem
    rintro he
    obtain ⟨rfl, rfl⟩ := List.append_eq_nil_iff.1 he
    exact hne rfl

variable (h : fs.Answers p s binary)

include h

theorem Answers.component_of_mem (hname : name ∈ binaryNames binary) : IsComponent name := by
  have hslash := slash_not_mem_binaryNames h.component.noSlash name hname
  rcases List.mem_cons.1 hname with rfl | hname
  · exact h.component
  · rw [List.mem_singleton.1 hname] at hslash ⊢
    have hlong : 5 ≤ (binary ++ Installation.executableSuffix).length := by
      have hne : binary ≠ [] := (isPart_iff.1 h.component.isName.1).1
      have hpos := List.length_pos_iff.2 hne
      rw [List.length_append, show Installation.executableSuffix.length = 4 from rfl]
      omega
    refine ⟨⟨isPart_iff.2 ⟨?_, ?_⟩, ?_⟩, hslash⟩ <;> intro he <;> rw [he] at hlong <;> exact absurd hlong (by decide)

theorem Answers.short_of_mem (hname : name ∈ binaryNames binary) : byteLength name ≤ nameLimit := by
  have hshort := h.short
  rcases List.mem_cons.1 hname with rfl | hname
  · exact hshort.trans (by decide)
  · rw [List.mem_singleton.1 hname]
    cases hencode : Utf8.encodeName (binary ++ Installation.executableSuffix) with
    | error e => simp [byteLength, hencode]
    | ok bytes =>
      obtain ⟨x, y, hx, hy, rfl⟩ := Utf8.encodeFrom_append.1 hencode
      have hsuffix : Utf8.encodeName Installation.executableSuffix = .ok [46, 101, 120, 101] := by decide
      cases hy.symm.trans hsuffix
      rw [byteLength_of_ok hx] at hshort
      rw [byteLength_of_ok hencode, List.length_append]
      exact Nat.add_le_add hshort (Nat.le_refl 4)

theorem Answers.isEntryName (hthere : fs.get? (s ++ below) ≠ none) : ∀ part ∈ below, IsEntryName part :=
  fun part hpart => h.sound.named _ hthere part (by simp [hpart])

theorem Answers.descend (hthere : fs.get? (s ++ below) ≠ none) : FileSystem.descend s (below ++ [name]) = child (s ++ below) name := by
  rw [descend_concat, descend_of_isEntryName (h.isEntryName hthere)]

theorem Answers.sendable_under (hthere : fs.get? (s ++ below) ≠ none) (hname : IsComponent name)
    (hsend : IsSendable name) : IsSendable (p.under (below ++ [name])).toText := by
  have hbelow := h.isEntryName hthere
  have hsteps : ∀ part ∈ below ++ [name], IsStep part := by
    simpa [or_imp, forall_and, hname.isStep] using fun part hpart => (hbelow part hpart).isComponent.isStep
  rw [h.reached.tidy.toText_under h.reached.parts_ne_nil (by simp) hsteps, isSendable_append, isSendable_append]
  refine ⟨⟨h.sendable, isSendable_slash⟩, isSendable_joinWith_iff.2 ?_⟩
  have hnamed := h.named _ (List.prefix_append s below) hthere
  rw [List.drop_left] at hnamed
  simpa [or_imp, forall_and, hsend] using hnamed

/-- Whether a file of one of the names stands in a directory can be told. -/
theorem Answers.isFile (hm : m.files = fs) (hin : below ∈ fs.directoriesBelow s) (hname : name ∈ binaryNames binary) :
    ∃ b, exec (isFileAt (p.under (below ++ [name]))) m = (.ok b, m) ∧ (b = true ↔ fs.HasFile s below name) := by
  have hthere := get?_of_mem_directoriesBelow h.reached.isDir hin
  have hcomponent := h.component_of_mem hname
  have hbelow := h.isEntryName hthere
  have hcomponents : ∀ part ∈ below ++ [name], IsComponent part := by
    simpa [or_imp, forall_and, hcomponent] using fun part hpart => (hbelow part hpart).isComponent
  have hshort : ∀ part ∈ below ++ [name], byteLength part ≤ nameLimit := by
    simpa [or_imp, forall_and, h.short_of_mem hname] using fun part hpart => (hbelow part hpart).short
  obtain ⟨hnode, hlong⟩ := h.reached.node?_under hcomponents hshort (by simp) (h.roomy below hin name hname)
  obtain ⟨b, hb, hshows⟩ := isFile_decides (m := m) (by rwa [hm])
  refine ⟨b, hb, hshows.trans ?_⟩
  rw [hm, Shows, hnode, h.descend hthere]
  constructor
  · rintro ⟨-, node, hg, hfile⟩
    exact ⟨node, Except.ok.inj hg, hfile⟩
  · rintro ⟨node, hg, hfile⟩
    refine ⟨h.sendable_under hthere hcomponent (isSendable_of_canonical ?_), node, congrArg _ hg, hfile⟩
    have hnamed := h.named (child (s ++ below) name) ((List.prefix_append ..).trans (List.prefix_append ..)) (by simp [hg])
    exact hnamed _ (by simp [child])

end FileSystem

/-! ## The first of several -/

namespace Action

/-- A search whose questions all have an answer gives the first item that is answered with yes. -/
theorem findM?_decides {α : Type} {f : α → Action Bool} {P : α → Prop} {items : List α}
    (hf : ∀ a ∈ items, ∃ b, exec (f a) m = (.ok b, m) ∧ (b = true ↔ P a)) :
    exec (items.findM? f) m = (.ok none, m) ∧ (∀ a ∈ items, ¬ P a) ∨
      ∃ before a after, items = before ++ a :: after ∧ exec (items.findM? f) m = (.ok (some a), m) ∧ P a ∧ ∀ x ∈ before, ¬ P x := by
  induction items with
  | nil => exact .inl ⟨rfl, nofun⟩
  | cons a rest ih =>
    obtain ⟨⟨b, hb, ha⟩, hrest⟩ := List.forall_mem_cons.1 hf
    rw [List.findM?, exec_bind_of_ok hb]
    cases b with
    | true => exact .inr ⟨[], a, rest, rfl, rfl, ha.1 rfl, nofun⟩
    | false =>
      have hnot : ¬ P a := fun hP => Bool.false_ne_true (ha.2 hP)
      rcases ih hrest with ⟨he, hall⟩ | ⟨before, x, after, rfl, he, hx, hbefore⟩
      · exact .inl ⟨he, List.forall_mem_cons.2 ⟨hnot, hall⟩⟩
      · exact .inr ⟨a :: before, x, after, rfl, he, hx, List.forall_mem_cons.2 ⟨hnot, hbefore⟩⟩

end Action

/-! ## Searching -/

theorem filterMapM_of_ok {α β : Type} {f : α → Except Error (Option β)} {items : List α} (h : ∀ a ∈ items, ∃ r, f a = .ok r) :
    ∃ found, items.filterMapM f = .ok found := by
  induction items with
  | nil => exact ⟨[], rfl⟩
  | cons a rest ih =>
    obtain ⟨⟨r, hr⟩, hrest⟩ := List.forall_mem_cons.1 h
    obtain ⟨found, hfound⟩ := ih hrest
    rw [List.filterMapM_cons, hr]
    cases r with
    | none => exact ⟨found, hfound⟩
    | some b => exact ⟨b :: found, by simp [hfound, bind, Except.bind, pure, Except.pure]⟩

namespace FileSystem

theorem mem_of_includes {t piece : Text} {c : CodePoint} (hc : c ∈ piece) (h : t.includes piece = true) : c ∈ t := by
  induction t with
  | nil =>
    obtain rfl := List.isEmpty_iff.1 h
    cases hc
  | cons x r ih =>
    rw [Text.includes, Bool.or_eq_true, List.isPrefixOf_iff_prefix] at h
    exact h.elim (fun hprefix => hprefix.subset hc) fun h => List.mem_cons_of_mem x (ih h)

/-- The search for a name without wildcards looks it up in each directory. -/
theorem search_eq (h : fs.Reached p s) (hname : IsComponent name) (hwild : Glob.hasWildcard name = false) :
    fs.search p name = ((fs.directoriesBelow s).filterMapM (fs.named? p name)).map
      (List.mergeSort · fun a b => search.le a.parts b.parts) := by
  obtain ⟨mode, hstatus⟩ := h.status
  have hparts : (ofText name).parts = [name] := Path.names_of_part hname.isName.1 hname.noSlash
  have hstar : Text.includes name "**" = false := by
    by_contra hincludes
    have hpiece : CodePoint.char '*' ∈ ("**" : Text) := by decide
    have hmem : CodePoint.char '*' ∈ name := mem_of_includes hpiece (by simpa using hincludes)
    simp only [Glob.hasWildcard, Text.has, Bool.or_eq_false_iff, List.any_eq_false, beq_iff_eq] at hwild
    exact hwild.1.1 _ hmem rfl
  have hother : name ≠ "**" := by
    rintro rfl
    cases hstar
  have hnamed : (fs.directoriesBelow s).filterMapM (fun below => do
      return if (← fs.node? (p.under (below ++ [name])).toText).isSome then some (p.under (below ++ [name])) else none) =
        (fs.directoriesBelow s).filterMapM (fs.named? p name) := by
    refine congrArg (List.filterMapM · _) ?_
    funext below
    rw [named?]
    cases fs.node? _ <;> rfl
  have hany : (([name] : List Text) != [("**" : Text)] && [name].any (·.includes "**")) = false := by
    show (_ && (name.includes "**" || false)) = false
    rw [hstar, Bool.or_false, Bool.and_false]
  simp only [FileSystem.search, hparts, hstatus, hwild, hany]
  simp only [List.isEmpty_cons, Bool.false_or, decide_eq_true_eq, List.cons.injEq, and_true, hother, if_false, Bool.false_eq_true]
  simp only [FilePath.under] at hnamed
  rw [hnamed]
  cases (fs.directoriesBelow s).filterMapM (fs.named? p name) <;> rfl

variable (h : fs.Answers p s binary)

include h

/-- The search for one of the names gives, in their order, the paths at which something of that name is. -/
theorem Answers.search (hname : name ∈ binaryNames binary) (hwild : Glob.hasWildcard name = false) : ∃ found,
    fs.search p name = .ok found ∧ found.Pairwise (fun a b => search.le a.parts b.parts = true) ∧
      (∀ c ∈ found, ∃ below ∈ fs.directoriesBelow s, c = p.under (below ++ [name])) ∧
      ∀ below, fs.HasFile s below name → p.under (below ++ [name]) ∈ found := by
  have hcomponent := h.component_of_mem hname
  obtain ⟨all, hall⟩ : ∃ all, (fs.directoriesBelow s).filterMapM (fs.named? p name) = .ok all := by
    refine filterMapM_of_ok fun below hbelow => ?_
    have hthere := get?_of_mem_directoriesBelow h.reached.isDir hbelow
    have hentries := h.isEntryName hthere
    have hcomponents : ∀ part ∈ below ++ [name], IsComponent part := by
      simpa [or_imp, forall_and, hcomponent] using fun part hpart => (hentries part hpart).isComponent
    have hshort : ∀ part ∈ below ++ [name], byteLength part ≤ nameLimit := by
      simpa [or_imp, forall_and, h.short_of_mem hname] using fun part hpart => (hentries part hpart).short
    rw [named?, (h.reached.node?_under hcomponents hshort (by simp) (h.roomy below hbelow name hname)).1]
    exact ⟨_, rfl⟩
  have hsearch := search_eq h.reached hcomponent hwild
  rw [hall] at hsearch
  refine ⟨_, hsearch, (search_ok h.sound h.reached hcomponent.noSlash hsearch).1, fun c hc => ?_, fun below hfile => ?_⟩
  · rw [List.mem_mergeSort] at hc
    obtain ⟨below, hmem, hc⟩ := (filterMapM_ok hall).2 c hc
    exact ⟨below, hmem, named?_some hc⟩
  · obtain ⟨node, hg, hisFile⟩ := hfile
    have hthere : fs.get? (s ++ below) ≠ none := by
      have hdir := h.reached.rooted (child (s ++ below) name) (by simp [hg])
      rw [child, List.dropLast_concat] at hdir
      exact hdir.get?_ne_none
    exact search_complete h.reached hcomponent hwild (h.isEntryName hthere) hsearch (by rw [h.descend hthere]; exact hg)

/-- Where there are files of a name, one of them comes first. -/
theorem Answers.searched (hm : m.files = fs) (hname : name ∈ binaryNames binary) (hwild : Glob.hasWildcard name = false) : ∃ found,
    fs.search p name = .ok found ∧
      (exec (found.findM? isFileAt) m = (.ok none, m) ∧ (∀ below, ¬ fs.HasFile s below name) ∨
        ∃ below, exec (found.findM? isFileAt) m = (.ok (some (p.under (below ++ [name]))), m) ∧ fs.IsFirst s name below) := by
  obtain ⟨found, hsearch, hsorted, hpaths, hcomplete⟩ := h.search hname hwild
  have hdecides : ∀ c ∈ found, ∃ b, exec (isFileAt c) m = (.ok b, m) ∧
      (b = true ↔ ∃ below, c = p.under (below ++ [name]) ∧ fs.HasFile s below name) := by
    intro c hc
    obtain ⟨below, hin, rfl⟩ := hpaths c hc
    obtain ⟨b, hb, hfile⟩ := h.isFile hm hin hname
    refine ⟨b, hb, hfile.trans ⟨fun hfile => ⟨below, rfl, hfile⟩, ?_⟩⟩
    rintro ⟨other, hother, hfile⟩
    rwa [List.append_inj_left' (List.append_cancel_left (congrArg FilePath.parts hother)) rfl]
  refine ⟨found, hsearch, ?_⟩
  rcases findM?_decides hdecides with ⟨he, hall⟩ | ⟨before, c, after, rfl, he, ⟨below, rfl, hfile⟩, hbefore⟩
  · exact .inl ⟨he, fun below hfile => hall _ (hcomplete below hfile) ⟨below, rfl, hfile⟩⟩
  · refine .inr ⟨below, he, hfile, fun other hother => ?_⟩
    have hle : ∀ a b : FilePath, a = p.under (below ++ [name]) → b = p.under (other ++ [name]) →
        search.le a.parts b.parts = true → search.le (below ++ [name]) (other ++ [name]) = true := by
      rintro a b rfl rfl hle
      rwa [FilePath.under, FilePath.under, search_le_append] at hle
    rcases List.mem_append.1 (hcomplete other hother) with hmem | hmem
    · exact absurd ⟨other, rfl, hother⟩ (hbefore _ hmem)
    · rcases List.mem_cons.1 hmem with heq | hmem
      · rw [List.append_inj_left' (List.append_cancel_left (congrArg FilePath.parts heq)) rfl]
        exact (search_le_total _ _).elim id id
      · exact hle _ _ rfl rfl (List.rel_of_pairwise_cons (List.pairwise_append.1 hsorted).2.1 hmem)

omit h

/-- Nothing takes the place of a directory above it. -/
theorem Addresses.rename_above {source target : Text} {a b : Location} {node : Node} (ha : fs.Addresses source a)
    (hb : fs.Addresses target b) (hg : fs.get? a = some node) (hab : ¬ a <+: b.dropLast) (hba : b <+: a.dropLast) :
    fs.rename source target = .error .notEmpty := by
  obtain ⟨old, hfrom, hold⟩ := ha.entry
  obtain ⟨new, hto, hnew⟩ := hb.entry
  rw [← List.isPrefixOf_iff_prefix] at hab hba
  simp [FileSystem.rename, hfrom, hto, hold, hnew, hg, hab, hba, bind, Except.bind, throw, throwThe, MonadExceptOf.throw]

end FileSystem

end Prebuilt
