import Prebuilt.Proofs.Files.Resolving
/-!
Where a path leads by its text alone: two dots take back the component before them. Where there are no links that is what
resolving comes to, whether or not anything stands at the path. On the way of a relative path dots that cannot be taken back pile
up; they take back components of the working directory in the end.
-/
set_option autoImplicit false

namespace Prebuilt

variable {fs : FileSystem} {path next part root : Text} {start done parts rest : List Text}

namespace Path

/-- One component further. At the top there is nothing to take back. -/
def step (done : List Text) (part : Text) : List Text := if part = ".." then done.dropLast else done ++ [part]

/-- The components that a path leads to from others, without a look at the files. -/
def lexical (start : List Text) (path : Text) : List Text := (names path).foldl step (if isAbsolute path then [] else start)

example : lexical ["a", "b"] "../c/./../../../d//e" = [("d" : Text), "e"] := by decide

theorem step_dots (done : List Text) : step done ".." = done.dropLast := if_pos rfl

theorem step_of_ne (h : part ≠ "..") : step done part = done ++ [part] := if_neg h

theorem foldl_step_of_ne (h : ∀ part ∈ parts, part ≠ "..") : parts.foldl step done = done ++ parts := by
  induction parts generalizing done with
  | nil => simp
  | cons part rest ih =>
    rw [List.foldl_cons, step_of_ne (h part (by simp)), ih fun p hp => h p (by simp [hp]), List.append_assoc]
    rfl

/-- What is left is what was there and names that were gone through. -/
theorem mem_foldl_step (h : part ∈ parts.foldl step done) : part ∈ done ∨ part ∈ parts ∧ part ≠ ".." := by
  induction parts generalizing done with
  | nil => exact .inl h
  | cons first rest ih =>
    rcases ih h with hdone | ⟨hrest, hne⟩
    · by_cases hdots : first = ".."
      · rw [hdots, step_dots] at hdone
        exact .inl (List.mem_of_mem_dropLast hdone)
      · rw [step_of_ne hdots, List.mem_append, List.mem_singleton] at hdone
        rcases hdone with hdone | rfl
        · exact .inl hdone
        · exact .inr ⟨by simp, hdots⟩
    · exact .inr ⟨by simp [hrest], hne⟩

theorem mem_lexical (h : part ∈ lexical start path) : part ∈ start ∨ part ∈ names path ∧ part ≠ ".." := by
  rcases mem_foldl_step h with hstart | hnames
  · split at hstart
    · cases hstart
    · exact .inl hstart
  · exact .inr hnames

/-- A path seen from another leads where it leads from the components of that. -/
theorem lexical_join (start : List Text) (path next : Text) : lexical start (join path next) = lexical (lexical start path) next := by
  cases hnext : isAbsolute next with
  | true => rw [join_of_absolute hnext, lexical, lexical, if_pos hnext, if_pos hnext]
  | false =>
    have habs : (if isAbsolute (join path next) then [] else start) = if isAbsolute path then [] else start := by
      by_cases hpath : path = []
      · have hjoin : join [] next = next := by simp [join]
        rw [hpath, hjoin, if_neg (by simp [hnext])]
        rfl
      · rw [isAbsolute_join hnext hpath]
    rw [lexical, names_join hnext, List.foldl_append, habs]
    simp only [lexical, hnext, Bool.false_eq_true, if_false]

/-- Taking the dots out of an absolute path goes the same way. -/
theorem reduce_eq_foldl (h : ∀ part ∈ done, part ≠ "..") :
    reduce true done parts = (parts.filter FilePath.isPart).foldl step done.reverse := by
  induction parts generalizing done with
  | nil => rfl
  | cons part rest ih =>
    rcases FileSystem.part_cases part with hp | rfl | hname
    · rw [reduce.eq_def]
      simp only [if_pos (FileSystem.not_isPart_iff.1 hp)]
      rw [List.filter_cons_of_neg (by simp [hp]), ih h]
    · rw [List.filter_cons_of_pos FileSystem.isPart_dots, List.foldl_cons, step_dots]
      cases done with
      | nil => exact ih (by simp)
      | cons last more =>
        have hlast : last ≠ ".." := h last (by simp)
        have hreduce : reduce true (last :: more) (".." :: rest) = reduce true more rest := by
          rw [reduce.eq_def]
          simp only [if_neg hlast]
          rfl
        rw [hreduce, ih fun p hp => h p (by simp [hp]), List.reverse_cons, List.dropLast_concat]
    · rw [reduce.eq_def]
      simp only [if_neg hname.ne, if_neg hname.2]
      rw [List.filter_cons_of_pos hname.1, List.foldl_cons, step_of_ne hname.2, ih, List.reverse_cons]
      exact fun p hp => (List.mem_cons.1 hp).elim (fun he => he ▸ hname.2) (h p)

theorem ofText_normalize (habs : isAbsolute path = true) : FilePath.ofText (normalize path) = ⟨leadingSlashes path, lexical [] path⟩ := by
  have hmem (part : Text) (h : part ∈ lexical [] path) : part ∈ names path := (mem_lexical h).elim (fun h => by cases h) And.left
  have htidy : FilePath.Tidy ⟨leadingSlashes path, lexical [] path⟩ :=
    ⟨(FilePath.tidy_ofText path).root, fun part h => isPart_of_mem_names (hmem part h), fun part h => no_slash_of_mem_names (hmem part h)⟩
  have hroot : (leadingSlashes path).isEmpty = false := by
    rw [show leadingSlashes path = (FilePath.ofText path).root from rfl, FileSystem.isEmpty_root, habs, Bool.not_true]
  have htext : normalize path = FilePath.toText ⟨leadingSlashes path, lexical [] path⟩ := by
    rw [normalize, hroot, Bool.not_false, reduce_eq_foldl (by simp), lexical, if_pos habs]
    rfl
  rw [htext, htidy.ofText_toText]

theorem leadingSlashes_join (hpath : path ≠ []) (hnext : isAbsolute next = false) :
    leadingSlashes (join path next) = leadingSlashes path := by
  have hnone : next.takeWhile isSlash = [] := by
    cases next with
    | nil => rfl
    | cons c r => exact List.takeWhile_cons_of_neg (by simpa [isAbsolute, isSlash] using hnext)
  have hsame : (join path next).takeWhile isSlash = path.takeWhile isSlash := by
    rw [join, hnext, if_neg (by simp), show path.isEmpty = false by simpa using hpath, Bool.false_or]
    split
    · rw [List.takeWhile_append, hnone, List.append_nil]
      split
      · rename_i hall
        exact ((List.takeWhile_prefix isSlash).eq_of_length hall).symm
      · rfl
    · rename_i hend
      rw [List.append_assoc, List.takeWhile_append, if_neg]
      intro hlen
      have hall := List.takeWhile_eq_self_iff.1 ((List.takeWhile_prefix isSlash).eq_of_length hlen)
      have hslash := not_all_isSlash hpath (by simpa using hend)
      exact absurd (List.all_eq_true.2 hall) (by simp [hslash])
  rw [leadingSlashes, leadingSlashes, hsame]

end Path

namespace FileSystem

open Path

/-- A path that was put together of components, from the top or from nothing. -/
inductive Spelled (root : Text) : Text → List Text → Prop
  | top : Spelled root root []
  | down {path part : Text} {parts : List Text} : Spelled root path parts → FilePath.isPart part = true → CodePoint.char '/' ∉ part →
      Spelled root (Path.join path part) (parts ++ [part])

namespace Spelled

theorem shape (h : Spelled root path parts) (hroot : root = [] ∨ root = "/") : path = "/" ∨ endsInSlash path = false := by
  cases h with
  | top => exact hroot.symm.imp_right fun he => by rw [he]; rfl
  | down _ hpart hslash => exact .inr (endsInSlash_join (FilePath.isPart_iff.1 hpart).1 hslash)

theorem names_eq (h : Spelled root path parts) (hroot : root = [] ∨ root = "/") : names path = parts := by
  induction h with
  | top => rcases hroot with rfl | rfl <;> rfl
  | down _ hpart hslash ih => rw [names_join_part hpart hslash, ih]

theorem isAbsolute_eq (h : Spelled root path parts) : isAbsolute path = isAbsolute root := by
  induction h with
  | top => rfl
  | down _ _ hslash ih => rw [isAbsolute_join_part hslash, ih]

theorem isStep (h : Spelled root path parts) : ∀ part ∈ parts, FilePath.isPart part = true ∧ CodePoint.char '/' ∉ part := by
  induction h with
  | top => simp
  | down _ hpart hslash ih => exact fun p hp => (List.mem_append.1 hp).elim (ih p) fun hp => List.mem_singleton.1 hp ▸ ⟨hpart, hslash⟩

theorem leadingSlashes_eq (h : Spelled "/" path parts) : leadingSlashes path = "/" := by
  have htext : path = FilePath.toText ⟨"/", names path⟩ := by
    induction h with
    | top => rfl
    | down h hpart hslash ih => rw [names_join_part hpart hslash, join_toText ih hslash (h.shape (.inr rfl))]
  have htidy : FilePath.Tidy ⟨"/", names path⟩ :=
    ⟨.inr (.inl rfl), fun _ hp => isPart_of_mem_names hp, fun _ hp => no_slash_of_mem_names hp⟩
  have hroot : (FilePath.ofText path).root = "/" := by rw [htext, htidy.ofText_toText]
  exact hroot

/-- One level up, two dots are put to those that could not be taken back, and any other component is taken back. -/
theorem upward (h : Spelled root path parts) (hroot : root = [] ∨ root = "/") (htop : root = "/" → start = []) :
    ∃ parts', Spelled root (upward path) parts' ∧ parts'.foldl step start = (parts.foldl step start).dropLast := by
  cases h with
  | top =>
    rcases hroot with rfl | rfl
    · exact ⟨[".."], .down .top isPart_dots (by decide), step_dots start⟩
    · exact ⟨[], .top, by rw [htop rfl]; rfl⟩
  | @down above part parts h hpart hslash =>
    have hne : ¬ (Path.join above part).isEmpty = true := by
      intro he
      have hbase : base (Path.join above part) = part := base_join hslash
      rw [List.isEmpty_iff.1 he] at hbase
      exact (FilePath.isPart_iff.1 hpart).1 hbase.symm
    rw [FileSystem.upward, if_neg hne, base_join hslash, parent_join hslash (h.shape hroot)]
    by_cases hdots : part = ".."
    · subst hdots
      rw [if_pos rfl]
      exact ⟨_, .down (.down h isPart_dots (by decide)) isPart_dots (by decide), by rw [List.foldl_concat, step_dots]⟩
    · rw [if_neg hdots]
      exact ⟨parts, h, by rw [List.foldl_concat, step_of_ne hdots, List.dropLast_concat]⟩

end Spelled

section

variable (hlinks : ∀ l, ¬ fs.IsLink l)
include hlinks

theorem linkTarget?_of_no_links (hname : IsName part) (hslash : CodePoint.char '/' ∉ part) :
    fs.linkTarget? (Path.join path part) = none := by
  cases htarget : fs.linkTarget? (Path.join path part) with
  | none => rfl
  | some target =>
    obtain ⟨n, d, -, hlink⟩ := linkTarget?_reaches hname hslash htarget
    exact absurd ⟨target, hlink⟩ (hlinks _)

/-- The induction is on the components left; what they make of the components before is the same in the text and in the list. -/
theorem resolveFrom_of_no_links (depth : Nat) (trail : LinkTrail) (start : List Text) (hroot : root = [] ∨ root = "/") (htop : root = "/" → start = [])
    (hspelled : Spelled root path parts) (hslash : ∀ part ∈ rest, CodePoint.char '/' ∉ part) :
    ∃ final after, fs.resolveFrom depth trail path rest = (final, true, trail) ∧ Spelled root final after ∧
      after.foldl step start = (rest.filter FilePath.isPart).foldl step (parts.foldl step start) := by
  induction rest generalizing path parts with
  | nil => exact ⟨path, parts, by rw [resolveFrom], hspelled, rfl⟩
  | cons part rest ih =>
    have hrest : ∀ p ∈ rest, CodePoint.char '/' ∉ p := fun p hp => hslash p (by simp [hp])
    rcases part_cases part with hp | rfl | hname
    · rw [resolveFrom, if_pos (not_isPart_iff.1 hp), List.filter_cons_of_neg (by simp [hp])]
      exact ih hspelled hrest
    · obtain ⟨parts', hspelled', hsame⟩ := hspelled.upward hroot htop
      rw [resolveFrom, if_neg (by decide), if_pos rfl, List.filter_cons_of_pos isPart_dots, List.foldl_cons, step_dots, ← hsame]
      exact ih hspelled' hrest
    · have hpart := hslash part (by simp)
      obtain ⟨final, after, hrun, hfinal, hafter⟩ := ih (.down hspelled hname.1 hpart) hrest
      rw [resolveFrom, if_neg hname.ne, if_neg hname.2, List.filter_cons_of_pos hname.1, List.foldl_cons, step_of_ne hname.2]
      simp only [linkTarget?_of_no_links hlinks hname hpart]
      refine ⟨final, after, hrun, hfinal, ?_⟩
      rw [hafter, List.foldl_concat, step_of_ne hname.2]

/-- Resolving an absolute path, or a relative one from a working directory with proper names. -/
theorem ofText_resolvedText (hhome : isAbsolute path = false → fs.Homed) :
    FilePath.ofText (fs.resolvedText path) = ⟨"/", lexical fs.workingDirectory path⟩ := by
  have hslash : ∀ part ∈ Text.splitOn '/' path, CodePoint.char '/' ∉ part := fun _ hp => Text.not_mem_of_mem_splitOn hp
  rw [resolvedText]
  cases habs : isAbsolute path with
  | true =>
    obtain ⟨final, after, hrun, hfinal, hafter⟩ := resolveFrom_of_no_links hlinks (2 * fs.nodes.length + 8) [] []
      (.inr rfl) (fun _ => rfl) .top hslash
    have hfinalAbs : isAbsolute final = true := hfinal.isAbsolute_eq
    simp only [if_true, hrun, absolute, if_pos hfinalAbs]
    rw [ofText_normalize hfinalAbs, hfinal.leadingSlashes_eq, lexical, if_pos hfinalAbs, hfinal.names_eq (.inr rfl), hafter, lexical,
      if_pos habs]
    rfl
  | false =>
    have hhome := hhome habs
    obtain ⟨final, after, hrun, hfinal, hafter⟩ := resolveFrom_of_no_links hlinks (2 * fs.nodes.length + 8) [] fs.workingDirectory
      (.inl rfl) (fun he => by cases he) .top hslash
    have hfinalRel : isAbsolute final = false := hfinal.isAbsolute_eq
    have hne : fs.workingPath ≠ [] := by simp [workingPath]
    have hjoined : isAbsolute (Path.join fs.workingPath final) = true := by
      rw [isAbsolute_join hfinalRel hne]
      rfl
    have hhomeTidy : FilePath.Tidy ⟨"/", fs.workingDirectory⟩ :=
      ⟨.inr (.inl rfl), fun name h => (hhome.isName name h).1, hhome.noSlash⟩
    have hslashes : leadingSlashes fs.workingPath = "/" := by
      have hroot : (FilePath.ofText fs.workingPath).root = "/" := by rw [workingPath, ← toText_root, hhomeTidy.ofText_toText]
      exact hroot
    simp only [Bool.false_eq_true, if_false]
    rw [show ("" : Text) = [] from rfl, hrun]
    simp only [absolute, hfinalRel, Bool.false_eq_true, if_false]
    rw [ofText_normalize hjoined, leadingSlashes_join hne hfinalRel, hslashes, lexical, if_pos hjoined, names_join hfinalRel,
      names_workingPath hhome, hfinal.names_eq (.inl rfl), List.foldl_append,
      foldl_step_of_ne fun name h => (hhome.isName name h).2, List.nil_append, hafter, lexical, if_neg (by simp [habs])]
    rfl

/-- Where there are no links there are not too many. -/
theorem walk_ne_tooManyLinks (purpose : Purpose) (links : Nat) (d : Location) (parts : List Text) :
    fs.walk purpose links d parts ≠ .error .tooManyLinks := by
  induction parts generalizing d with
  | nil => simp [walk]
  | cons part rest ih =>
    rw [walk]
    split
    · exact ih d
    split
    · exact ih _
    split
    · rintro ⟨⟩
    split
    · rintro ⟨⟩
    dsimp only
    split
    · split <;> rintro ⟨⟩
    · split
      · rintro ⟨⟩
      · exact ih _
    · rename_i target hlink
      exact absurd ⟨target, hlink⟩ (hlinks _)
    · split <;> rintro ⟨⟩

theorem status_ne_tooManyLinks (path : Text) (followLast : Bool) : fs.status path followLast ≠ .error .tooManyLinks := by
  have hplace (purpose : Purpose) : fs.place purpose path ≠ .error .tooManyLinks := by
    rw [place]
    cases hstart : fs.start path with
    | error e =>
      rintro h
      cases h
      rw [FileSystem.start] at hstart
      repeat' split at hstart
      all_goals cases hstart
    | ok d => exact walk_ne_tooManyLinks hlinks purpose linkLimit d _
  have h := hplace (if followLast then .target else .entry)
  rw [FileSystem.status]
  split
  · rename_i e he
    intro hee
    cases hee
    exact h he
  · rintro ⟨⟩
  · rintro ⟨⟩

end

end FileSystem

end Prebuilt
