import Mathlib.Data.List.Basic
import Mathlib.Data.List.Infix
import Mathlib.Data.List.TakeWhile
import Prebuilt.Files.FilePath
/-!
The components of a path as text. Empty components and single dots have no effect on where a path leads, so paths are
compared by the components that remain, `Path.names`.
-/
set_option autoImplicit false

namespace Prebuilt.Text

variable {sep : CodePoint} {t a b : Text}

theorem splitOn_ne_nil (sep : CodePoint) (t : Text) : splitOn sep t ≠ [] := by
  induction t with
  | nil => simp [splitOn]
  | cons c r ih =>
    simp only [splitOn]
    split
    · simp
    · split <;> simp

theorem splitOn_append_cons (sep : CodePoint) (a b : Text) :
    splitOn sep (a ++ sep :: b) = splitOn sep a ++ splitOn sep b := by
  induction a with
  | nil => simp [splitOn]
  | cons c r ih =>
    by_cases hc : c = sep
    · simp [splitOn, hc, ih]
    · have hr := splitOn_ne_nil sep r
      simp only [List.cons_append, splitOn, if_neg hc, ih]
      cases h : splitOn sep r with
      | nil => exact absurd h hr
      | cons p ps => simp

theorem splitOn_of_not_mem (h : sep ∉ t) : splitOn sep t = [t] := by
  induction t with
  | nil => rfl
  | cons c r ih =>
    rw [List.mem_cons, not_or] at h
    simp [splitOn, Ne.symm h.1, ih h.2]

theorem not_mem_of_mem_splitOn {p : Text} (h : p ∈ splitOn sep t) : sep ∉ p := by
  induction t generalizing p with
  | nil => simp_all [splitOn]
  | cons c r ih =>
    simp only [splitOn] at h
    by_cases hc : c = sep
    · rw [if_pos hc, List.mem_cons] at h
      rcases h with rfl | h
      · simp
      · exact ih h
    · rw [if_neg hc] at h
      cases hs : splitOn sep r with
      | nil => exact absurd hs (splitOn_ne_nil sep r)
      | cons q qs =>
        simp only [hs, List.mem_cons] at h ih
        rcases h with rfl | h
        · simpa [Ne.symm hc] using ih (Or.inl rfl)
        · exact ih (Or.inr h)

theorem not_mem_afterLast (sep : CodePoint) (t : Text) : sep ∉ afterLast sep t := by
  intro h
  have hh := List.mem_takeWhile_imp (List.mem_reverse.1 h)
  simp at hh

/-- A text is what follows its last separator, with the separator and something before it unless there is none. -/
theorem eq_afterLast_or (sep : CodePoint) (t : Text) :
    t = afterLast sep t ∨ ∃ a, t = a ++ sep :: afterLast sep t := by
  have h := List.takeWhile_append_dropWhile (p := fun c => c != sep) (l := t.reverse)
  cases hd : t.reverse.dropWhile (fun c => c != sep) with
  | nil =>
    left
    rw [hd, List.append_nil] at h
    rw [afterLast, h, List.reverse_reverse]
  | cons c r =>
    right
    have hc : c = sep := by
      have hh := List.head?_dropWhile_not (fun c => c != sep) t.reverse
      simpa [hd] using hh
    refine ⟨r.reverse, ?_⟩
    have hr := congrArg List.reverse h
    rw [hd, hc] at hr
    simpa [afterLast] using hr.symm

theorem splitOn_joinWith {sep : CodePoint} {parts : List Text} (hne : parts ≠ []) (h : ∀ p ∈ parts, sep ∉ p) :
    splitOn sep (joinWith [sep] parts) = parts := by
  induction parts with
  | nil => exact absurd rfl hne
  | cons p ps ih =>
    have hp := h p (List.mem_cons_self ..)
    cases ps with
    | nil => exact splitOn_of_not_mem hp
    | cons q qs =>
      have hh := ih (by simp) fun r hr => h r (List.mem_cons_of_mem _ hr)
      rw [joinWith, List.append_assoc, List.singleton_append, splitOn_append_cons, hh, splitOn_of_not_mem hp,
        List.singleton_append]

theorem joinWith_splitOn (sep : CodePoint) (t : Text) : joinWith [sep] (splitOn sep t) = t := by
  induction t with
  | nil => rfl
  | cons c r ih =>
    simp only [splitOn]
    cases hs : splitOn sep r with
    | nil => exact absurd hs (splitOn_ne_nil sep r)
    | cons p ps =>
      rw [hs] at ih
      by_cases hc : c = sep
      · simp [hc, joinWith, ih]
      · cases ps <;> simp_all [joinWith]

theorem subset_joinWith {parts : List Text} {part : Text} (h : part ∈ parts) : part ⊆ joinWith [sep] parts := by
  induction parts with
  | nil => cases h
  | cons p ps ih =>
    cases ps with
    | nil => exact fun c hc => List.mem_singleton.1 h ▸ hc
    | cons q qs =>
      intro c hc
      simp only [joinWith, List.mem_append]
      rcases List.mem_cons.1 h with rfl | h
      · exact .inl (.inl hc)
      · exact .inr (ih h hc)

end Prebuilt.Text

namespace Prebuilt.Path

variable {path next : Text}

/-- The components that have an effect. -/
def names (path : Text) : List Text := (Text.splitOn '/' path).filter FilePath.isPart

/-- No component leads up. -/
def Downward (path : Text) : Prop := ∀ part ∈ names path, part ≠ ".."

instance (path : Text) : Decidable (Downward path) := inferInstanceAs (Decidable (∀ part ∈ names path, part ≠ ".."))

@[simp] theorem ofText_parts (path : Text) : (FilePath.ofText path).parts = names path := rfl

@[simp] theorem names_nil : names [] = [] := rfl

theorem names_append_slash (a b : Text) : names (a ++ CodePoint.char '/' :: b) = names a ++ names b := by
  rw [names, Text.splitOn_append_cons, List.filter_append, names, names]

theorem names_of_no_slash (h : CodePoint.char '/' ∉ path) :
    names path = if FilePath.isPart path then [path] else [] := by
  rw [names, Text.splitOn_of_not_mem h, List.filter_singleton]
  cases FilePath.isPart path <;> rfl

theorem no_slash_of_mem_names {name : Text} (h : name ∈ names path) : CodePoint.char '/' ∉ name :=
  Text.not_mem_of_mem_splitOn (List.mem_filter.1 h).1

theorem isPart_of_mem_names {name : Text} (h : name ∈ names path) : FilePath.isPart name = true :=
  (List.mem_filter.1 h).2

theorem names_eq_nil_of_all_slash (h : path.all isSlash = true) : names path = [] := by
  induction path with
  | nil => rfl
  | cons c r ih =>
    simp only [List.all_cons, Bool.and_eq_true, isSlash, beq_iff_eq] at h
    rw [h.1]
    simpa [ih h.2] using names_append_slash [] r

theorem dropEndSlashes_append (path : Text) :
    ∃ slashes : Text, slashes.all isSlash = true ∧ path = dropEndSlashes path ++ slashes := by
  refine ⟨(path.reverse.takeWhile isSlash).reverse, by simp, ?_⟩
  have h := congrArg List.reverse (List.takeWhile_append_dropWhile (p := isSlash) (l := path.reverse))
  rw [List.reverse_append, List.reverse_reverse] at h
  exact h.symm

theorem names_append_of_all_slash {slashes : Text} (h : slashes.all isSlash = true) :
    names (path ++ slashes) = names path := by
  cases slashes with
  | nil => rw [List.append_nil]
  | cons c r =>
    simp only [List.all_cons, Bool.and_eq_true, isSlash, beq_iff_eq] at h
    rw [h.1, names_append_slash, names_eq_nil_of_all_slash h.2, List.append_nil]

@[simp] theorem names_dropEndSlashes (path : Text) : names (dropEndSlashes path) = names path := by
  obtain ⟨slashes, hs, hp⟩ := dropEndSlashes_append path
  conv_rhs => rw [hp]
  rw [names_append_of_all_slash hs]

theorem prefix_dropEndSlashes (path : Text) : dropEndSlashes path <+: path := by
  obtain ⟨slashes, _, hp⟩ := dropEndSlashes_append path
  exact ⟨slashes, hp.symm⟩

theorem endsInSlash_dropEndSlashes (path : Text) : endsInSlash (dropEndSlashes path) = false := by
  rw [endsInSlash, dropEndSlashes, List.getLast?_reverse]
  have h := List.head?_dropWhile_not isSlash path.reverse
  cases hd : (path.reverse.dropWhile isSlash).head? with
  | none => rfl
  | some c =>
    rw [hd] at h
    simpa [isSlash] using h

/-! ## Joining -/

theorem names_join (h : isAbsolute next = false) : names (join path next) = names path ++ names next := by
  simp only [join, h, Bool.false_eq_true, if_false]
  by_cases he : path.isEmpty || endsInSlash path
  · rw [if_pos he]
    rcases Bool.or_eq_true _ _ ▸ he with he | he
    · rw [List.isEmpty_iff.1 he]
      rfl
    · simp only [endsInSlash, beq_iff_eq] at he
      obtain ⟨a, ha⟩ := List.getLast?_eq_some_iff.1 he
      rw [ha, List.append_assoc, List.singleton_append, names_append_slash, names_append_slash, names_nil,
        List.append_nil]
  · rw [if_neg he]
    simpa using names_append_slash path next

theorem join_of_absolute (h : isAbsolute next = true) : join path next = next := by simp [join, h]

theorem isAbsolute_of_isPrefix {a : Text} (h : a <+: path) (hne : a ≠ []) : isAbsolute a = isAbsolute path := by
  obtain ⟨b, rfl⟩ := h
  cases a with
  | nil => exact absurd rfl hne
  | cons c r => rfl

theorem isAbsolute_join (h : isAbsolute next = false) (hne : path ≠ []) :
    isAbsolute (join path next) = isAbsolute path := by
  have hp : path <+: join path next := by
    rw [join, h]
    by_cases he : path.isEmpty || endsInSlash path <;> simp [he]
  exact (isAbsolute_of_isPrefix hp hne).symm

/-- What stands before the joined path, but for the slash between them. -/
theorem join_eq (h : isAbsolute next = false) (hne : path ≠ []) : ∃ a, join path next = a ++ CodePoint.char '/' :: next := by
  simp only [join, h, Bool.false_eq_true, if_false]
  by_cases he : endsInSlash path = true
  · obtain ⟨a, ha⟩ := List.getLast?_eq_some_iff.1 (by simpa [endsInSlash] using he)
    refine ⟨a, ?_⟩
    rw [he, Bool.or_true, if_pos rfl, ha, List.append_assoc]
    rfl
  · exact ⟨path, by simp [he, hne]⟩

/-! ## The parent of a path and its last component -/

theorem no_slash_base (path : Text) : CodePoint.char '/' ∉ base path := Text.not_mem_afterLast _ path

theorem eq_base_or (path : Text) : path = base path ∨ ∃ a, path = a ++ CodePoint.char '/' :: base path :=
  Text.eq_afterLast_or _ path

theorem getLast?_splitOn (path : Text) : (Text.splitOn '/' path).getLast? = some (base path) := by
  have hbase := Text.splitOn_of_not_mem (no_slash_base path)
  rcases eq_base_or path with h | ⟨a, h⟩
  · rw [← h] at hbase
    rw [hbase, ← h]
    rfl
  · conv_lhs => rw [h]
    rw [Text.splitOn_append_cons, hbase, List.getLast?_concat]

theorem prefix_parent (path : Text) : parent path <+: path := by
  simp only [parent]
  split
  · exact List.take_prefix _ _
  · exact (prefix_dropEndSlashes _).trans (List.take_prefix _ _)

theorem names_parent_head (path : Text) :
    names (parent path) = names (path.take (path.length - (base path).length)) := by
  simp only [parent]
  split
  · rfl
  · exact names_dropEndSlashes _

theorem names_eq_parent_base (path : Text) : names path = names (parent path) ++ names (base path) := by
  rw [names_parent_head]
  rcases eq_base_or path with h | ⟨a, h⟩
  · rw [← h]
    simp
  · have hl : path.length - (base path).length = (a ++ [CodePoint.char '/']).length := by
      have hh := congrArg List.length h
      simp only [List.length_append, List.length_cons, List.length_nil] at hh ⊢
      omega
    have ht : path.take (path.length - (base path).length) = a ++ [CodePoint.char '/'] := by
      rw [hl]
      conv_lhs => rw [h]
      rw [List.append_cons a (CodePoint.char '/') (base path), List.take_left]
    rw [ht, names_append_slash, names_nil, List.append_nil]
    conv_lhs => rw [h]
    exact names_append_slash a _

/-! ## A path and one more component -/

variable {part : Text}

theorem isAbsolute_of_no_slash (h : CodePoint.char '/' ∉ part) : isAbsolute part = false := by
  cases part with
  | nil => rfl
  | cons c r =>
    have hc : c ≠ CodePoint.char '/' := fun hc => h (by simp [hc])
    simpa [isAbsolute] using hc

theorem names_of_part (hp : FilePath.isPart part = true) (h : CodePoint.char '/' ∉ part) : names part = [part] := by
  rw [names_of_no_slash h, if_pos hp]

theorem names_join_part (hp : FilePath.isPart part = true) (h : CodePoint.char '/' ∉ part) :
    names (join path part) = names path ++ [part] := by
  rw [names_join (isAbsolute_of_no_slash h), names_of_part hp h]

theorem base_append_slash (a : Text) (h : CodePoint.char '/' ∉ part) : base (a ++ CodePoint.char '/' :: part) = part := by
  have ht : ∀ c ∈ part.reverse, (c != CodePoint.char '/') = true := by
    intro c hc
    rw [List.mem_reverse] at hc
    simpa using fun he : c = CodePoint.char '/' => h (he ▸ hc)
  rw [base, Text.afterLast, List.reverse_append, List.reverse_cons, List.append_assoc,
    List.takeWhile_append_of_pos ht]
  simp

theorem base_of_no_slash (h : CodePoint.char '/' ∉ part) : base part = part := by
  have ht : part.reverse.takeWhile (fun c => c != CodePoint.char '/') = part.reverse := by
    refine List.takeWhile_eq_self_iff.2 fun c hc => ?_
    rw [List.mem_reverse] at hc
    simpa using fun he : c = CodePoint.char '/' => h (he ▸ hc)
  rw [base, Text.afterLast, ht, List.reverse_reverse]

/-- How a component is put after a path. -/
theorem join_cases (path : Text) (h : CodePoint.char '/' ∉ part) :
    (path = [] ∧ join path part = part) ∨
      (∃ a, path = a ++ [CodePoint.char '/'] ∧ join path part = a ++ CodePoint.char '/' :: part) ∨
      path ≠ [] ∧ endsInSlash path = false ∧ join path part = path ++ CodePoint.char '/' :: part := by
  rw [join, isAbsolute_of_no_slash h]
  by_cases he : path = []
  · exact .inl ⟨he, by simp [he]⟩
  · by_cases hs : endsInSlash path = true
    · obtain ⟨a, ha⟩ := List.getLast?_eq_some_iff.1 (beq_iff_eq.1 hs)
      refine .inr (.inl ⟨a, ha, ?_⟩)
      rw [hs, Bool.or_true, ha]
      simp
    · rw [Bool.not_eq_true] at hs
      exact .inr (.inr ⟨he, hs, by simp [he, hs]⟩)

theorem isAbsolute_join_part (h : CodePoint.char '/' ∉ part) : isAbsolute (join path part) = isAbsolute path := by
  rcases join_cases path h with ⟨hp, hj⟩ | ⟨a, hp, hj⟩ | ⟨hne, -, hj⟩
  · rw [hj, hp, isAbsolute_of_no_slash h]
    rfl
  · have hfront : path <+: join path part := ⟨part, by rw [hj, hp]; simp⟩
    exact (isAbsolute_of_isPrefix hfront (by simp [hp])).symm
  · have hfront : path <+: join path part := ⟨CodePoint.char '/' :: part, hj.symm⟩
    exact (isAbsolute_of_isPrefix hfront hne).symm

theorem base_join (h : CodePoint.char '/' ∉ part) : base (join path part) = part := by
  rcases join_cases path h with ⟨-, hj⟩ | ⟨a, -, hj⟩ | ⟨-, -, hj⟩
  · rw [hj, base_of_no_slash h]
  · rw [hj, base_append_slash a h]
  · rw [hj, base_append_slash path h]

theorem splitOn_join (path : Text) (h : CodePoint.char '/' ∉ part) :
    ∃ above, Text.splitOn '/' (join path part) = above ++ [part] ∧ above.filter FilePath.isPart = names path := by
  rcases join_cases path h with ⟨hp, hj⟩ | ⟨a, hp, hj⟩ | ⟨-, -, hj⟩
  · exact ⟨[], by rw [hj, Text.splitOn_of_not_mem h, List.nil_append], by rw [hp]; rfl⟩
  · refine ⟨Text.splitOn '/' a, by rw [hj, Text.splitOn_append_cons, Text.splitOn_of_not_mem h], ?_⟩
    have hn := names_append_slash a []
    rw [names_nil, List.append_nil] at hn
    rw [hp, hn, names]
  · exact ⟨Text.splitOn '/' path, by rw [hj, Text.splitOn_append_cons, Text.splitOn_of_not_mem h], rfl⟩

theorem endsInSlash_join (hne : part ≠ []) (h : CodePoint.char '/' ∉ part) : endsInSlash (join path part) = false := by
  have hlast (a : Text) : endsInSlash (a ++ part) = false := by
    rw [endsInSlash, beq_eq_false_iff_ne, List.getLast?_append_of_ne_nil _ hne]
    exact fun he => h (List.mem_of_getLast? he)
  rcases join_cases path h with ⟨-, hj⟩ | ⟨a, -, hj⟩ | ⟨-, -, hj⟩
  · rw [hj]
    exact hlast []
  · rw [hj, List.append_cons]
    exact hlast _
  · rw [hj, List.append_cons]
    exact hlast _

theorem dropEndSlashes_append_slash (h : endsInSlash path = false) :
    dropEndSlashes (path ++ [CodePoint.char '/']) = path := by
  rw [dropEndSlashes, List.reverse_append, List.reverse_singleton, List.singleton_append,
    List.dropWhile_cons_of_pos (by rfl)]
  cases hr : path.reverse with
  | nil => simpa using hr.symm
  | cons c r =>
    have hp : path = r.reverse ++ [c] := by simpa using congrArg List.reverse hr
    have hc : isSlash c = false := by simpa [hp, endsInSlash, isSlash] using h
    rw [List.dropWhile_cons_of_neg (by simp [hc]), hp, List.reverse_cons]

theorem not_all_isSlash (hne : path ≠ []) (h : endsInSlash path = false) : path.all isSlash = false := by
  rw [← List.dropLast_append_getLast hne, List.all_append]
  have hc : isSlash (path.getLast hne) = false := by
    simpa [endsInSlash, List.getLast?_eq_some_getLast hne, isSlash] using h
  simp [hc]

/-- What a component is put after is found again, unless slashes are lost. -/
theorem parent_join (h : CodePoint.char '/' ∉ part) (hpath : path = "/" ∨ endsInSlash path = false) :
    parent (join path part) = path := by
  have hhead : (join path part).take ((join path part).length - (base (join path part)).length) =
      (join path part).take ((join path part).length - part.length) := by rw [base_join h]
  rw [parent, hhead]
  rcases join_cases path h with ⟨hp, hj⟩ | ⟨a, hp, hj⟩ | ⟨hne, hs, hj⟩
  · rw [hj, Nat.sub_self, List.take_zero, hp]
    rfl
  · have hroot : path = "/" := hpath.resolve_right (by simp [hp, endsInSlash])
    rw [hroot] at hp
    have ha : a = [] := by
      have hl := congrArg List.length hp
      simp at hl
      exact List.length_eq_zero_iff.1 (by simpa using hl)
    subst ha
    rw [hj, hroot]
    simp [isSlash]
  · have htake : (join path part).take ((join path part).length - part.length) = path ++ [CodePoint.char '/'] := by
      rw [hj, List.append_cons, List.length_append, Nat.add_sub_cancel, List.take_left]
    rw [htake, List.all_append, not_all_isSlash hne hs]
    simpa using dropEndSlashes_append_slash hs

end Prebuilt.Path

namespace Prebuilt.FilePath

/-- What reading a text as a path gives: one of three roots, and components that have an effect. -/
structure Tidy (p : FilePath) : Prop where
  root : p.root = [] ∨ p.root = "/" ∨ p.root = "//"
  isPart : ∀ part ∈ p.parts, isPart part = true
  noSlash : ∀ part ∈ p.parts, CodePoint.char '/' ∉ part

theorem tidy_ofText (path : Text) : (ofText path).Tidy where
  root := by
    simp only [ofText, Path.leadingSlashes]
    split
    · exact Or.inl (by simp)
    · exact Or.inr (Or.inr rfl)
    · exact Or.inr (Or.inl rfl)
  isPart _ h := Path.isPart_of_mem_names h
  noSlash _ h := Path.no_slash_of_mem_names h

theorem Tidy.append {p q : FilePath} (hp : p.Tidy) (hq : q.Tidy) : (p.append q).Tidy := by
  simp only [FilePath.append]
  split
  · refine ⟨hp.root, fun part h => ?_, fun part h => ?_⟩
    · rcases List.mem_append.1 h with h | h
      · exact hp.isPart part h
      · exact hq.isPart part h
    · rcases List.mem_append.1 h with h | h
      · exact hp.noSlash part h
      · exact hq.noSlash part h
  · exact hq

theorem Tidy.div {p : FilePath} (hp : p.Tidy) (next : Text) : (p / next).Tidy := hp.append (tidy_ofText next)

theorem Tidy.parent {p : FilePath} (hp : p.Tidy) : p.parent.Tidy where
  root := hp.root
  isPart part h := hp.isPart part (List.mem_of_mem_dropLast h)
  noSlash part h := hp.noSlash part (List.mem_of_mem_dropLast h)

theorem isPart_iff {part : Text} : isPart part = true ↔ part ≠ [] ∧ part ≠ [CodePoint.char '.'] := by
  simp [isPart]

theorem Tidy.splitOn_joined {p : FilePath} (hp : p.Tidy) (hne : p.parts ≠ []) :
    Text.splitOn '/' (Text.joinWith "/" p.parts) = p.parts :=
  Text.splitOn_joinWith hne hp.noSlash

theorem joinWith_ne_nil {sep p : Text} {ps : List Text} (h : p ≠ []) : Text.joinWith sep (p :: ps) ≠ [] := by
  cases ps with
  | nil => simpa [Text.joinWith] using h
  | cons q qs => simp [Text.joinWith, h]

theorem Tidy.toText_eq {p : FilePath} (hp : p.Tidy) (hne : p.parts ≠ []) :
    p.toText = p.root ++ Text.joinWith "/" p.parts := by
  obtain ⟨part, rest, hparts⟩ := List.exists_cons_of_ne_nil hne
  have hpart := isPart_iff.1 (hp.isPart part (by simp [hparts]))
  have hj : Text.joinWith "/" p.parts ≠ [] := hparts ▸ joinWith_ne_nil hpart.1
  rw [toText, if_neg]
  rw [List.isEmpty_iff, List.append_eq_nil_iff]
  exact fun h => hj h.2

theorem Tidy.splitOn_toText {p : FilePath} (hp : p.Tidy) (hne : p.parts ≠ []) :
    ∃ empties : List Text, (∀ e ∈ empties, e = []) ∧ Text.splitOn '/' p.toText = empties ++ p.parts := by
  rw [hp.toText_eq hne]
  have hj := hp.splitOn_joined hne
  rcases hp.root with h | h | h
  · exact ⟨[], by simp, by rw [h, List.nil_append, hj]; rfl⟩
  · refine ⟨[[]], by simp, ?_⟩
    rw [h]
    simpa [Text.splitOn] using hj
  · refine ⟨[[], []], by simp, ?_⟩
    rw [h]
    simpa [Text.splitOn] using hj

/-- The text of a path has its components. -/
theorem Tidy.names_toText {p : FilePath} (hp : p.Tidy) : Path.names p.toText = p.parts := by
  by_cases hne : p.parts = []
  · rw [toText, hne]
    rcases hp.root with h | h | h <;> rw [h] <;> decide
  · obtain ⟨empties, he, hs⟩ := hp.splitOn_toText hne
    rw [Path.names, hs, List.filter_append, List.filter_eq_self.2 hp.isPart, List.filter_eq_nil_iff.2]
    · rfl
    · intro e hmem
      rw [he e hmem]
      decide

theorem Tidy.isAbsolute_toText {p : FilePath} (hp : p.Tidy) : Path.isAbsolute p.toText = !p.root.isEmpty := by
  rcases hp.root with h | h | h
  · by_cases hne : p.parts = []
    · rw [toText, hne, h]
      decide
    · obtain ⟨part, rest, hparts⟩ := List.exists_cons_of_ne_nil hne
      have hpart := isPart_iff.1 (hp.isPart part (by simp [hparts]))
      have hslash := hp.noSlash part (by simp [hparts])
      rw [hp.toText_eq hne, h, hparts]
      cases part with
      | nil => exact absurd rfl hpart.1
      | cons c r =>
        have hc : c ≠ CodePoint.char '/' := fun hc => hslash (by simp [hc])
        cases rest <;> simp [Path.isAbsolute, Text.joinWith, hc]
  · rw [toText, h]
    simp [Path.isAbsolute]
  · rw [toText, h]
    simp [Path.isAbsolute]

theorem toText_ne_nil (p : FilePath) : p.toText ≠ [] := by
  rw [toText]
  split
  · simp
  · rename_i h
    exact fun he => h (List.isEmpty_iff.2 he)

/-- The text of a path ends in its last component. -/
theorem Tidy.base_toText {p : FilePath} (hp : p.Tidy) {last : Text} (h : p.parts.getLast? = some last) :
    Path.base p.toText = last := by
  have hne : p.parts ≠ [] := by
    rintro hnil
    rw [hnil] at h
    cases h
  obtain ⟨empties, -, hs⟩ := hp.splitOn_toText hne
  have hlast := Path.getLast?_splitOn p.toText
  rw [hs, List.getLast?_append, h, Option.some_or] at hlast
  exact (Option.some.inj hlast).symm

theorem Tidy.ofText_toText {p : FilePath} (hp : p.Tidy) : ofText p.toText = p := by
  have hparts : (ofText p.toText).parts = p.parts := hp.names_toText
  have hroot : (ofText p.toText).root = p.root := by
    by_cases hne : p.parts = []
    · rw [toText, hne]
      rcases hp.root with h | h | h <;> rw [h] <;> decide
    · obtain ⟨part, rest, hcons⟩ := List.exists_cons_of_ne_nil hne
      have hpart := isPart_iff.1 (hp.isPart part (by simp [hcons]))
      have hslash := hp.noSlash part (by simp [hcons])
      rw [hp.toText_eq hne, hcons]
      cases part with
      | nil => exact absurd rfl hpart.1
      | cons c r =>
        have hc : c ≠ CodePoint.char '/' := fun hc => hslash (by simp [hc])
        rcases hp.root with h | h | h <;> rw [h] <;> cases rest <;>
          simp [ofText, Path.leadingSlashes, Text.joinWith, Path.isSlash, hc]
  cases p
  cases hq : ofText (toText _)
  simp_all

end Prebuilt.FilePath
