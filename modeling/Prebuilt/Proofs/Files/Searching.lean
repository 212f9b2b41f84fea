import Prebuilt.Files.Glob
import Prebuilt.Proofs.Files.Under
import Prebuilt.Proofs.Files.Soundness
/-!
What a search finds: paths in a directory or beneath it, in the order of their components. Where it finds a name without
wildcards it finds all that are there.
-/
set_option autoImplicit false

namespace Prebuilt

/-! ## The order of what is found -/

theorem CodePoint.value_injective {a b : CodePoint} (h : a.value = b.value) : a = b := by
  have hchar (c : Char) (n : Fin 2048) : c.toNat ≠ 0xD800 + n.val := by
    intro he
    have hvalid : c.toNat.isValidChar := c.valid
    have hn := n.isLt
    rcases hvalid with hlow | ⟨hhigh, -⟩ <;> omega
  cases a with
  | char c =>
    cases b with
    | char d => exact congrArg _ (Char.ext (UInt32.toNat.inj h))
    | lone n => exact absurd h (hchar c n)
  | lone n =>
    cases b with
    | char d => exact absurd h.symm (hchar d n)
    | lone k => exact congrArg _ (Fin.ext (Nat.add_left_cancel h))

namespace Text

theorem le_cons {a b : CodePoint} {s t : Text} :
    le (a :: s) (b :: t) = true ↔ a.value < b.value ∨ a = b ∧ le s t = true := by
  have hsame : a.value = b.value ↔ a = b := ⟨CodePoint.value_injective, congrArg _⟩
  simp [le, hsame]

theorem le_total (a b : Text) : le a b = true ∨ le b a = true := by
  induction a generalizing b with
  | nil => exact .inl rfl
  | cons x s ih =>
    cases b with
    | nil => exact .inr rfl
    | cons y t =>
      rw [le_cons, le_cons]
      rcases Nat.lt_trichotomy x.value y.value with hlt | heq | hgt
      · exact .inl (.inl hlt)
      · obtain rfl := CodePoint.value_injective heq
        exact (ih t).imp (fun h => .inr ⟨rfl, h⟩) fun h => .inr ⟨rfl, h⟩
      · exact .inr (.inl hgt)

theorem le_trans {a b c : Text} (h : le a b = true) (h' : le b c = true) : le a c = true := by
  induction a generalizing b c with
  | nil => rfl
  | cons x s ih =>
    cases b with
    | nil => cases h
    | cons y t =>
      cases c with
      | nil => cases h'
      | cons z u =>
        rw [le_cons] at h h' ⊢
        rcases h with h | ⟨rfl, h⟩
        · rcases h' with h' | ⟨rfl, -⟩
          · exact .inl (h.trans h')
          · exact .inl h
        · exact h'.imp_right fun ⟨he, h'⟩ => ⟨he, ih h h'⟩

theorem le_antisymm {a b : Text} (h : le a b = true) (h' : le b a = true) : a = b := by
  induction a generalizing b with
  | nil =>
    cases b with
    | nil => rfl
    | cons y t => cases h'
  | cons x s ih =>
    cases b with
    | nil => cases h
    | cons y t =>
      rw [le_cons] at h h'
      rcases h with h | ⟨rfl, h⟩
      · rcases h' with h' | ⟨rfl, -⟩ <;> omega
      · rw [ih h (h'.resolve_left (lt_irrefl _)).2]

end Text

namespace FileSystem

variable {fs : FileSystem} {p : FilePath} {s l : Location} {a b c names below other : List Text} {name : Text} {node : Node}
  {found : List FilePath}

theorem search_le_total (a b : List Text) : search.le a b = true ∨ search.le b a = true := by
  induction a generalizing b with
  | nil => exact .inl rfl
  | cons x s ih =>
    cases b with
    | nil => exact .inr rfl
    | cons y t =>
      by_cases hxy : x = y
      · simpa [search.le, hxy] using ih t
      · simpa [search.le, hxy, Ne.symm hxy] using Text.le_total x y

theorem search_le_trans (h : search.le a b = true) (h' : search.le b c = true) : search.le a c = true := by
  induction a generalizing b c with
  | nil => rfl
  | cons x s ih =>
    cases b with
    | nil => cases h
    | cons y t =>
      cases c with
      | nil => cases h'
      | cons z u =>
        simp only [search.le] at h h' ⊢
        by_cases hxy : x = y
        · rw [if_pos hxy] at h
          subst hxy
          by_cases hxz : x = z
          · rw [if_pos hxz] at h' ⊢
            exact ih h h'
          · rwa [if_neg hxz] at h' ⊢
        · rw [if_neg hxy] at h
          by_cases hyz : y = z
          · rw [if_neg (hyz ▸ hxy)]
            exact hyz ▸ h
          · rw [if_neg hyz] at h'
            by_cases hxz : x = z
            · subst hxz
              exact absurd (Text.le_antisymm h h') hxy
            · rw [if_neg hxz]
              exact Text.le_trans h h'

/-- What paths have in common plays no part in their order. -/
theorem search_le_append (front : List Text) : search.le (front ++ a) (front ++ b) = search.le a b := by
  induction front with
  | nil => rfl
  | cons x r ih => simp [search.le, ih]

/-! ## Directories -/

theorem filterMapM_ok {α β : Type} {f : α → Except Error (Option β)} {items : List α} {found : List β}
    (h : items.filterMapM f = .ok found) : (∀ a ∈ items, ∃ r, f a = .ok r ∧ ∀ b, r = some b → b ∈ found) ∧
      ∀ b ∈ found, ∃ a ∈ items, f a = .ok (some b) := by
  induction items generalizing found with
  | nil =>
    cases h
    simp
  | cons a r ih =>
    rw [List.filterMapM_cons] at h
    cases hfa : f a with
    | error e => simp [hfa, bind, Except.bind] at h
    | ok x =>
      cases x with
      | none =>
        obtain ⟨hall, hfound⟩ := ih (by simpa [hfa, bind, Except.bind] using h)
        exact ⟨List.forall_mem_cons.2 ⟨⟨none, hfa, by simp⟩, hall⟩, fun b hb =>
          (hfound b hb).imp fun _ hx => ⟨List.mem_cons_of_mem _ hx.1, hx.2⟩⟩
      | some b =>
        cases hr : r.filterMapM f with
        | error e => simp [hfa, hr, bind, Except.bind] at h
        | ok more =>
          obtain rfl : b :: more = found := by simpa [hfa, hr, bind, Except.bind, pure, Except.pure] using h
          obtain ⟨hall, hfound⟩ := ih hr
          refine ⟨List.forall_mem_cons.2 ⟨⟨some b, hfa, by simp⟩, fun x hx => ?_⟩, List.forall_mem_cons.2 ⟨⟨a, by simp, hfa⟩,
            fun y hy => (hfound y hy).imp fun _ hx => ⟨List.mem_cons_of_mem _ hx.1, hx.2⟩⟩⟩
          obtain ⟨x', hx', hmem⟩ := hall x hx
          exact ⟨x', hx', fun y hy => List.mem_cons_of_mem _ (hmem y hy)⟩

theorem get?_ne_none_of_mem (hne : l ≠ []) (h : (l, node) ∈ fs.nodes) : fs.get? l ≠ none := by
  rw [← Option.isSome_iff_ne_none]
  exact (get?_isSome_iff hne).2 ⟨node, h⟩

/-- The way down to a directory is made of names. -/
theorem isEntryName_of_directoriesBelow (hnamed : fs.Named) (h : below ∈ fs.directoriesBelow s) :
    ∀ name ∈ below, IsEntryName name := by
  intro name hname
  rcases List.mem_cons.1 h with rfl | h
  · cases hname
  · obtain ⟨⟨l, node⟩, hmem, hl⟩ := List.mem_filterMap.1 h
    simp only [Option.ite_none_right_eq_some, Option.some.injEq] at hl
    obtain ⟨-, rfl⟩ := hl
    have hmember := List.mem_of_mem_drop hname
    exact hnamed l (get?_ne_none_of_mem (List.ne_nil_of_mem hmember) hmem) name hmember

theorem mem_directoriesBelow (h : fs.IsDir (s ++ below)) : below ∈ fs.directoriesBelow s := by
  cases below with
  | nil => exact List.mem_cons_self
  | cons name rest =>
    obtain ⟨mode, hg⟩ := h
    rw [get?_of_ne (by simp), Option.map_eq_some_iff] at hg
    obtain ⟨⟨l, node⟩, hfind, rfl⟩ := hg
    have hl : l = s ++ name :: rest := by simpa using List.find?_some hfind
    refine List.mem_cons_of_mem _ (List.mem_filterMap.2 ⟨_, List.mem_of_find?_eq_some hfind, ?_⟩)
    simp [Node.isDirectory, hl]

/-! ## Searching -/

/-- Components of a path that a search may give. -/
inductive IsTrail : List Text → Prop
  | names {names : List Text} : (∀ part ∈ names, IsComponent part) → IsTrail names
  | dots {below : List Text} : (∀ part ∈ below, IsComponent part) → IsTrail (below ++ [("..": Text)])

theorem IsTrail.steps (h : IsTrail names) : ∀ part ∈ names, FilePath.IsStep part := by
  cases h with
  | names h => exact fun part hpart => (h part hpart).isStep
  | dots h =>
    intro part hpart
    rcases List.mem_append.1 hpart with hpart | hpart
    · exact (h part hpart).isStep
    · exact List.mem_singleton.1 hpart ▸ ⟨by decide, by decide⟩

theorem isTrail_concat (hbelow : ∀ part ∈ below, IsComponent part) (hname : FilePath.IsStep name) : IsTrail (below ++ [name]) := by
  by_cases hdots : name = ".."
  · exact hdots ▸ .dots hbelow
  · refine .names fun part hpart => ?_
    rcases List.mem_append.1 hpart with hpart | hpart
    · exact hbelow part hpart
    · exact List.mem_singleton.1 hpart ▸ ⟨⟨hname.isPart, hdots⟩, hname.noSlash⟩

/-- The path of a name in a directory beneath another, if something is there. -/
def named? (fs : FileSystem) (p : FilePath) (name : Text) (below : List Name) : Except Error (Option FilePath) :=
  (fs.node? (p.under (below ++ [name])).toText).map fun node => if node.isSome then some (p.under (below ++ [name])) else none

theorem named?_some {c : FilePath} (h : fs.named? p name below = .ok (some c)) : c = p.under (below ++ [name]) := by
  rw [named?] at h
  cases hnode : fs.node? (p.under (below ++ [name])).toText with
  | error e => simp [hnode, Except.map] at h
  | ok node =>
    simp only [hnode, Except.map, Except.ok.injEq, Option.ite_none_right_eq_some, Option.some.injEq] at h
    exact h.2.symm

/-- What is found before it is put in order: the directories, names in them that fit, or what has the name. -/
inductive Searched (fs : FileSystem) (p : FilePath) (s : Location) (name : Text) : List FilePath → Prop
  | directories : Path.names name = [] ∨ Path.names name = [("**" : Text)] → Searched fs p s name ((fs.directoriesBelow s).map p.under)
  | fitting : Glob.hasWildcard name = true → Searched fs p s name ((fs.directoriesBelow s).flatMap fun below =>
      ((fs.children (s ++ below)).filter (Glob.matchesName name)).map fun part => p.under (below ++ [part]))
  | exact {all : List FilePath} : Path.names name ≠ [] → (fs.directoriesBelow s).filterMapM (fs.named? p name) = .ok all → Searched fs p s name all

theorem searched_of_search (h : fs.Reached p s) (hok : fs.search p name = .ok found) :
    ∃ all, Searched fs p s name all ∧ found = all.mergeSort fun a b => search.le a.parts b.parts := by
  obtain ⟨mode, hstatus⟩ := h.status
  simp only [FileSystem.search, hstatus, bind, Except.bind] at hok
  split at hok
  · cases hok
  · split at hok
    · rename_i hparts
      exact ⟨_, .directories (by simpa using hparts), (Except.ok.inj hok).symm⟩
    · rename_i hparts
      split at hok
      · rename_i hwild
        exact ⟨_, .fitting hwild, (Except.ok.inj hok).symm⟩
      · split at hok
        · cases hok
        · rename_i all hall
          simp only [Bool.or_eq_true, List.isEmpty_iff, not_or] at hparts
          refine ⟨all, .exact hparts.1 (Eq.trans (congrArg (List.filterMapM · _) ?_) hall),
            (Except.ok.inj hok).symm⟩
          funext below
          rw [named?, FilePath.under]
          cases fs.node? _ <;> rfl

/-- A search gives paths in their order, and they are beneath the directory. -/
theorem search_ok (hsound : fs.Sound) (h : fs.Reached p s) (hslash : CodePoint.char '/' ∉ name)
    (hok : fs.search p name = .ok found) : found.Pairwise (fun a b => search.le a.parts b.parts = true) ∧
      ∀ c ∈ found, ∃ names, c = p.under names ∧ IsTrail names := by
  obtain ⟨all, hall, rfl⟩ := searched_of_search h hok
  have htotal (a b : FilePath) : (search.le a.parts b.parts || search.le b.parts a.parts) = true := by
    rw [Bool.or_eq_true]
    exact search_le_total a.parts b.parts
  have htrans (a b c : FilePath) (h : search.le a.parts b.parts = true) (h' : search.le b.parts c.parts = true) :
      search.le a.parts c.parts = true := search_le_trans h h'
  refine ⟨List.pairwise_mergeSort htrans htotal all, fun c hc => ?_⟩
  have hbelow : ∀ below ∈ fs.directoriesBelow s, ∀ part ∈ below, IsComponent part := fun below hbelow part hpart =>
    (isEntryName_of_directoriesBelow hsound.named hbelow part hpart).isComponent
  rw [List.mem_mergeSort] at hc
  cases hall with
  | directories _ =>
    obtain ⟨below, hmem, rfl⟩ := List.mem_map.1 hc
    exact ⟨below, rfl, .names (hbelow below hmem)⟩
  | fitting _ =>
    obtain ⟨below, hmem, hc⟩ := List.mem_flatMap.1 hc
    obtain ⟨part, hpart, rfl⟩ := List.mem_map.1 hc
    have hthere := Option.isSome_iff_ne_none.1 (mem_children.1 (List.mem_filter.1 hpart).1)
    exact ⟨_, rfl, isTrail_concat (hbelow below hmem) (hsound.named _ hthere part (by simp)).isComponent.isStep⟩
  | exact hparts hall =>
    obtain ⟨below, hmem, hc⟩ := (filterMapM_ok hall).2 c hc
    have hstep : FilePath.IsStep name := by
      refine ⟨?_, hslash⟩
      rw [Path.names_of_no_slash hslash] at hparts
      by_contra hpart
      exact hparts (if_neg hpart)
    exact ⟨below ++ [name], named?_some hc, isTrail_concat (hbelow below hmem) hstep⟩

/-- A name without wildcards is looked up in each directory. -/
theorem Searched.exact_of (h : Searched fs p s name found) (hname : IsComponent name) (hwild : Glob.hasWildcard name = false) :
    (fs.directoriesBelow s).filterMapM (fs.named? p name) = .ok found := by
  cases h with
  | directories hparts =>
    rw [Path.names_of_part hname.isName.1 hname.noSlash] at hparts
    rcases hparts with hparts | hparts
    · cases hparts
    · rw [List.singleton_inj.1 hparts] at hwild
      cases hwild
  | fitting hfits =>
    rw [hwild] at hfits
    cases hfits
  | exact _ hall => exact hall

/-- What is found then ends in the name. -/
theorem search_exact (hnamed : fs.Named) (h : fs.Reached p s) (hname : IsComponent name) (hwild : Glob.hasWildcard name = false)
    (hok : fs.search p name = .ok found) {c : FilePath} (hc : c ∈ found) :
    ∃ below, c = p.under (below ++ [name]) ∧ ∀ part ∈ below, IsEntryName part := by
  obtain ⟨all, hall, rfl⟩ := searched_of_search h hok
  rw [List.mem_mergeSort] at hc
  obtain ⟨below, hmem, hc⟩ := (filterMapM_ok (hall.exact_of hname hwild)).2 c hc
  exact ⟨below, named?_some hc, isEntryName_of_directoriesBelow hnamed hmem⟩

/-- Whatever has the name is found. -/
theorem search_complete (h : fs.Reached p s) (hname : IsComponent name) (hwild : Glob.hasWildcard name = false)
    (hother : ∀ part ∈ other, IsEntryName part) (hok : fs.search p name = .ok found)
    (hg : fs.get? (descend s (other ++ [name])) = some node) : p.under (other ++ [name]) ∈ found := by
  obtain ⟨all, hall, rfl⟩ := searched_of_search h hok
  rw [List.mem_mergeSort]
  have hdir : fs.IsDir (s ++ other) := by
    rw [← descend_of_isEntryName hother]
    have hrooted := h.rooted (descend s (other ++ [name])) (by simp [hg])
    rwa [descend_concat, child, List.dropLast_concat] at hrooted
  obtain ⟨r, hr, hmem⟩ := (filterMapM_ok (hall.exact_of hname hwild)).1 other (mem_directoriesBelow hdir)
  refine hmem _ ?_
  have hcomponents : ∀ part ∈ other ++ [name], IsComponent part := by
    simpa [or_imp, forall_and, hname] using fun part hpart => (hother part hpart).isComponent
  rcases h.status_under hcomponents (by simp) hg with hstatus | hstatus
  · rw [named?, node?, hstatus] at hr
    exact (Except.ok.inj hr).symm
  · rw [named?, node?, hstatus] at hr
    cases hr

end FileSystem

end Prebuilt
