import Prebuilt.Proofs.Install.Layout
/-!
Which of its two names a binary is found under. What is moved to the top keeps its name, so an archive that has the binary under one
of them only, or where it is looked for first, decides the name that it has in the end.
-/
set_option autoImplicit false

namespace Prebuilt.Tree

open FileSystem Prebuilt.Action

variable {tree tree' : Tree} {binary name found other x : Text} {binaries : List Text} {below above : List Name} {node : Node}

/-- The second name that a binary may have. -/
abbrev marked (binary : Text) : Text := binary ++ Installation.executableSuffix

/-- The archive has the binary in such a way that it is found under the name. -/
inductive Ships (tree : Tree) (binaries : List Text) (binary : Text) : Text → Prop
  /-- At the top its own name comes first. -/
  | top : tree.Has [] binary → Ships tree binaries binary binary
  /-- Deeper down it does too, unless the other name is at the top, or a binary of that name is moved there. -/
  | beneath {below : List Name} : tree.Has below binary → ¬ tree.Has [] (marked binary) →
      (∀ other ∈ binaries, other ≠ binary → ∀ x ∈ binaryNames other, Name.canonical x ≠ Name.canonical (marked binary)) →
        Ships tree binaries binary binary
  /-- Nothing in the archive goes by the other name. -/
  | only {name : Text} : (∀ other ∈ binaryNames binary, other ≠ name → ∀ below, ¬ tree.Has below other) →
      Ships tree binaries binary name

/-! ## What a move keeps -/

/-- A name counts for what it is on the disk. -/
theorem Has.of_canonical (h : tree.Has below name) (hx : tree'.Has above x) (he : Name.canonical x = Name.canonical name) :
    tree.Has below x where
  component := hx.component
  sendable := by
    have hsend := h.sendable
    have hsend' := hx.sendable_name
    cases below with
    | nil => exact hsend'
    | cons part rest =>
      rw [Text.joinWith_append _ (by simp) (by simp), isSendable_append] at hsend ⊢
      exact ⟨hsend.1, hsend'⟩
  isFile := by
    rw [he]
    exact h.isFile

theorem has_lift_top (hnode : node.isFile = true) (h : tree.Has [] x) : (tree.lift below name node).Has [] x where
  component := h.component
  sendable := h.sendable
  isFile := by
    rw [List.nil_append, lift_top]
    split
    · exact ⟨_, rfl, (executable_file hnode).1⟩
    · exact h.isFile

/-- What has a name after the move had it before. -/
theorem Has.before_lift (hname : tree.Has below name) (h : (tree.lift below name node).Has above x) : ∃ origin, tree.Has origin x := by
  obtain ⟨other, hg, hfile⟩ := h.isFile
  rw [lift] at hg
  split at hg
  · rename_i he
    have hsame : Name.canonical x = Name.canonical name := by simpa using congrArg List.getLast? he
    exact ⟨below, hname.of_canonical h hsame⟩
  · split at hg
    · cases hg
    · exact ⟨above, h.component, h.sendable, other, hg, hfile⟩

/-- A file of another name stays where it is, unless something is put in its place. -/
theorem Has.after_lift (h : tree.Has above x) (hne : Name.canonical x ≠ Name.canonical name) :
    (tree.lift below name node).Has above x where
  component := h.component
  sendable := h.sendable
  isFile := by
    have hlast {front : List Name} : above ++ [Name.canonical x] ≠ front ++ [Name.canonical name] := fun he =>
      hne (by simpa using congrArg List.getLast? he)
    have htop : above ++ [Name.canonical x] ≠ [Name.canonical name] := @hlast []
    rw [lift, if_neg htop, if_neg hlast]
    exact h.isFile

/-- A file of the name that is moved is at the top after the move. -/
theorem Has.lifted (h : tree.Has above x) (hnode : node.isFile = true) (hsame : Name.canonical x = Name.canonical name) :
    (tree.lift below name node).Has [] x :=
  ⟨h.component, h.sendable_name, _, by rw [List.nil_append, lift_top, if_pos hsame], (executable_file hnode).1⟩

/-! ## Preparing -/

theorem Prepares.has_top (h : Prepares binaries tree tree') (hx : tree.Has [] x) : tree'.Has [] x := by
  induction h with
  | nil tree => exact hx
  | cons _ _ hnode _ ih => exact ih (has_lift_top hnode hx)

theorem Prepares.has_before (h : Prepares binaries tree tree') (hx : tree'.Has above x) : ∃ origin, tree.Has origin x := by
  induction h generalizing above with
  | nil tree => exact ⟨above, hx⟩
  | cons hlocates _ _ _ ih =>
    obtain ⟨origin, hwhere⟩ := ih hx
    obtain ⟨-, -, -, -, hfound⟩ := hlocates.names
    exact hfound.before_lift hwhere

/-- A name that a file has before the moves is there after them, wherever the file is then. -/
theorem Prepares.has_after (h : Prepares binaries tree tree') (hx : tree.Has below x) : ∃ above, tree'.Has above x := by
  induction h generalizing below with
  | nil tree => exact ⟨below, hx⟩
  | @cons _ found _ _ _ _ _ _ _ hnode _ ih =>
    by_cases hsame : Name.canonical x = Name.canonical found
    · exact ih (hx.lifted hnode hsame)
    · exact ih (hx.after_lift hsame)

/-- A binary whose other name is not at the top, and does not come there, is found under its own. The induction is on the binaries that
are prepared. -/
theorem Prepares.has_own (h : Prepares binaries tree tree') (hbinary : binary ∈ binaries) (hown : tree.Has below binary)
    (hmarked : ¬ tree.Has [] (marked binary))
    (hothers : ∀ other ∈ binaries, other ≠ binary → ∀ x ∈ binaryNames other, Name.canonical x ≠ Name.canonical (marked binary)) :
    tree'.Has [] binary := by
  induction h generalizing below with
  | nil tree => cases hbinary
  | @cons other found rest front node tree tree' hlocates hg hnode hrest ih =>
    by_cases hsame : Name.canonical binary = Name.canonical found
    · exact hrest.has_top (hown.lifted hnode hsame)
    obtain ⟨before, after, hnames, hbefore, hfound⟩ := hlocates.names
    have hne : binary ≠ other := by
      rintro rfl
      have hmem : found ∈ binaryNames binary := by simp [hnames]
      rcases List.mem_cons.1 hmem with rfl | hmem
      · exact hsame rfl
      obtain rfl := List.mem_singleton.1 hmem
      cases hlocates with
      | top _ _ htop => exact hmarked htop
      | @beneath before' after' _ hnames' _ hnone _ _ =>
        have hbefore' : binary ∈ before' := by
          cases before' with
          | nil => exact absurd (congrArg Name.canonical (List.cons.inj hnames').1) hsame
          | cons first more => exact (List.cons.inj hnames').1 ▸ List.mem_cons_self
        exact hnone binary hbefore' _ hown
    obtain hbinary := (List.mem_cons.1 hbinary).resolve_left hne
    refine ih hbinary (hown.after_lift hsame) (fun hthere => hmarked ?_) fun other hother => hothers other (List.mem_cons_of_mem _ hother)
    obtain ⟨node', hg', hfile⟩ := hthere.isFile
    have hdiff := hothers other List.mem_cons_self (Ne.symm hne) found (by simp [hnames])
    rw [List.nil_append, lift_top, if_neg (Ne.symm hdiff)] at hg'
    exact ⟨hthere.component, hthere.sendable, node', hg', hfile⟩

/-- The binary is found under the name that the archive has it under. -/
theorem Prepares.finds_eq (h : Prepares binaries tree tree') (hbinary : binary ∈ binaries) (hships : tree.Ships binaries binary name)
    (hfinds : tree'.Finds binary found) : found = name := by
  obtain ⟨before, after, hnames, hbefore, hfound⟩ := hfinds
  have hfirst (hown : tree'.Has [] binary) : found = binary := by
    cases before with
    | nil => exact (List.cons.inj hnames).1.symm
    | cons first more =>
      exact absurd ((List.cons.inj hnames).1 ▸ hown) (hbefore first List.mem_cons_self)
  cases hships with
  | top hown => exact hfirst (h.has_top hown)
  | beneath hown hmarked hothers => exact hfirst (h.has_own hbinary hown hmarked hothers)
  | only honly =>
    by_contra hne
    obtain ⟨origin, hwhere⟩ := h.has_before hfound
    exact honly found (by simp [hnames]) hne origin hwhere

/-- So it is in the tree of the installation. -/
theorem Built.finds_eq {url : Text} {unpacked : Tree} (h : Built url binaries unpacked tree) (hmarker : Installation.markerName ∉ binaries)
    (hbinary : binary ∈ binaries) (hships : unpacked.Ships binaries binary name) (hfinds : tree.Finds binary found) : found = name := by
  obtain @⟨prepared, number, mode, bytes, hprepares, -, -, -, -, rfl⟩ := h
  exact hprepares.finds_eq hbinary hships ((finds_put_marker fun he => hmarker (he ▸ hbinary)).1 hfinds)

/-- So is every name of the archive. -/
theorem Built.has_after {url : Text} {unpacked : Tree} (h : Built url binaries unpacked tree) (hx : unpacked.Has below x) :
    ∃ above, tree.Has above x := by
  obtain @⟨prepared, number, mode, bytes, hprepares, -, -, -, -, rfl⟩ := h
  obtain ⟨above, hthere⟩ := hprepares.has_after hx
  refine ⟨above, hthere.component, hthere.sendable, ?_⟩
  rw [put]
  split
  · exact ⟨_, rfl, rfl⟩
  · exact hthere.isFile

end Prebuilt.Tree
