import Prebuilt.Proofs.Archive.Downloading
import Prebuilt.Proofs.Install.Locating
/-!
The tree of an installation, as it comes from the tree of an archive: each binary is moved to the top and may be executed, and
a marker tells where the archive came from. Files at the top stay there, and those that are moved there may be executed.
-/
set_option autoImplicit false

namespace Prebuilt

open FileSystem Action FilePath

namespace Tree

variable {tree tree' tree'' : Tree} {binary name : Text} {binaries : List Text} {below : List Name} {l : Location} {node : Node}

/-- A file of the name in a directory of the tree; its path can be handed to the system. -/
structure Has (tree : Tree) (below : List Name) (name : Text) : Prop where
  component : IsComponent name
  sendable : IsSendable (Text.joinWith "/" (below ++ [name]))
  isFile : ∃ node, tree (below ++ [Name.canonical name]) = some node ∧ node.isFile = true

/-- Where a binary is found: at the top under the first of its names that a file has, or else as the first file of such a name
beneath. -/
inductive Locates (tree : Tree) (binary name : Text) : List Name → Prop
  | top {before after : List Text} : binaryNames binary = before ++ name :: after → (∀ x ∈ before, ¬ tree.Has [] x) →
      tree.Has [] name → Locates tree binary name []
  | beneath {before after : List Text} {below : List Name} : binaryNames binary = before ++ name :: after →
      (∀ x ∈ binaryNames binary, ¬ tree.Has [] x) → (∀ x ∈ before, ∀ other, ¬ tree.Has other x) → tree.Has below name →
        (∀ other, tree.Has other name → search.le (below ++ [name]) (other ++ [name]) = true) → Locates tree binary name below

/-- The tree with a file moved to the top, where everybody may execute it. -/
def lift (tree : Tree) (below : List Name) (name : Text) (node : Node) : Tree := fun l =>
  if l = [Name.canonical name] then some (executable node)
  else if l = below ++ [Name.canonical name] then none
  else tree l

/-- Each binary in turn is found and moved to the top. -/
inductive Prepares : List Text → Tree → Tree → Prop
  | nil (tree : Tree) : Prepares [] tree tree
  | cons {binary name : Text} {rest : List Text} {below : List Name} {node : Node} {tree tree' : Tree} :
      tree.Locates binary name below → tree (below ++ [Name.canonical name]) = some node → node.isFile = true →
        Prepares rest (tree.lift below name node) tree' → Prepares (binary :: rest) tree tree'

/-- The first of the binary's names that a file at the top has. -/
def Finds (tree : Tree) (binary name : Text) : Prop :=
  ∃ before after, binaryNames binary = before ++ name :: after ∧ (∀ x ∈ before, ¬ tree.Has [] x) ∧ tree.Has [] name

/-- The first file at the top that has one of the binary's names, and that it is not empty. -/
def Verifies (tree : Tree) (binary : Text) : Prop := ∃ before name after node, binaryNames binary = before ++ name :: after ∧
  (∀ x ∈ before, ¬ tree.Has [] x) ∧ tree.Has [] name ∧ tree [Name.canonical name] = some node ∧ node.size ≠ 0

/-- The tree with a file at a location. -/
def put (tree : Tree) (l : Location) (node : Node) : Tree := fun l' => if l' = l then some node else tree l'

/-- The tree of an installation, from the tree that was unpacked: all binaries are there, and the marker holds the address. A
file in the marker's place lends it its permissions. -/
inductive Built (url : Text) (binaries : List Text) (unpacked tree : Tree) : Prop
  | intro {prepared : Tree} {number mode : Nat} {bytes : Bytes} : Prepares binaries unpacked prepared →
      (∀ binary ∈ binaries, prepared.Verifies binary) → Utf8.encode (url ++ "\n") = .ok bytes →
        (∀ node, prepared [Installation.markerName] = some node → mode = node.mode) →
          (prepared [Installation.markerName] = none → mode = fileMode) →
            tree = prepared.put [Installation.markerName] (.file number mode bytes) → Built url binaries unpacked tree

/-! ## Files that may be executed -/

/-- A file at the top that everybody may execute. -/
def Runs (tree : Tree) (name : Name) : Prop :=
  ∃ node, tree [name] = some node ∧ node.isFile = true ∧ node.mode &&& 0o111 = 0o111

theorem executable_file (h : node.isFile = true) : (executable node).isFile = true ∧ (executable node).mode &&& 0o111 = 0o111 ∧
    (executable node).size = node.size := by
  cases node with
  | file number mode content =>
    refine ⟨rfl, Nat.eq_of_testBit_eq fun i => ?_, rfl⟩
    show (((mode ||| 0o111) % 2 ^ 12) &&& 0o111).testBit i = _
    rw [Nat.testBit_and, Nat.testBit_mod_two_pow, Nat.testBit_or]
    by_cases hi : i < 12
    · cases mode.testBit i <;> simp [hi]
    · have hhigh : Nat.testBit 0o111 i = false :=
        Nat.testBit_lt_two_pow (Nat.lt_of_lt_of_le (by decide) (Nat.pow_le_pow_right (by decide) (Nat.not_lt.1 hi)))
      simp [hhigh]
  | _ => cases h

/-- What is at the top when a file has moved there: the file, or what was there. -/
theorem lift_top (tree : Tree) (below : List Name) (name : Text) (node : Node) (x : Name) :
    tree.lift below name node [x] = if x = Name.canonical name then some (executable node) else tree [x] := by
  rw [lift]
  by_cases hx : x = Name.canonical name
  · rw [if_pos (by rw [hx]), if_pos hx]
  · rw [if_neg (by simpa using hx), if_neg hx, if_neg]
    intro he
    exact hx (by simpa using congrArg List.getLast? he)

theorem runs_lift {x : Name} (hnode : node.isFile = true) (h : tree.Runs x) : (tree.lift below name node).Runs x := by
  obtain ⟨other, hother, hfile, hmode⟩ := h
  obtain ⟨hfile', hmode', -⟩ := executable_file hnode
  rw [Runs, lift_top]
  split
  · exact ⟨_, rfl, hfile', hmode'⟩
  · exact ⟨other, hother, hfile, hmode⟩

/-- A file that is new at the top may be executed. -/
theorem runs_or_of_lift {x : Name} {other : Node} (hnode : node.isFile = true) (h : tree.lift below name node [x] = some other)
    (hfile : other.isFile = true) : (∃ other, tree [x] = some other ∧ other.isFile = true) ∨ (tree.lift below name node).Runs x := by
  obtain ⟨hfile', hmode', -⟩ := executable_file hnode
  rw [lift_top] at h
  split at h
  · rename_i hx
    exact .inr ⟨_, by rw [lift_top, if_pos hx], hfile', hmode'⟩
  · exact .inl ⟨other, h, hfile⟩

/-- Files at the top stay there, and new ones may be executed. -/
structure Grows (tree tree' : Tree) : Prop where
  runs : ∀ x, tree.Runs x → tree'.Runs x
  new : ∀ x node, tree' [x] = some node → node.isFile = true → (∃ node, tree [x] = some node ∧ node.isFile = true) ∨ tree'.Runs x

theorem grows_lift (hnode : node.isFile = true) : tree.Grows (tree.lift below name node) :=
  ⟨fun _ => runs_lift hnode, fun _ _ => runs_or_of_lift hnode⟩

theorem Grows.trans (h : tree.Grows tree') (h' : tree'.Grows tree'') : tree.Grows tree'' where
  runs x hx := h'.runs x (h.runs x hx)
  new x node hg hfile := by
    rcases h'.new x node hg hfile with ⟨other, hother, hfile'⟩ | hruns
    · exact (h.new x other hother hfile').imp_right (h'.runs x)
    · exact .inr hruns

theorem Prepares.grows (h : Prepares binaries tree tree') : tree.Grows tree' := by
  induction h with
  | nil tree => exact ⟨fun _ => id, fun _ node hg hfile => .inl ⟨node, hg, hfile⟩⟩
  | cons _ _ hnode _ ih => exact (grows_lift hnode).trans ih

theorem Has.runs (h : tree.Has [] name) (hgrows : tree'.Grows tree) (hnot : ¬ tree'.Has [] name) : tree.Runs (Name.canonical name) := by
  obtain ⟨node, hg, hfile⟩ := h.isFile
  refine (hgrows.new _ node hg hfile).resolve_left fun hthere => ?_
  exact hnot ⟨h.component, h.sendable, hthere⟩

theorem first_cases {α : Type} {before before' after after' : List α} {a b : α} (h : before ++ a :: after = before' ++ b :: after') :
    a ∈ before' ∨ a = b ∨ b ∈ before := by
  rcases List.append_eq_append_iff.1 h with ⟨more, rfl, hmore⟩ | ⟨more, rfl, hmore⟩ <;> cases more <;> simp_all

theorem Locates.names (h : tree.Locates binary name below) : ∃ before after, binaryNames binary = before ++ name :: after ∧
    (∀ x ∈ before, ¬ tree.Has [] x) ∧ tree.Has below name := by
  cases h with
  | top hnames hbefore hhas => exact ⟨_, _, hnames, hbefore, hhas⟩
  | beneath hnames htop _ hhas _ => exact ⟨_, _, hnames, fun x hx => htop x (by simp [hnames, hx]), hhas⟩

/-- A file with a path that can be handed to the system has a name that can. -/
theorem Has.sendable_name (h : tree.Has below name) : IsSendable name := by
  have hsend := h.sendable
  cases below with
  | nil => exact hsend
  | cons part rest =>
    rw [Text.joinWith_append _ (by simp) (by simp), isSendable_append] at hsend
    exact hsend.2

/-- Once a binary is prepared, the first file that has one of its names may be executed. -/
theorem Prepares.runs (h : Prepares binaries tree tree') (hbinary : binary ∈ binaries) {before after : List Text}
    (hnames : binaryNames binary = before ++ name :: after) (hbefore : ∀ x ∈ before, ¬ tree'.Has [] x) (hhas : tree'.Has [] name) :
    tree'.Runs (Name.canonical name) := by
  induction h with
  | nil tree => cases hbinary
  | @cons other found rest below node tree tree' hlocates hg hnode hrest ih =>
    rcases List.mem_cons.1 hbinary with rfl | hbinary
    · obtain ⟨before', after', hnames', hbefore', hfound⟩ := hlocates.names
      have hruns : tree'.Runs (Name.canonical found) := by
        obtain ⟨hfile, hmode, -⟩ := executable_file hnode
        exact hrest.grows.runs _ ⟨_, by rw [lift_top, if_pos rfl], hfile, hmode⟩
      have hthere : tree'.Has [] found := by
        obtain ⟨node, hg, hfile, -⟩ := hruns
        exact ⟨hfound.component, hfound.sendable_name, node, hg, hfile⟩
      rcases first_cases (hnames.symm.trans hnames') with hmem | rfl | hmem
      · exact hhas.runs ((grows_lift hnode).trans hrest.grows) (hbefore' name hmem)
      · exact hruns
      · exact absurd hthere (hbefore found hmem)
    · exact ih hbinary hbefore hhas

/-! ## Installed binaries -/

theorem canonical_ne_markerName (h : name ≠ Installation.markerName) : Name.canonical name ≠ Installation.markerName := by
  have hbytes : Utf8.encodeName Installation.markerName = .ok [46, 115, 111, 117, 114, 99, 101, 45, 117, 114, 108] := by decide
  exact fun he => h (Name.eq_of_canonical_eq hbytes (by simp) he)

theorem ne_markerName_of_mem_binaryNames (hbinary : binary ≠ Installation.markerName) (hname : name ∈ binaryNames binary) :
    name ≠ Installation.markerName := by
  rintro rfl
  rcases List.mem_cons.1 hname with he | hname
  · exact hbinary he.symm
  · have hlast := congrArg List.getLast? (List.mem_singleton.1 hname)
    rw [List.getLast?_append_of_ne_nil _ (by decide)] at hlast
    revert hlast
    decide

theorem put_of_ne (hne : l ≠ below) : tree.put below node l = tree l := by rw [put, if_neg hne]

theorem has_put_marker (hname : name ≠ Installation.markerName) :
    (tree.put [Installation.markerName] node).Has [] name ↔ tree.Has [] name := by
  have hne : [Name.canonical name] ≠ [Installation.markerName] := by simpa using canonical_ne_markerName hname
  constructor <;> rintro ⟨hcomponent, hsend, hfile⟩ <;> refine ⟨hcomponent, hsend, ?_⟩ <;>
    simpa only [List.nil_append, put_of_ne hne] using hfile

theorem finds_put_marker (hbinary : binary ≠ Installation.markerName) :
    (tree.put [Installation.markerName] node).Finds binary name ↔ tree.Finds binary name := by
  have hhas {x : Text} (hx : x ∈ binaryNames binary) : (tree.put [Installation.markerName] node).Has [] x ↔ tree.Has [] x :=
    has_put_marker (ne_markerName_of_mem_binaryNames hbinary hx)
  refine exists_congr fun before => exists_congr fun after => and_congr_right fun hnames => ?_
  rw [hhas (by simp [hnames]), forall₂_congr fun x hx => not_congr (hhas (x := x) (by simp [hnames, hx]))]

/-- A binary of the tree: the first file that has one of its names at the top. It is not empty and may be executed. -/
def Offers (tree : Tree) (binary : Text) : Prop := ∃ before name after node, binaryNames binary = before ++ name :: after ∧
  (∀ x ∈ before, ¬ tree.Has [] x) ∧ tree.Has [] name ∧ tree [Name.canonical name] = some node ∧ node.size ≠ 0 ∧
    node.mode &&& 0o111 = 0o111

/-- All binaries of an installation are there, unless one of them goes by the name of the marker. -/
theorem Built.offers {url : Text} {unpacked : Tree} (h : Built url binaries unpacked tree) (hmarker : Installation.markerName ∉ binaries)
    (hbinary : binary ∈ binaries) : tree.Offers binary := by
  obtain @⟨prepared, number, mode, bytes, hprepares, hverifies, -, -, -, rfl⟩ := h
  obtain ⟨before, name, after, node, hnames, hbefore, hhas, hg, hsize⟩ := hverifies binary hbinary
  have hne : ∀ x ∈ binaryNames binary, x ≠ Installation.markerName := fun x =>
    ne_markerName_of_mem_binaryNames fun he => hmarker (he ▸ hbinary)
  have hname := hne name (by simp [hnames])
  obtain ⟨other, hother, -, hmode⟩ := hprepares.runs hbinary hnames hbefore hhas
  obtain rfl := Option.some.inj (hg.symm.trans hother)
  refine ⟨before, name, after, node, hnames, fun x hx => ?_, (has_put_marker hname).2 hhas, ?_, hsize, hmode⟩
  · rw [has_put_marker (hne x (by simp [hnames, hx]))]
    exact hbefore x hx
  · rw [put_of_ne (by simpa using canonical_ne_markerName hname), hg]

end Tree

end Prebuilt
