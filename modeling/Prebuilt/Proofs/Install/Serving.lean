import Prebuilt.Proofs.Install.Shipping
/-!
What a download that ends well leaves: all binaries can be run, in the tree that was built from the archive.
-/
set_option autoImplicit false

namespace Prebuilt

open FileSystem Action FilePath

variable {m m' : Machine} {i j : Installation} {client : Option Client} {plan : Plan}

/-- A binary in a directory: the first file that has one of its names. It is not empty, and everybody may execute it. -/
def FileSystem.Serves (fs : FileSystem) (s : Location) (binary : Text) : Prop := ∃ before name after number mode content,
  binaryNames binary = before ++ name :: after ∧ (∀ x ∈ before, ¬ fs.IsFile (child s x)) ∧
    fs.get? (child s name) = some (.file number mode content) ∧ content ≠ [] ∧ mode &&& 0o111 = 0o111

/-- What is a name in a directory is a component of a path. -/
theorem isComponent_of_canonical {name : Text} (hslash : CodePoint.char '/' ∉ name) (h : IsEntryName (Name.canonical name)) :
    IsComponent name := by
  have hne : ∀ bad : Text, Name.canonical bad = bad → ¬ IsName bad → name ≠ bad := by
    rintro bad hsame hbad rfl
    exact hbad (hsame ▸ h.isName)
  refine ⟨⟨isPart_iff.2 ⟨hne [] (by decide) ?_, hne "." (by decide) ?_⟩, hne ".." (by decide) ?_⟩, hslash⟩ <;>
    rintro ⟨hpart, hup⟩
  · exact absurd hpart (by decide)
  · exact absurd hpart (by decide)
  · exact hup rfl

theorem isSendable_of_mem_binaryNames {binary name other : Text} (hname : name ∈ binaryNames binary) (hother : other ∈ binaryNames binary)
    (h : IsSendable name) : IsSendable other := by
  have hsuffix : IsSendable Installation.executableSuffix := ⟨[46, 101, 120, 101], by decide, by decide⟩
  have hbinary : IsSendable binary := by
    rcases List.mem_cons.1 hname with rfl | hname
    · exact h
    · rw [List.mem_singleton.1 hname, isSendable_append] at h
      exact h.1
  rcases List.mem_cons.1 hother with rfl | hother
  · exact hbinary
  · rw [List.mem_singleton.1 hother, isSendable_append]
    exact ⟨hbinary, hsuffix⟩

theorem Tree.Offers.serves {fs : FileSystem} {s : Location} {binary : Text} (hoffers : (fs.tree s).Offers binary) (hsound : fs.Sound)
    (hslash : CodePoint.char '/' ∉ binary) : fs.Serves s binary := by
  obtain ⟨before, name, after, node, hnames, hbefore, hhas, hg, hsize, hmode⟩ := hoffers
  have hfile : node.isFile = true := by
    obtain ⟨other, hother, hfile⟩ := hhas.isFile
    rwa [Option.some.inj (hg.symm.trans hother)]
  obtain ⟨number, mode, content, rfl⟩ : ∃ number mode content, node = .file number mode content := by
    cases node with
    | file number mode content => exact ⟨number, mode, content, rfl⟩
    | _ => cases hfile
  refine ⟨before, name, after, number, mode, content, hnames, fun x hx hthere => hbefore x hx ?_, hg, ?_, hmode⟩
  · have hmem : x ∈ binaryNames binary := by simp [hnames, hx]
    obtain ⟨node, hnode, hfile⟩ := hthere
    have hentry : IsEntryName (Name.canonical x) := hsound.named (child s x) (by simp [hnode]) _ (by simp [child])
    exact ⟨isComponent_of_canonical (slash_not_mem_binaryNames hslash x hmem) hentry,
      isSendable_of_mem_binaryNames (by simp [hnames]) hmem hhas.sendable_name, node, hnode, hfile⟩
  · rintro rfl
    exact hsize rfl

theorem hasWildcard_of_mem_binaryNames {binary name : Text} (h : Glob.hasWildcard binary = false) (hname : name ∈ binaryNames binary) :
    Glob.hasWildcard name = false := by
  rcases List.mem_cons.1 hname with rfl | hname
  · exact h
  · rw [List.mem_singleton.1 hname]
    simp only [Glob.hasWildcard, Text.has, Bool.or_eq_false_iff, List.any_append] at h ⊢
    obtain ⟨⟨hstar, hmark⟩, hbracket⟩ := h
    rw [hstar, hmark, hbracket]
    decide

/-- All that the server delivers is its archive. -/
theorem delivers_serving {content content' : Bytes} (h : (serving content emptyFiles).server.Delivers "https://h/run.tar" content') :
    content' = content := by
  obtain ⟨hurl, hrender⟩ := url_serving
  have hanswer : (serving content emptyFiles).server.answer (Url.render ⟨"https", [], "h", none, "/run.tar", none, none⟩) =
      ⟨200, none, [], content, none, none, []⟩ := by rw [hrender, answer_serving, if_pos rfl]
  obtain ⟨-, -, -, hbody⟩ := (Server.delivers_iff hurl (by rw [hanswer]; rfl)).1 h
  rw [hanswer] at hbody
  exact (Option.some.inj hbody).symm

theorem IsShipped.alone {binary name : Text} {content : Bytes} (h : IsShipped binary name content) (hdown : Path.Downward name)
    (hrelative : Path.isAbsolute name = false) : (hostedPlan [binary] "https://h/run.tar").Alone (serving content emptyFiles) := by
  refine alone_emptyFiles fun content' hdelivers compressed members source htype hmembers member hmember => ?_
  obtain rfl := delivers_serving hdelivers
  obtain rfl : compressed = false := by simpa [tarTypes] using htype
  cases h.members.symm.trans hmembers
  obtain rfl := List.mem_singleton.1 hmember
  exact ⟨.inl rfl, hdown, fun habsolute => absurd (hrelative.symm.trans habsolute) (by simp)⟩

end Prebuilt
