import Prebuilt.Proofs.Install.Performing
/-!
Paths of what lies directly in the destination. Where no link stands there, such a path leads to an entry of the destination, be the
path of the destination itself what it may.
-/
set_option autoImplicit false

namespace Prebuilt.FileSystem

open FilePath

variable {fs fs' : FileSystem} {p : FilePath} {d l : Location} {name : Text} {node : Node}

theorem parts_eq_concat (h : IsComponent p.name) : p.parts = p.parts.dropLast ++ [p.name] := by
  have hbeside := congrArg FilePath.parts (beside_name (ne_nil_of_name h))
  exact hbeside.symm

theorem div_eq_under_one (p : FilePath) (h : IsComponent name) : p / name = p.under [name] := by
  rw [p.div_eq_under h.noSlash, Path.names_of_part h.isName.1 h.noSlash]

/-- No link stands at the destination or in it. -/
def HasNoLinks (fs : FileSystem) (p : FilePath) : Prop := ∀ d, fs.LiesIn p d → ∀ l, child d p.name <+: l → ¬ fs.IsLink l

/-- The directory that the path of the destination lies in is one only. -/
theorem LiesIn.unique {d' : Location} (h : fs.LiesIn p d) (h' : fs.LiesIn p d') : d = d' := by
  obtain ⟨n, hn⟩ := h
  obtain ⟨m, hm⟩ := h'
  exact (hn.deterministic hm).2

/-- What is found at such a path is an entry of the destination. -/
theorem status_entry_ok (hp : p.Tidy) (hroot : fs.Rooted) (hkey : IsComponent p.name) (hname : IsComponent name)
    (hlinks : fs.HasNoLinks p) (h : fs.status (p.under [name]).toText true = .ok (l, node)) :
    ∃ d, fs.LiesIn p d ∧ byteLength name ≤ nameLimit ∧ l = child (child d p.name) name ∧ fs.get? l = some node := by
  have hsteps : ∀ part ∈ [name], IsStep part := by simpa using hname.isStep
  obtain ⟨⟨n, hleads⟩, hg⟩ := status_ok hroot h
  have horigin : fs.origin (p.under [name]).toText = fs.origin p.toText := by rw [origin, origin, hp.isAbsolute_under hsteps]
  rw [(hp.under hsteps).names_toText, horigin, FilePath.under, parts_eq_concat hkey, List.append_assoc] at hleads
  obtain ⟨d, k, _, hd, hrest, -⟩ := hleads.split
  have hlies : fs.LiesIn p d := ⟨k, hd⟩
  refine ⟨d, hlies, ?_⟩
  have hstep {e : Location} {part : Text} {rest : List Text} {m : Nat} (hpart : IsName part) (hlink : ¬ fs.IsLink (child e part))
      (hleads : fs.Leads m e (part :: rest) l) : byteLength part ≤ nameLimit ∧ fs.Leads m (child e part) rest l := by
    cases hleads with
    | skip hskip => simp [hpart.1] at hskip
    | up hup => exact absurd hup hpart.2
    | step _ hshort _ hleads => exact ⟨hshort, hleads⟩
    | link _ _ hlinked => exact absurd ⟨_, hlinked⟩ hlink
  obtain ⟨-, hrest⟩ := hstep hkey.isName (hlinks d hlies _ List.prefix_rfl) hrest
  obtain ⟨hshort, hrest⟩ := hstep hname.isName (hlinks d hlies _ (List.prefix_append ..)) hrest
  cases hrest
  exact ⟨hshort, rfl, hg⟩

/-- An entry of the destination that is no link is found at its path, if that is not too long. -/
theorem Home.status_entry (h : fs.Home p d) (hkey : IsComponent p.name) (hshort : byteLength p.name ≤ nameLimit)
    (hdir : fs.IsDir (child d p.name)) (hname : IsComponent name) (hshort' : byteLength name ≤ nameLimit)
    (hroom : byteLength (p.under [name]).toText < pathLimit) (hg : fs.get? (child (child d p.name) name) = some node)
    (hlink : ¬ fs.IsLink (child (child d p.name) name)) :
    fs.status (p.under [name]).toText true = .ok (child (child d p.name) name, node) := by
  have hsteps : ∀ part ∈ [name], IsStep part := by simpa using hname.isStep
  have habs := h.tidy.isAbsolute_under hsteps
  have horigin : fs.origin (p.under [name]).toText = fs.origin p.toText := by rw [origin, origin, habs]
  obtain ⟨n, hn, hreach⟩ := h.reach
  have hkeyLink : ¬ fs.IsLink (child d p.name) := by
    obtain ⟨mode, hm⟩ := hdir
    simp [IsLink, hm]
  have hinto : fs.Reaches n (fs.origin (p.under [name]).toText) p.parts (child d p.name) := by
    rw [horigin, parts_eq_concat hkey]
    have hlast : fs.Reaches 0 d [p.name] (child d p.name) := .step hkey.isName ⟨hshort, .inl hdir⟩ hkeyLink (.nil _)
    exact hreach.append hlast
  have hstart : fs.start (p.under [name]).toText = .ok (fs.origin (p.under [name]).toText) := by
    rw [start_cases (toText_ne_nil _) (habs ▸ h.start), if_neg (Nat.not_le.2 hroom)]
  have haddr : fs.Addresses (p.under [name]).toText (child (child d p.name) name) :=
    addresses_toText (h.tidy.under hsteps) rfl hname.isName hshort' hstart hn hinto hdir
  rw [haddr.status (.inr hlink), hg]

/-- The way to what lies in the destination leads through the directory of the destination. -/
theorem Home.place_under (h : fs.Home p d) (hkey : IsComponent p.name) (hname : IsComponent name) : ∃ links,
    fs.place .target (p.under [name]).toText = if pathLimit ≤ byteLength (p.under [name]).toText then .error .nameTooLong
      else fs.walk .target links d [p.name, name] := by
  have hsteps : ∀ part ∈ [name], IsStep part := by simpa using hname.isStep
  have habs := h.tidy.isAbsolute_under hsteps
  obtain ⟨n, hn, hreach⟩ := h.reach
  obtain ⟨empties, hempty, hsplit⟩ := (h.tidy.under hsteps).splitOn_toText (by simp [FilePath.under])
  have hskip : empties.filter FilePath.isPart = [] := List.filter_eq_nil_iff.2 fun e he => by
    rw [hempty e he]
    decide
  have hinto : fs.Reaches n (fs.origin (p.under [name]).toText) (empties ++ p.parts.dropLast) d := by
    refine follows_filter.1 ?_
    rw [List.filter_append, hskip, List.nil_append, origin, habs, ← origin]
    exact follows_filter.2 hreach
  have hparts : (p.under [name]).parts = p.parts.dropLast ++ [p.name, name] := by
    rw [FilePath.under, parts_eq_concat hkey]
    simp
  rw [hparts, ← List.append_assoc] at hsplit
  refine ⟨linkLimit - n, ?_⟩
  rw [FileSystem.place, start_cases (toText_ne_nil _) (habs ▸ h.start)]
  split
  · rfl
  · exact hsplit ▸ walk_append_of_reaches (continues_cons hkey.isName) hinto hn

/-- What is found in the destination does not depend on what is beside it, if no link stands there. -/
theorem Home.status_congr (h : fs.Home p d) (h' : fs'.Home p d) (hkey : IsComponent p.name) (hname : IsComponent name)
    (hsame : ∀ l, child d p.name <+: l → fs.get? l = fs'.get? l) (hlinks : ∀ l, child d p.name <+: l → ¬ fs.IsLink l) :
    fs.status (p.under [name]).toText true = fs'.status (p.under [name]).toText true := by
  obtain ⟨links, hplace⟩ := h.place_under hkey hname
  obtain ⟨links', hplace'⟩ := h'.place_under hkey hname
  have hwalk : fs.walk .target links d [p.name, name] = fs'.walk .target links' d [p.name, name] := by
    have hbelow : child d p.name <+: child (child d p.name) name := List.prefix_append ..
    have hkeyLink := hlinks _ List.prefix_rfl
    have hlink := hlinks _ hbelow
    rw [walk_name hkey.isName (continues_cons hname.isName), walk_name hkey.isName (continues_cons hname.isName),
      ← hsame _ List.prefix_rfl]
    split
    · rfl
    · cases hg : fs.get? (child d p.name) with
      | none => rfl
      | some node =>
        cases node with
        | link target => exact absurd ⟨target, hg⟩ hkeyLink
        | directory mode =>
          simp only
          rw [walk_last hname.isName, walk_last hname.isName, ← hsame _ hbelow]
          split
          · rfl
          · cases hg' : fs.get? (child (child d p.name) name) with
            | none => rfl
            | some node =>
              cases node with
              | link target => exact absurd ⟨target, hg'⟩ hlink
              | _ => rfl
        | _ => rfl
  rw [FileSystem.status, FileSystem.status, if_pos rfl, hplace, hplace', hwalk]

/-- Where nothing stands at the destination nothing is found in it. -/
theorem Home.status_under_none (h : fs.Home p d) (hkey : IsComponent p.name) (hname : IsComponent name)
    (hnone : fs.get? (child d p.name) = none) : ∃ e, fs.status (p.under [name]).toText true = .error e := by
  obtain ⟨links, hplace⟩ := h.place_under hkey hname
  obtain ⟨e, he⟩ : ∃ e, fs.place .target (p.under [name]).toText = .error e := by
    rw [hplace, walk_name hkey.isName (continues_cons hname.isName), hnone]
    split
    · exact ⟨_, rfl⟩
    · split <;> exact ⟨_, rfl⟩
  exact ⟨e, by rw [FileSystem.status, if_pos rfl, he]⟩

/-- It can be handed to the system if the destination and its own name can. -/
theorem isSendable_div (hp : p.Tidy) (hkey : IsComponent p.name) (hsend : Action.IsSendable p.toText) (hname : IsComponent name)
    (hsend' : Action.IsSendable name) : Action.IsSendable (p / name).toText := by
  rw [div_eq_under_one _ hname, hp.toText_under (ne_nil_of_name hkey) (by simp) (by simpa using hname.isStep),
    Action.isSendable_append, Action.isSendable_append]
  exact ⟨⟨hsend, Action.isSendable_slash⟩, hsend'⟩

end Prebuilt.FileSystem
