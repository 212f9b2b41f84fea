import Prebuilt.Files.Aside
import Prebuilt.Proofs.Files.Inward
import Prebuilt.Proofs.Files.Resolving
import Prebuilt.Proofs.Text.Encodable
/-!
Paths that differ from each other in their last component alone. They start in the same place and name entries of the same
directory, so one of them can be handed to the system if another can, lengths apart.
-/
set_option autoImplicit false

namespace Prebuilt

namespace Text

theorem joinWith_concat (sep : Text) (parts : List Text) (last : Text) (h : parts ≠ []) :
    joinWith sep (parts ++ [last]) = joinWith sep parts ++ sep ++ last := by
  induction parts with
  | nil => exact absurd rfl h
  | cons p ps ih =>
    cases ps with
    | nil => simp [joinWith]
    | cons q qs =>
      have hh := ih (by simp)
      simp only [List.cons_append] at hh ⊢
      rw [joinWith, hh, joinWith]
      simp

end Text

/-- A name that may stand between slashes. -/
structure FileSystem.IsComponent (name : Text) : Prop where
  isName : IsName name
  noSlash : CodePoint.char '/' ∉ name

theorem FileSystem.IsComponent.ne_nil {name : Text} (h : IsComponent name) : name ≠ [] := (FilePath.isPart_iff.1 h.isName.1).1

namespace FilePath

variable {p : FilePath} {name next : Text}

/-- The path of something else in the same directory. -/
def beside (p : FilePath) (name : Text) : FilePath := ⟨p.root, p.parts.dropLast ++ [name]⟩

theorem Tidy.beside (hp : p.Tidy) (hname : FileSystem.IsComponent name) : (p.beside name).Tidy where
  root := hp.root
  isPart part h := by
    rcases List.mem_append.1 h with h | h
    · exact hp.parent.isPart part h
    · rw [List.mem_singleton.1 h]
      exact hname.isName.1
  noSlash part h := by
    rcases List.mem_append.1 h with h | h
    · exact hp.parent.noSlash part h
    · rw [List.mem_singleton.1 h]
      exact hname.noSlash

theorem beside_name (h : p.parts ≠ []) : p.beside p.name = p := by
  have hlast : p.parts.dropLast ++ [p.name] = p.parts := by
    rw [name, List.getLast?_eq_some_getLast h, Option.getD_some, List.dropLast_append_getLast]
  rw [beside, hlast]

/-- What stands before the last component. -/
def front (p : FilePath) : Text :=
  if p.parts.dropLast = [] then p.root else p.root ++ Text.joinWith "/" p.parts.dropLast ++ "/"

theorem toText_beside (p : FilePath) (h : name ≠ []) : (p.beside name).toText = p.front ++ name := by
  have hj : p.root ++ Text.joinWith "/" (p.parts.dropLast ++ [name]) = p.front ++ name := by
    unfold front
    split
    · rename_i hnil
      simp [hnil, Text.joinWith]
    · rename_i hne
      rw [Text.joinWith_concat _ _ _ hne]
      simp
  rw [toText, beside, hj, if_neg]
  simp [h]

theorem Tidy.joined_ne_nil (hp : p.Tidy) (h : p.parts ≠ []) : Text.joinWith "/" p.parts ≠ [] := by
  obtain ⟨part, rest, hcons⟩ := List.exists_cons_of_ne_nil h
  rw [hcons]
  exact joinWith_ne_nil (isPart_iff.1 (hp.isPart part (by simp [hcons]))).1

theorem Tidy.endsInSlash_joined (hp : p.Tidy) : Path.endsInSlash (Text.joinWith "/" p.parts) = false := by
  rcases List.eq_nil_or_concat p.parts with h | ⟨above, last, h⟩
  · rw [h]
    rfl
  · have hmem : last ∈ p.parts := by simp [h]
    have hne := (isPart_iff.1 (hp.isPart last hmem)).1
    obtain ⟨a, ha⟩ : ∃ a, Text.joinWith "/" p.parts = a ++ last := by
      rw [h, List.concat_eq_append]
      by_cases hnil : above = []
      · exact ⟨[], by rw [hnil]; rfl⟩
      · exact ⟨_, Text.joinWith_concat _ _ _ hnil⟩
    rw [ha, Path.endsInSlash, beq_eq_false_iff_ne, List.getLast?_append_of_ne_nil _ hne]
    exact fun he => hp.noSlash last hmem (List.mem_of_getLast? he)

/-- The text of the directory is what stands before the last component, without the slash. -/
theorem Tidy.join_parent (hp : p.Tidy) (hslash : CodePoint.char '/' ∉ name) :
    Path.join p.parent.toText name = p.front ++ name ∨ Path.join p.parent.toText name = "./" ++ name ∧ p.front = [] := by
  rw [Path.join, Path.isAbsolute_of_no_slash hslash]
  by_cases hnil : p.parts.dropLast = []
  · have htext : p.parent.toText = if p.root = [] then ("." : Text) else p.root := by
      rw [toText, FilePath.parent, hnil, Text.joinWith, List.append_nil]
      simp
    have hfront : p.front = p.root := by rw [front, if_pos hnil]
    rw [htext, hfront]
    rcases hp.root with h | h | h <;> rw [h]
    · exact .inr ⟨rfl, rfl⟩
    · exact .inl rfl
    · exact .inl rfl
  · left
    have hj : Text.joinWith "/" p.parts.dropLast ≠ [] := hp.parent.joined_ne_nil hnil
    have htext : p.parent.toText = p.root ++ Text.joinWith "/" p.parts.dropLast := hp.parent.toText_eq hnil
    have hslash' : Path.endsInSlash p.parent.toText = false := by
      have hh := hp.parent.endsInSlash_joined
      rw [htext, Path.endsInSlash, List.getLast?_append_of_ne_nil _ hj]
      exact hh
    have hempty : p.parent.toText.isEmpty = false := by simpa using toText_ne_nil p.parent
    rw [hempty, hslash', htext, front, if_neg hnil]
    simp

/-- The directory's text joined with a name is the path of the name beside. -/
theorem Tidy.ofText_join_parent (hp : p.Tidy) (hname : FileSystem.IsComponent name) :
    ofText (Path.join p.parent.toText name) = p.beside name := by
  have htidy := hp.beside hname
  have hne := hname.ne_nil
  obtain ⟨⟨hpart, -⟩, hslash⟩ := hname
  rcases hp.join_parent hslash with h | ⟨h, hfront⟩
  · rw [h, ← toText_beside p hne, htidy.ofText_toText]
  · have htext : (p.beside name).toText = name := by rw [toText_beside p hne, hfront, List.nil_append]
    have hroot : (p.beside name).root = [] := by
      by_contra hroot
      have habs := htidy.isAbsolute_toText
      rw [htext, Path.isAbsolute_of_no_slash hslash] at habs
      simp [hroot] at habs
    have hparts : (p.beside name).parts = [name] := by
      rw [← htidy.names_toText, htext, Path.names_of_part hpart hslash]
    have hnames : Path.names (("./" : Text) ++ name) = [name] := by
      have hsplit := Path.names_append_slash "." name
      rw [Path.names_of_part hpart hslash] at hsplit
      exact hsplit
    rw [h]
    show FilePath.mk _ _ = _
    rw [← Path.names, hnames, ← hparts]
    cases hb : p.beside name
    rw [hb] at hroot
    cases hroot
    rfl

theorem Tidy.join_parent_toText (hp : p.Tidy) (hne : p.parts ≠ []) (hslash : CodePoint.char '/' ∉ name) :
    Path.join (Path.parent p.toText) name = p.front ++ name := by
  have hlast : p.parts.getLast? = some p.name := by
    rw [FilePath.name, List.getLast?_eq_some_getLast hne, Option.getD_some]
  have hname := (isPart_iff.1 (hp.isPart p.name (List.mem_of_getLast? hlast))).1
  have htext : p.toText = p.front ++ p.name := by
    conv_lhs => rw [← beside_name hne]
    exact toText_beside p hname
  have hhead : p.toText.take (p.toText.length - (Path.base p.toText).length) = p.front := by
    rw [hp.base_toText hlast, htext]
    simp
  simp only [Path.parent, hhead]
  by_cases hnil : p.parts.dropLast = []
  · have hfront : p.front = p.root := by rw [front, if_pos hnil]
    rw [hfront, Path.join, Path.isAbsolute_of_no_slash hslash]
    rcases hp.root with h | h | h <;> rw [h] <;> rfl
  · have hj : Text.joinWith "/" p.parts.dropLast ≠ [] := hp.parent.joined_ne_nil hnil
    obtain ⟨above, habove⟩ : ∃ above, above = p.root ++ Text.joinWith "/" p.parts.dropLast := ⟨_, rfl⟩
    have hfront : p.front = above ++ [CodePoint.char '/'] := by
      rw [front, if_neg hnil, habove]
      rfl
    have hne' : above ≠ [] := by
      rw [habove]
      exact List.append_ne_nil_of_right_ne_nil _ hj
    have hend : Path.endsInSlash above = false := by
      have hh := hp.parent.endsInSlash_joined
      rw [habove, Path.endsInSlash, List.getLast?_append_of_ne_nil _ hj]
      exact hh
    have hall : (above ++ [CodePoint.char '/']).all Path.isSlash = false := by
      rw [List.all_append, Path.not_all_isSlash hne' hend, Bool.false_and]
    rw [hfront, hall, if_neg (by simp), Path.dropEndSlashes_append_slash hend, Path.join, Path.isAbsolute_of_no_slash hslash, hend]
    simp [hne']

/-- The name that something is moved aside under. -/
def asideName (p : FilePath) (identifier : Text) : Text := Text.join [".", p.name, "-old-", identifier]

/-- What is moved aside stays in its directory. -/
theorem Tidy.asidePath_toText (hp : p.Tidy) (hdown : Path.Downward p.toText) (hne : p.parts ≠ []) {identifier : Text}
    (hslash : CodePoint.char '/' ∉ identifier) :
    Action.asidePath p.toText identifier = (p.beside (p.asideName identifier)).toText := by
  have hlast : p.parts.getLast? = some p.name := by
    rw [FilePath.name, List.getLast?_eq_some_getLast hne, Option.getD_some]
  have hname := hp.noSlash p.name (List.mem_of_getLast? hlast)
  have hslash' : CodePoint.char '/' ∉ p.asideName identifier := by
    simp [asideName, Text.join, hname, hslash]
  have hnormal : Path.normalize p.toText = p.toText := by rw [FileSystem.normalize_eq hdown, hp.ofText_toText]
  rw [Action.asidePath, hnormal, hp.base_toText hlast, ← asideName, hp.join_parent_toText hne hslash', toText_beside]
  simp [asideName, Text.join]

end FilePath

namespace FileSystem

variable {fs fs' : FileSystem} {p : FilePath} {name : Text} {d : Location}

/-- The directory that the last component of a path lies in. -/
structure Home (fs : FileSystem) (p : FilePath) (d : Location) : Prop where
  tidy : p.Tidy
  reach : ∃ n, n ≤ linkLimit ∧ fs.Reaches n (fs.origin p.toText) p.parts.dropLast d
  isDir : fs.IsDir d
  start : Path.isAbsolute p.toText = true ∨ fs.IsDir fs.workingDirectory

/-- A name beside the path that the system takes. -/
structure Fits (p : FilePath) (name : Text) : Prop where
  component : IsComponent name
  short : byteLength name ≤ nameLimit
  brief : byteLength (p.beside name).toText < pathLimit

theorem Fits.nameable (h : Fits p name) : Nameable (child d name) :=
  ⟨d, name, rfl, h.component.isName, h.component.noSlash, h.short⟩

theorem isAbsolute_beside (hp : p.Tidy) (hname : IsComponent name) :
    Path.isAbsolute (p.beside name).toText = Path.isAbsolute p.toText := by
  rw [(hp.beside hname).isAbsolute_toText, hp.isAbsolute_toText]
  rfl

theorem origin_beside (hp : p.Tidy) (hname : IsComponent name) :
    fs.origin (p.beside name).toText = fs.origin p.toText := by
  rw [origin, origin, isAbsolute_beside hp hname]

theorem Home.start_beside (h : fs.Home p d) (hname : IsComponent name) :
    fs.start (p.beside name).toText = if pathLimit ≤ byteLength (p.beside name).toText then .error .nameTooLong
      else .ok (fs.origin (p.beside name).toText) := by
  refine start_cases (FilePath.toText_ne_nil _) ?_
  rw [isAbsolute_beside h.tidy hname]
  exact h.start

/-- Whatever fits beside the path is an entry of the directory. -/
theorem Home.addresses (h : fs.Home p d) (hfits : Fits p name) : fs.Addresses (p.beside name).toText (child d name) := by
  obtain ⟨n, hn, hr⟩ := h.reach
  have hstart := h.start_beside hfits.component
  rw [if_neg (Nat.not_le.2 hfits.brief)] at hstart
  refine addresses_toText (h.tidy.beside hfits.component) rfl hfits.component.isName hfits.short hstart hn ?_ h.isDir
  rwa [origin_beside h.tidy hfits.component]

theorem Home.lastName (h : fs.Home p d) (hname : IsComponent name) :
    fs.lastName (p.beside name).toText = if pathLimit ≤ byteLength (p.beside name).toText then .error .nameTooLong
      else .ok ⟨d, some name, false, false⟩ := by
  obtain ⟨n, hn, hr⟩ := h.reach
  have hstart := h.start_beside hname
  by_cases hlong : pathLimit ≤ byteLength (p.beside name).toText
  · rw [if_pos hlong] at hstart ⊢
    simp only [FileSystem.lastName, hstart, bind, Except.bind]
  · rw [if_neg hlong] at hstart ⊢
    obtain ⟨empties, hempty, hs⟩ := (h.tidy.beside hname).splitOn_toText (by simp [FilePath.beside])
    have hskip : empties.filter FilePath.isPart = [] := List.filter_eq_nil_iff.2 fun e he => by
      rw [hempty e he]
      decide
    rw [FilePath.beside, ← List.append_assoc, ← FilePath.beside] at hs
    refine lastName_of_reaches hs hname.isName hstart hn (follows_filter.1 ?_) h.isDir
    rw [List.filter_append, hskip, List.nil_append, origin_beside h.tidy hname]
    exact follows_filter.2 hr

/-- A name that is addressed from the directory's own text shows where the directory is. -/
theorem home_of_addresses {l : Location} {bytes : Bytes} (hp : p.Tidy) (hname : IsComponent name)
    (hbytes : Utf8.encodeName (Path.join p.parent.toText name) = .ok bytes)
    (h : fs.Addresses (Path.join p.parent.toText name) l) : ∃ d, fs.Home p d ∧ l = child d name ∧ Fits p name := by
  obtain ⟨above, hsplit, hfilter⟩ := Path.splitOn_join p.parent.toText hname.noSlash
  obtain ⟨hs, -, hlen, hstart, hn, hr, hdir⟩ := h
  rename_i above' last n d
  rw [hsplit] at hs
  obtain ⟨rfl, hlast⟩ := List.append_inj' hs rfl
  obtain rfl : name = last := by simpa using hlast
  have hparts : above.filter FilePath.isPart = p.parts.dropLast := hfilter.trans hp.parent.names_toText
  have habs : Path.isAbsolute (Path.join p.parent.toText name) = Path.isAbsolute p.toText := by
    rw [Path.isAbsolute_join_part hname.noSlash, hp.parent.isAbsolute_toText, hp.isAbsolute_toText]
    rfl
  have hreach : fs.Reaches n (fs.origin p.toText) p.parts.dropLast d := by
    rw [← hparts, origin, ← habs, ← origin]
    exact follows_filter.2 hr
  have hlong := (start_begin hstart).1
  refine ⟨d, ⟨hp, ⟨n, hn, hreach⟩, hdir, ?_⟩, rfl, hname, hlen, ?_⟩
  · exact (start_begin hstart).2.imp_left fun ha => habs ▸ ha
  · rw [FilePath.toText_beside p hname.ne_nil]
    rcases hp.join_parent hname.noSlash with hj | ⟨hj, hfront⟩
    · rw [hj] at hlong
      omega
    · rw [hj] at hlong hbytes
      obtain ⟨x, y, -, hy, rfl⟩ := Utf8.encodeFrom_append.1 hbytes
      rw [byteLength_of_ok hbytes, List.length_append] at hlong
      rw [hfront, List.nil_append, byteLength_of_ok hy]
      omega

theorem entry_eq (fs : FileSystem) (d : Location) (name : Name) : fs.entry d name =
    if nameLimit < byteLength name then .error .nameTooLong else .ok (child d name, fs.get? (child d name)) := rfl

/-- What becomes of a rename to a free name beside the path. Only what is too long is refused. -/
theorem Home.rename_cases {next : Text} (h : fs.Home p d) (hname : IsComponent name)
    (hshort : byteLength name ≤ nameLimit) (hnext : IsComponent next)
    (hdiff : Name.canonical name ≠ Name.canonical next) (hfree : fs.get? (child d next) = none) :
    (∃ e, e ≠ .noEntry ∧ fs.rename (p.beside name).toText (p.beside next).toText = .error e ∧ ¬ (Fits p name ∧ Fits p next)) ∨
      Fits p name ∧ (fs.get? (child d name) = none ∧
          fs.rename (p.beside name).toText (p.beside next).toText = .error .noEntry ∨
        Fits p next ∧ fs.get? (child d name) ≠ none ∧
          fs.rename (p.beside name).toText (p.beside next).toText = .ok (fs.move (child d name) (child d next))) := by
  by_cases hlong : pathLimit ≤ byteLength (p.beside name).toText
  · refine .inl ⟨.nameTooLong, by decide, ?_, fun hfits => Nat.not_lt.2 hlong hfits.1.brief⟩
    simp only [FileSystem.rename, h.lastName hname, if_pos hlong, bind, Except.bind]
  by_cases hlong' : pathLimit ≤ byteLength (p.beside next).toText
  · refine .inl ⟨.nameTooLong, by decide, ?_, fun hfits => Nat.not_lt.2 hlong' hfits.2.brief⟩
    simp only [FileSystem.rename, h.lastName hname, h.lastName hnext, if_neg hlong, if_pos hlong', bind,
      Except.bind]
  have hfits : Fits p name := ⟨hname, hshort, Nat.not_le.1 hlong⟩
  have hsource := h.lastName hname
  have htarget := h.lastName hnext
  rw [if_neg hlong] at hsource
  rw [if_neg hlong'] at htarget
  cases hg : fs.get? (child d name) with
  | none =>
    refine .inr ⟨hfits, .inl ⟨rfl, ?_⟩⟩
    simp only [FileSystem.rename, hsource, htarget, entry_eq, if_neg (Nat.not_lt.2 hshort), hg, bind, Except.bind]
    rfl
  | some node =>
    by_cases hshort' : nameLimit < byteLength next
    · refine .inl ⟨.nameTooLong, by decide, ?_, fun hfits => Nat.not_lt.2 hfits.2.short hshort'⟩
      simp only [FileSystem.rename, hsource, htarget, entry_eq, if_neg (Nat.not_lt.2 hshort), hg, if_pos hshort', bind,
        Except.bind]
    · have hfits' : Fits p next := ⟨hnext, Nat.not_lt.1 hshort', Nat.not_le.1 hlong'⟩
      have hsib := siblings_child (d := d) hdiff
      refine .inr ⟨hfits, .inr ⟨hfits', by simp, ?_⟩⟩
      rw [(h.addresses hfits).rename (h.addresses hfits') hsib.not_prefix_dropLast hsib.symm.not_prefix_dropLast, renamed, hg, hfree]

theorem Home.of_extends (hext : fs.Extends fs') (h : fs.Home p d) : fs'.Home p d where
  tidy := h.tidy
  reach := by
    obtain ⟨n, hn, hr⟩ := h.reach
    refine ⟨n, hn, ?_⟩
    rcases h.start with ha | hd
    · rw [origin, if_pos ha] at hr ⊢
      exact hr.of_extends hext
    · rw [origin, hext.cwd hd]
      exact hr.of_extends hext
  isDir := hext.dir d h.isDir
  start := h.start.imp_right fun hd => hext.cwd hd ▸ hext.dir _ hd

/-- A name in a directory whose path is known, if the joined path leads anywhere. -/
theorem Addresses.join {purpose : Purpose} {place : Place} {path : Text} (h : fs.Addresses path d) (hdir : fs.IsDir d)
    (hname : IsComponent name) (hplace : fs.place purpose (Path.join path name) = .ok place) :
    fs.Addresses (Path.join path name) (child d name) := by
  obtain ⟨mode, hm⟩ := hdir
  have hstatus : fs.status path true = .ok (d, .directory mode) := by
    rw [h.status (.inr (by simp [IsLink, hm])), hm]
  obtain ⟨n, -, -, hreach⟩ := status_directory hstatus
  obtain ⟨above, hs, hfilter⟩ := Path.splitOn_join path hname.noSlash
  simp only [FileSystem.place, bind, Except.bind] at hplace
  split at hplace
  · cases hplace
  · rename_i start hstart
    obtain ⟨rfl, hstartDir⟩ := start_ok hstart
    rw [hs] at hplace
    obtain ⟨k, d', hk, hreach', hlast⟩ := walk_append_ok (continues_cons hname.isName) hplace
    rw [walk_last hname.isName] at hlast
    split at hlast
    · cases hlast
    · rename_i hlen
      have hsame : d' = d := by
        rw [← hfilter, origin, ← Path.isAbsolute_join_part hname.noSlash, ← origin] at hreach
        exact ((follows_filter.2 hreach').deterministic hreach).2
      rw [hsame] at hreach'
      exact .intro hs hname.isName (Nat.not_lt.1 hlen) hstart hk hreach' ⟨mode, hm⟩

end FileSystem

end Prebuilt
