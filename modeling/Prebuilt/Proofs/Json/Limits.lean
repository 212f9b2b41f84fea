import Mathlib.Data.List.Basic
import Mathlib.Tactic.Common
import Prebuilt.Json.Parser
/-!
What reading JSON text can fail of. Either the text is malformed, or it goes beyond a limit, and then the text shows it: it opens
more arrays and objects than may nest, or it has a row of digits longer than a number may be.
-/
set_option autoImplicit false

namespace Prebuilt.Json

variable {α β : Type} {t more : Text} {depth count fuel : Nat} {fault : Fault} {step : Step α} {item : Cursor → Step Json}

/-- What an array or an object opens with. -/
def isOpening (c : CodePoint) : Bool := c == '[' || c == '\x7b'

/-- A row of so many digits. -/
def HasDigits (t : Text) (count : Nat) : Prop := ∃ digits, digits <:+: t ∧ digits.all CodePoint.isAsciiDigit = true ∧ digits.length = count

/-- A text where a fault was found gives rise to it. -/
def Fault.IsIn (depth : Nat) (t : Text) : Fault → Prop
  | .malformed _ _ => True
  | .tooDeep _ => depth < t.countP isOpening
  | .tooManyDigits count => digitLimit < count ∧ HasDigits t count

/-- Reading leaves an end of the text, or finds a fault that is in it. -/
def Reads (depth : Nat) (t : Text) : Step α → Prop
  | .ok (_, c) => c.rest <:+ t
  | .error fault => fault.IsIn depth t

/-! ## Faults and ends of texts -/

theorem Fault.IsIn.of_suffix (h : fault.IsIn depth t) (hmore : t <:+ more) : fault.IsIn depth more := by
  cases fault with
  | malformed what position => trivial
  | tooDeep inObject => exact Nat.lt_of_lt_of_le h (hmore.sublist.countP_le)
  | tooManyDigits count =>
    obtain ⟨hlimit, digits, hdigits, hall, hlength⟩ := h
    exact ⟨hlimit, digits, hdigits.trans hmore.isInfix, hall, hlength⟩

/-- One level further out there is one more opening. -/
theorem Fault.IsIn.outside {c : CodePoint} (h : fault.IsIn depth t) (hc : isOpening c = true) : fault.IsIn (depth + 1) (c :: t) := by
  cases fault with
  | malformed what position => trivial
  | tooDeep inObject =>
    have hcount : (c :: t).countP isOpening = t.countP isOpening + 1 := List.countP_cons_of_pos hc
    show depth + 1 < (c :: t).countP isOpening
    rw [hcount]
    exact Nat.add_lt_add_right h 1
  | tooManyDigits count =>
    obtain ⟨hlimit, digits, hdigits, hall, hlength⟩ := h
    exact ⟨hlimit, digits, hdigits.trans (List.suffix_cons c t).isInfix, hall, hlength⟩

theorem Reads.of_suffix (h : Reads depth t step) (hmore : t <:+ more) : Reads depth more step := by
  cases step with
  | ok r => exact List.IsSuffix.trans h hmore
  | error fault => exact Fault.IsIn.of_suffix h hmore

theorem Reads.outside {c : CodePoint} (h : Reads depth t step) (hc : isOpening c = true) : Reads (depth + 1) (c :: t) step := by
  cases step with
  | ok r => exact List.IsSuffix.trans h (List.suffix_cons c t)
  | error fault => exact Fault.IsIn.outside h hc

theorem Cursor.rest_skip (c : Cursor) (n : Nat) : (c.skip n).rest <:+ c.rest := List.drop_suffix n c.rest

theorem Cursor.rest_skipSpace (c : Cursor) : c.skipSpace.rest <:+ c.rest := c.rest_skip _

/-! ## Strings -/

theorem unicodeEscape_error {position : Nat} (h : unicodeEscape position t = .error fault) : ∃ what place, fault = .malformed what place := by
  unfold unicodeEscape at h
  split at h
  · cases h
    exact ⟨_, _, rfl⟩
  split at h
  · cases h
    exact ⟨_, _, rfl⟩
  dsimp only at h
  split at h
  · split at h
    · cases h
      exact ⟨_, _, rfl⟩
    · split at h <;> cases h
  · cases h

theorem reads_stringFrom (depth start : Nat) (done : Text) (position : Nat) (t : Text) :
    Reads depth t (stringFrom start done position t) := by
  induction hlen : t.length using Nat.strongRecOn generalizing done position t with
  | ind n ih =>
    cases t with
    | nil =>
      rw [stringFrom]
      trivial
    | cons c r =>
      rw [stringFrom.eq_def]
      dsimp only
      split
      · exact List.suffix_cons c r
      split
      · cases r with
        | nil => trivial
        | cons e r =>
          dsimp only
          split
          · cases hescape : unicodeEscape (position + 1) r with
            | error fault =>
              obtain ⟨what, place, rfl⟩ := unicodeEscape_error hescape
              trivial
            | ok u =>
              have hsuffix : r.drop (4 + u.2) <:+ c :: e :: r :=
                (List.drop_suffix _ r).trans ((List.suffix_cons e r).trans (List.suffix_cons c _))
              refine (ih (r.drop (4 + u.2)).length ?_ _ _ _ rfl).of_suffix hsuffix
              rw [← hlen, List.length_drop, List.length_cons, List.length_cons]
              omega
          · cases simpleEscape? e with
            | none => trivial
            | some u =>
              refine (ih r.length ?_ _ _ _ rfl).of_suffix ((List.suffix_cons e r).trans (List.suffix_cons c _))
              rw [← hlen, List.length_cons, List.length_cons]
              omega
      split
      · trivial
      · refine (ih r.length ?_ _ _ _ rfl).of_suffix (List.suffix_cons c r)
        rw [← hlen, List.length_cons]
        omega

theorem reads_string (depth : Nat) (c : Cursor) : Reads depth c.rest (string c) :=
  (reads_stringFrom depth _ _ _ _).of_suffix (List.drop_suffix 1 c.rest)

/-! ## Numbers and words -/

theorem startsWith_suffix {c : Cursor} {sign : Text} :
    (if c.startsWith sign = true then c.rest.drop 1 else c.rest) <:+ c.rest := by
  split
  · exact List.drop_suffix 1 c.rest
  · exact List.suffix_rfl

/-- Only a row of digits as long as it is written can have too many of them. -/
theorem reads_number (depth : Nat) (c : Cursor) : Reads depth c.rest (number c) := by
  unfold number
  dsimp only
  generalize hbody : (if c.startsWith "-" = true then c.rest.drop 1 else c.rest) = body
  have hsuffix : body <:+ c.rest := hbody ▸ startsWith_suffix
  generalize hwhole : (if ("0" : Text).isPrefixOf body = true then ("0" : Text) else body.takeWhile CodePoint.isAsciiDigit) = whole
  split
  · trivial
  split
  · exact (Cursor.rest_skip _ _).trans (c.rest_skip _)
  split
  · exact c.rest_skip _
  split
  · rename_i hlimit
    refine ⟨hlimit, whole, List.IsInfix.trans (List.IsPrefix.isInfix ?_) hsuffix.isInfix, ?_, rfl⟩
    · rw [← hwhole]
      split
      · rename_i hzero
        exact List.isPrefixOf_iff_prefix.1 hzero
      · exact List.takeWhile_prefix _
    · rw [← hwhole]
      split
      · decide
      · exact List.all_takeWhile
  · exact c.rest_skip _

theorem reads_word? {c : Cursor} {x : Json × Cursor} (h : word? c = some x) : x.2.rest <:+ c.rest := by
  obtain ⟨⟨word, value⟩, -, rfl⟩ := Option.map_eq_some_iff.1 h
  exact c.rest_skip _

/-! ## Values -/

theorem reads_items (hitem : ∀ c, Reads depth c.rest (item c)) (fuel : Nat) (done : List Json) (c : Cursor) :
    Reads depth c.rest (items item fuel done c) := by
  induction fuel generalizing done c with
  | zero => trivial
  | succ fuel ih =>
    rw [items]
    have hfirst := hitem c
    cases hread : item c with
    | error fault =>
      rw [hread] at hfirst
      exact hfirst
    | ok r =>
      obtain ⟨x, next⟩ := r
      rw [hread] at hfirst
      have hspace : next.skipSpace.rest <:+ c.rest := next.rest_skipSpace.trans hfirst
      dsimp only
      split
      · exact (Cursor.rest_skip _ _).trans hspace
      split
      · exact (ih _ _).of_suffix ((Cursor.rest_skipSpace _).trans ((Cursor.rest_skip _ _).trans hspace))
      · trivial

theorem reads_members (hitem : ∀ c, Reads depth c.rest (item c)) (fuel : Nat) (done : Fields) (c : Cursor) :
    Reads depth c.rest (members item fuel done c) := by
  induction fuel generalizing done c with
  | zero => trivial
  | succ fuel ih =>
    rw [members]
    split
    · trivial
    have hname := reads_string depth c
    cases hread : string c with
    | error fault =>
      rw [hread] at hname
      exact hname
    | ok r =>
      obtain ⟨key, named⟩ := r
      rw [hread] at hname
      have hcolon : named.skipSpace.rest <:+ c.rest := named.rest_skipSpace.trans hname
      dsimp only
      split
      · trivial
      have hvalue : (named.skipSpace.skip 1).skipSpace.rest <:+ c.rest :=
        (Cursor.rest_skipSpace _).trans ((Cursor.rest_skip _ _).trans hcolon)
      have hmember := (hitem (named.skipSpace.skip 1).skipSpace).of_suffix hvalue
      cases hread : item (named.skipSpace.skip 1).skipSpace with
      | error fault =>
        rw [hread] at hmember
        exact hmember
      | ok r =>
        obtain ⟨x, next⟩ := r
        rw [hread] at hmember
        have hspace : next.skipSpace.rest <:+ c.rest := next.rest_skipSpace.trans hmember
        dsimp only
        split
        · exact (Cursor.rest_skip _ _).trans hspace
        split
        · exact (ih _ _).of_suffix ((Cursor.rest_skipSpace _).trans ((Cursor.rest_skip _ _).trans hspace))
        · trivial

theorem reads_wordOrNumber (depth : Nat) (c : Cursor) : Reads depth c.rest (match word? c with
    | some step => .ok step
    | none => number c) := by
  cases hword : word? c with
  | some step => exact reads_word? hword
  | none => exact reads_number depth c

theorem reads_text (depth : Nat) (c : Cursor) : Reads depth c.rest ((string c).map fun (t, c) => (Json.text t, c)) := by
  have hstring := reads_string depth c
  cases hread : string c with
  | error fault =>
    rw [hread] at hstring
    exact hstring
  | ok r =>
    rw [hread] at hstring
    exact hstring

/-- The induction is on how deep values may nest: each level has an opening of its own. -/
theorem reads_value (size depth : Nat) (c : Cursor) : Reads depth c.rest (value size depth c) := by
  induction depth generalizing c with
  | zero =>
    rw [value.eq_def]
    obtain ⟨position, rest⟩ := c
    cases rest with
    | nil => trivial
    | cons first r =>
      dsimp only
      split
      · exact reads_text _ _
      split
      · rename_i hfirst
        exact List.countP_pos_iff.2 ⟨first, List.mem_cons_self, by simp [isOpening, hfirst]⟩
      split
      · rename_i hfirst
        exact List.countP_pos_iff.2 ⟨first, List.mem_cons_self, by simp [isOpening, hfirst]⟩
      · exact reads_wordOrNumber _ _
  | succ depth ih =>
    rw [value.eq_def]
    obtain ⟨position, rest⟩ := c
    cases rest with
    | nil => trivial
    | cons first r =>
      have hinside : (Cursor.skipSpace (Cursor.skip ⟨position, first :: r⟩ 1)).rest <:+ r := Cursor.rest_skipSpace _
      dsimp only
      split
      · exact reads_text _ _
      split
      · rename_i hfirst
        split
        · exact (Cursor.rest_skip _ _).trans (hinside.trans (List.suffix_cons first r))
        · exact ((reads_members ih size [] _).of_suffix hinside).outside (by simp [isOpening, hfirst])
      split
      · rename_i hfirst
        split
        · exact (Cursor.rest_skip _ _).trans (hinside.trans (List.suffix_cons first r))
        · exact ((reads_items ih size [] _).of_suffix hinside).outside (by simp [isOpening, hfirst])
      · exact reads_wordOrNumber _ _

/-- A fault of a document is in it. -/
theorem parse_error (h : parse depth t = .error fault) : fault.IsIn depth t := by
  unfold parse at h
  split at h
  · cases h
    trivial
  have hread := (reads_value (t.length + 1) depth (Cursor.skipSpace ⟨0, t⟩)).of_suffix (Cursor.rest_skipSpace ⟨0, t⟩)
  split at h
  · rename_i hvalue
    cases h
    rw [hvalue] at hread
    exact hread
  · dsimp only at h
    split at h
    · cases h
    · cases h
      trivial

/-- One array in the other, there is no end to the limit: the opening that goes beyond it is what the fault is found at. -/
theorem value_nested (size position : Nat) (rest : Text) :
    value (size + 1) depth ⟨position, List.replicate (depth + 1) (CodePoint.char '[') ++ rest⟩ = .error (.tooDeep false) := by
  induction depth generalizing position with
  | zero =>
    rw [value.eq_def]
    rfl
  | succ depth ih =>
    have hinside : items (value (size + 1) depth) (size + 1) [] ⟨position + 1, List.replicate (depth + 1) (CodePoint.char '[') ++ rest⟩ =
        .error (.tooDeep false) := by rw [items, ih]
    rw [value.eq_def]
    exact hinside

end Prebuilt.Json
