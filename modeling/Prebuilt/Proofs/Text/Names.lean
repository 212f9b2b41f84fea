import Mathlib.Tactic.ByContra
import Prebuilt.Files.Walk
/-!
Names as the system reads them back. Decoding the bytes of a name loses nothing, stray bytes included, so the name that
stands on the disk is its own canonical form, and it is a name as good as the one that was given.
-/
set_option autoImplicit false

namespace Prebuilt.Utf8

variable {b : UInt8} {r bytes : Bytes} {c : CodePoint} {n : Nat} {t : Text}

theorem ofValue_of_valid (h : n.isValidChar) : CodePoint.ofValue n = .char (Char.ofNatAux n h) := by
  rw [CodePoint.ofValue, dif_pos h]

theorem encode_ofNatAux (h : n.isValidChar) : String.utf8EncodeChar (Char.ofNatAux n h) =
    if n ≤ 0x7F then [UInt8.ofNat n]
    else if n ≤ 0x7FF then [UInt8.ofNat (n / 64 % 32 + 192), UInt8.ofNat (n % 64 + 128)]
    else if n ≤ 0xFFFF then
      [UInt8.ofNat (n / 4096 % 16 + 224), UInt8.ofNat (n / 64 % 64 + 128), UInt8.ofNat (n % 64 + 128)]
    else [UInt8.ofNat (n / 262144 % 8 + 240), UInt8.ofNat (n / 4096 % 64 + 128), UInt8.ofNat (n / 64 % 64 + 128),
      UInt8.ofNat (n % 64 + 128)] := rfl

theorem ofNat_eq {m : Nat} (h : m = b.toNat) : UInt8.ofNat m = b := by
  rw [h, UInt8.ofNat_toNat]

theorem isContinuation_iff : isContinuation b = true ↔ 0x80 ≤ b.toNat ∧ b.toNat ≤ 0xBF := by
  simp [isContinuation, UInt8.le_iff_toNat_le]

/-- What may follow a lead byte is a continuation byte, and after four of the lead bytes not any one. -/
theorem isSecond_bounds {lead : UInt8} (h : isSecond lead b = true) : 0x80 ≤ b.toNat ∧ b.toNat ≤ 0xBF ∧
    (lead.toNat = 0xE0 → 0xA0 ≤ b.toNat) ∧ (lead.toNat = 0xED → b.toNat ≤ 0x9F) ∧
    (lead.toNat = 0xF0 → 0x90 ≤ b.toNat) ∧ (lead.toNat = 0xF4 → b.toNat ≤ 0x8F) := by
  unfold isSecond at h
  simp only [← UInt8.toNat_inj] at h
  split at h
  · simp_all [UInt8.le_iff_toNat_le]
    omega
  · split at h
    · simp_all [UInt8.le_iff_toNat_le]
      omega
    · split at h
      · simp_all [UInt8.le_iff_toNat_le]
        omega
      · split at h
        · simp_all [UInt8.le_iff_toNat_le]
          omega
        · obtain ⟨h₁, h₂⟩ := isContinuation_iff.1 h
          exact ⟨h₁, h₂, by simp_all, by simp_all, by simp_all, by simp_all⟩

theorem followers_bounds {lead : UInt8} (h : followers lead = some n) :
    n = 0 ∧ lead.toNat < 0x80 ∨ n = 1 ∧ 0xC2 ≤ lead.toNat ∧ lead.toNat < 0xE0 ∨
      n = 2 ∧ 0xE0 ≤ lead.toNat ∧ lead.toNat < 0xF0 ∨ n = 3 ∧ 0xF0 ≤ lead.toNat ∧ lead.toNat < 0xF5 := by
  unfold followers at h
  simp only [UInt8.lt_iff_toNat_lt] at h
  repeat' split at h
  all_goals simp_all

/-- A sequence that is read as a code point is the encoding of a character. -/
theorem unitAt_ok (h : unitAt b r = .ok (c, n)) :
    n ≤ r.length ∧ ∃ d, c = .char d ∧ String.utf8EncodeChar d = b :: r.take n := by
  have hb := b.toNat_lt
  unfold unitAt at h
  cases hf : followers b with
  | none => simp [hf] at h
  | some k =>
    rcases followers_bounds hf with ⟨rfl, hlt⟩ | ⟨rfl, hlow, hhigh⟩ | ⟨rfl, hlow, hhigh⟩ | ⟨rfl, hlow, hhigh⟩
    · simp only [hf, Except.ok.injEq, Prod.mk.injEq] at h
      obtain ⟨rfl, rfl⟩ := h
      have hv : b.toNat.isValidChar := by
        left
        omega
      refine ⟨Nat.zero_le _, _, ofValue_of_valid hv, ?_⟩
      rw [encode_ofNatAux, if_pos (by omega), UInt8.ofNat_toNat]
      rfl
    · cases r with
      | nil => simp [hf] at h
      | cons x r =>
        simp only [hf] at h
        split at h
        · cases h
        · rename_i hx
          obtain ⟨hx₁, hx₂, -⟩ := isSecond_bounds (by simpa using hx)
          simp only [if_true, Except.ok.injEq, Prod.mk.injEq] at h
          obtain ⟨rfl, rfl⟩ := h
          have hv : ((b.toNat - 0xC0) * 64 + x.toNat % 64).isValidChar := by
            left
            omega
          refine ⟨by simp, _, ofValue_of_valid hv, ?_⟩
          rw [encode_ofNatAux, if_neg (by omega), if_pos (by omega), ofNat_eq (b := b) (by omega), ofNat_eq (b := x) (by omega)]
          rfl
    · cases r with
      | nil => simp [hf] at h
      | cons x r =>
        simp only [hf] at h
        split at h
        · cases h
        · rename_i hx
          obtain ⟨hx₁, hx₂, hx₃, hx₄, -⟩ := isSecond_bounds (by simpa using hx)
          rw [if_neg (by decide)] at h
          cases r with
          | nil => simp at h
          | cons y r =>
            simp only at h
            split at h
            · cases h
            · rename_i hy
              obtain ⟨hy₁, hy₂⟩ := isContinuation_iff.1 (by simpa using hy)
              simp only [if_true, Except.ok.injEq, Prod.mk.injEq] at h
              obtain ⟨rfl, rfl⟩ := h
              have hv : (((b.toNat - 0xE0) * 64 + x.toNat % 64) * 64 + y.toNat % 64).isValidChar := by
                unfold Nat.isValidChar
                omega
              refine ⟨by simp, _, ofValue_of_valid hv, ?_⟩
              rw [encode_ofNatAux, if_neg (by omega), if_neg (by omega), if_pos (by omega), ofNat_eq (b := b) (by omega),
                ofNat_eq (b := x) (by omega), ofNat_eq (b := y) (by omega)]
              rfl
    · cases r with
      | nil => simp [hf] at h
      | cons x r =>
        simp only [hf] at h
        split at h
        · cases h
        · rename_i hx
          obtain ⟨hx₁, hx₂, -, -, hx₃, hx₄⟩ := isSecond_bounds (by simpa using hx)
          rw [if_neg (by decide)] at h
          cases r with
          | nil => simp at h
          | cons y r =>
            simp only at h
            split at h
            · cases h
            · rename_i hy
              obtain ⟨hy₁, hy₂⟩ := isContinuation_iff.1 (by simpa using hy)
              rw [if_neg (by decide)] at h
              cases r with
              | nil => simp at h
              | cons z r =>
                simp only at h
                split at h
                · cases h
                · rename_i hz
                  obtain ⟨hz₁, hz₂⟩ := isContinuation_iff.1 (by simpa using hz)
                  simp only [Except.ok.injEq, Prod.mk.injEq] at h
                  obtain ⟨rfl, rfl⟩ := h
                  have hv : ((((b.toNat - 0xF0) * 64 + x.toNat % 64) * 64 + y.toNat % 64) * 64 +
                      z.toNat % 64).isValidChar := by
                    unfold Nat.isValidChar
                    omega
                  refine ⟨by simp, _, ofValue_of_valid hv, ?_⟩
                  rw [encode_ofNatAux, if_neg (by omega), if_neg (by omega), if_neg (by omega), ofNat_eq (b := b) (by omega),
                    ofNat_eq (b := x) (by omega), ofNat_eq (b := y) (by omega), ofNat_eq (b := z) (by omega)]
                  rfl

/-- Bytes below 0x80 stand for themselves. -/
theorem unitAt_error {fault : Fault × Nat} (h : unitAt b r = .error fault) : 0x80 ≤ b.toNat := by
  by_contra hlt
  have hf : followers b = some 0 := by
    unfold followers
    rw [if_pos]
    rw [UInt8.lt_iff_toNat_lt]
    exact Nat.lt_of_not_le hlt
  simp [unitAt, hf] at h

theorem ofValue_stray (hb : 0x80 ≤ b.toNat) :
    ∃ n : Fin 2048, CodePoint.ofValue (0xDC00 + b.toNat) = .lone n ∧ strayByte? n = some b := by
  have hlt := b.toNat_lt
  have hinvalid : ¬ (0xDC00 + b.toNat).isValidChar := by
    unfold Nat.isValidChar
    omega
  refine ⟨Fin.ofNat 2048 (0xDC00 + b.toNat - 0xD800), ?_, ?_⟩
  · rw [CodePoint.ofValue, dif_neg hinvalid, if_pos (by omega)]
  · have hval : (Fin.ofNat 2048 (0xDC00 + b.toNat - 0xD800)).val = 0x400 + b.toNat := by
      simp only [Fin.ofNat]
      omega
    rw [strayByte?, hval, if_pos (by omega)]
    exact congrArg some (ofNat_eq (by omega))

theorem decodeNameFrom_eq (done : Text) (bytes : Bytes) : decodeNameFrom done bytes = done.reverse ++ decodeNameFrom [] bytes := by
  induction hlen : bytes.length using Nat.strongRecOn generalizing done bytes with
  | ind k ih =>
    cases bytes with
    | nil => simp [decodeNameFrom]
    | cons b r =>
      rw [decodeNameFrom, decodeNameFrom]
      cases hu : unitAt b r with
      | ok u =>
        obtain ⟨c, n⟩ := u
        have hlt : (r.drop n).length < k := by
          rw [← hlen, List.length_drop, List.length_cons]
          omega
        simp only
        rw [ih _ hlt (c :: done) _ rfl, ih _ hlt [c] _ rfl]
        simp
      | error fault =>
        obtain ⟨f, n⟩ := fault
        have hlt : r.length < k := by
          rw [← hlen, List.length_cons]
          omega
        simp only
        rw [ih _ hlt (_ :: done) _ rfl, ih _ hlt [_] _ rfl]
        simp

/-- Decoding the bytes of a name loses nothing. -/
theorem encodeName_decodeName (bytes : Bytes) : encodeName (decodeName bytes) = .ok bytes := by
  suffices h : ∀ position, encodeFrom position strayByte? (decodeNameFrom [] bytes) = .ok bytes from h 0
  induction hlen : bytes.length using Nat.strongRecOn generalizing bytes with
  | ind k ih =>
    intro position
    cases bytes with
    | nil => simp [decodeNameFrom, encodeFrom]
    | cons b r =>
      rw [decodeNameFrom]
      cases hu : unitAt b r with
      | ok u =>
        obtain ⟨c, n⟩ := u
        obtain ⟨hn, d, rfl, hd⟩ := unitAt_ok hu
        have hlt : (r.drop n).length < k := by
          rw [← hlen, List.length_drop, List.length_cons]
          omega
        simp only
        rw [decodeNameFrom_eq, List.reverse_singleton, List.singleton_append, encodeFrom, ih _ hlt _ rfl, Except.map, hd,
          List.cons_append, List.take_append_drop]
      | error fault =>
        obtain ⟨f, n⟩ := fault
        obtain ⟨s, hs, hstray⟩ := ofValue_stray (unitAt_error hu)
        have hlt : r.length < k := by
          rw [← hlen, List.length_cons]
          omega
        simp only
        rw [decodeNameFrom_eq, List.reverse_singleton, List.singleton_append, hs, encodeFrom, hstray]
        simp only
        rw [ih _ hlt _ rfl, Except.map]

theorem le_toNat_ofNat {m k : Nat} (hm : k + 0x80 ≤ m) (hlt : m < 0x100) : 0x80 ≤ (UInt8.ofNat m).toNat := by
  rw [UInt8.toNat_ofNat', Nat.mod_eq_of_lt hlt]
  omega

/-- The bytes of a character: one below 0x80, or several that are not. -/
theorem encodeChar_cases (d : Char) : (d.val.toNat ≤ 0x7F ∧ String.utf8EncodeChar d = [UInt8.ofNat d.val.toNat]) ∨
    0x7F < d.val.toNat ∧ String.utf8EncodeChar d ≠ [] ∧ ∀ b ∈ String.utf8EncodeChar d, 0x80 ≤ b.toNat := by
  simp only [String.utf8EncodeChar]
  generalize d.val.toNat = v
  by_cases h : v ≤ 0x7F
  · exact .inl ⟨h, if_pos h⟩
  · refine .inr ⟨Nat.lt_of_not_le h, ?_⟩
    rw [if_neg h]
    by_cases h₂ : v ≤ 0x7FF
    · rw [if_pos h₂]
      simp only [ne_eq, reduceCtorEq, not_false_eq_true, List.forall_mem_cons, List.not_mem_nil, false_implies, implies_true,
        and_true, true_and]
      exact ⟨le_toNat_ofNat (k := 0) (by omega) (by omega), le_toNat_ofNat (k := 0) (by omega) (by omega)⟩
    · rw [if_neg h₂]
      by_cases h₃ : v ≤ 0xFFFF
      · rw [if_pos h₃]
        simp only [ne_eq, reduceCtorEq, not_false_eq_true, List.forall_mem_cons, List.not_mem_nil, false_implies, implies_true,
          and_true, true_and]
        exact ⟨le_toNat_ofNat (k := 0) (by omega) (by omega), le_toNat_ofNat (k := 0) (by omega) (by omega),
          le_toNat_ofNat (k := 0) (by omega) (by omega)⟩
      · rw [if_neg h₃]
        simp only [ne_eq, reduceCtorEq, not_false_eq_true, List.forall_mem_cons, List.not_mem_nil, false_implies, implies_true,
          and_true, true_and]
        exact ⟨le_toNat_ofNat (k := 0) (by omega) (by omega), le_toNat_ofNat (k := 0) (by omega) (by omega),
          le_toNat_ofNat (k := 0) (by omega) (by omega), le_toNat_ofNat (k := 0) (by omega) (by omega)⟩

theorem strayByte_bounds {s : Fin 2048} (h : strayByte? s = some b) : 0x80 ≤ b.toNat := by
  unfold strayByte? at h
  split at h
  · rename_i hs
    rw [← Option.some.inj h]
    exact le_toNat_ofNat (k := 0) (by omega) (by omega)
  · cases h

/-- The bytes of the first code point: one below 0x80 for an ASCII character, or several that are not. -/
theorem encodeFrom_cons {position : Nat} {c : CodePoint} (h : encodeFrom position strayByte? (c :: t) = .ok bytes) :
    ∃ first rest, bytes = first ++ rest ∧ encodeFrom (position + 1) strayByte? t = .ok rest ∧
      ((∃ d, c = .char d ∧ d.val.toNat ≤ 0x7F ∧ first = [UInt8.ofNat d.val.toNat]) ∨
        first ≠ [] ∧ (∀ b ∈ first, 0x80 ≤ b.toNat) ∧ ∀ d, c = .char d → 0x7F < d.val.toNat) := by
  cases c with
  | char d =>
    rw [encodeFrom] at h
    cases hrest : encodeFrom (position + 1) strayByte? t with
    | error e => simp [hrest, Except.map] at h
    | ok rest =>
      rw [hrest] at h
      cases h
      refine ⟨_, rest, rfl, rfl, ?_⟩
      rcases encodeChar_cases d with ⟨hd, he⟩ | ⟨hd, hne, hall⟩
      · exact .inl ⟨d, rfl, hd, he⟩
      · exact .inr ⟨hne, hall, fun _ he => by cases he; exact hd⟩
  | lone n =>
    rw [encodeFrom] at h
    split at h
    · rename_i b hb
      cases hrest : encodeFrom (position + 1) strayByte? t with
      | error e => simp [hrest, Except.map] at h
      | ok rest =>
        rw [hrest] at h
        cases h
        exact ⟨[b], rest, rfl, rfl, .inr ⟨by simp, by simpa using strayByte_bounds hb, by simp⟩⟩
    · cases h

theorem char_eq_of_ofNat {d e : Char} (hd : d.val.toNat ≤ 0x7F) (he : e.val.toNat ≤ 0x7F)
    (h : UInt8.ofNat d.val.toNat = UInt8.ofNat e.val.toNat) : d = e := by
  have hval := congrArg UInt8.toNat h
  rw [UInt8.toNat_ofNat', UInt8.toNat_ofNat', Nat.mod_eq_of_lt (by omega), Nat.mod_eq_of_lt (by omega)] at hval
  exact Char.ext (UInt32.toNat_inj.1 hval)

/-- An ASCII character is in a name if and only if its byte is among the bytes. -/
theorem mem_iff_mem_encodeFrom {position : Nat} {d : Char} (hd : d.val.toNat ≤ 0x7F)
    (h : encodeFrom position strayByte? t = .ok bytes) : CodePoint.char d ∈ t ↔ UInt8.ofNat d.val.toNat ∈ bytes := by
  have hlow : (UInt8.ofNat d.val.toNat).toNat < 0x80 := by
    rw [UInt8.toNat_ofNat']
    omega
  induction t generalizing position bytes with
  | nil =>
    cases h
    simp
  | cons c r ih =>
    obtain ⟨first, rest, rfl, hrest, hfirst⟩ := encodeFrom_cons h
    rw [List.mem_cons, List.mem_append]
    refine or_congr ?_ (ih hrest)
    rcases hfirst with ⟨e, rfl, he, rfl⟩ | ⟨-, hall, hhigh⟩
    · rw [List.mem_singleton]
      exact ⟨fun h => by cases h; rfl, fun h => congrArg _ (char_eq_of_ofNat hd he h)⟩
    · refine iff_of_false (fun h => ?_) fun h => ?_
      · have := hhigh d h.symm
        omega
      · have := hall _ h
        omega

/-- ASCII bytes are the bytes of one name alone. -/
theorem eq_of_encodeFrom {position position' : Nat} {t' : Text} (hlow : ∀ b ∈ bytes, b.toNat < 0x80)
    (h : encodeFrom position strayByte? t = .ok bytes) (h' : encodeFrom position' strayByte? t' = .ok bytes) : t = t' := by
  have hfirst {c : CodePoint} {r : Text} {position : Nat} {bytes : Bytes} (hlow : ∀ b ∈ bytes, b.toNat < 0x80)
      (h : encodeFrom position strayByte? (c :: r) = .ok bytes) : ∃ d rest, c = .char d ∧ d.val.toNat ≤ 0x7F ∧
        bytes = UInt8.ofNat d.val.toNat :: rest ∧ encodeFrom (position + 1) strayByte? r = .ok rest := by
    obtain ⟨first, rest, rfl, hrest, ⟨d, rfl, hd, rfl⟩ | ⟨hne, hall, -⟩⟩ := encodeFrom_cons h
    · exact ⟨d, rest, rfl, hd, rfl, hrest⟩
    · obtain ⟨b, hb⟩ := List.exists_mem_of_ne_nil first hne
      have := hall b hb
      have := hlow b (List.mem_append_left _ hb)
      omega
  induction t generalizing position position' t' bytes with
  | nil =>
    cases h
    cases t' with
    | nil => rfl
    | cons c r =>
      obtain ⟨d, rest, -, -, hnil, -⟩ := hfirst hlow h'
      cases hnil
  | cons c r ih =>
    obtain ⟨d, rest, rfl, hd, rfl, hrest⟩ := hfirst hlow h
    cases t' with
    | nil => cases h'
    | cons c' r' =>
      obtain ⟨d', rest', rfl, hd', heq, hrest'⟩ := hfirst hlow h'
      obtain ⟨hhead, rfl⟩ := List.cons.inj heq
      rw [char_eq_of_ofNat hd hd' hhead, ih (fun b hb => hlow b (List.mem_cons_of_mem _ hb)) hrest hrest']

end Prebuilt.Utf8

namespace Prebuilt.Name

variable {t : Text}

/-- The canonical form has the same bytes, if there are any. -/
theorem encodeName_canonical (t : Text) : canonical t = t ∨ Utf8.encodeName (canonical t) = Utf8.encodeName t := by
  unfold canonical
  split
  · exact .inl rfl
  · cases h : Utf8.encodeName t with
    | ok bytes => exact .inr (Utf8.encodeName_decodeName bytes)
    | error e => exact .inl rfl

@[simp] theorem byteLength_canonical (t : Text) : byteLength (canonical t) = byteLength t := by
  rcases encodeName_canonical t with h | h
  · rw [h]
  · rw [byteLength, byteLength, h]

/-- A name that is read back is read back as it is. -/
@[simp] theorem canonical_canonical (t : Text) : canonical (canonical t) = canonical t := by
  by_cases hs : t.isString = true
  · have hc : canonical t = t := by rw [canonical, if_pos hs]
    rw [hc, hc]
  · cases h : Utf8.encodeName t with
    | error e =>
      have hc : canonical t = t := by rw [canonical, if_neg hs, h]
      rw [hc, hc]
    | ok bytes =>
      have hc : canonical t = Utf8.decodeName bytes := by rw [canonical, if_neg hs, h]
      rw [hc, canonical]
      split
      · rfl
      · rw [Utf8.encodeName_decodeName]

/-- An ASCII text is the canonical form of itself alone. -/
theorem eq_of_canonical_eq {q : Text} {bytes : Bytes} (hq : Utf8.encodeName q = .ok bytes) (hlow : ∀ b ∈ bytes, b.toNat < 0x80)
    (h : canonical t = q) : t = q := by
  rcases encodeName_canonical t with hc | hc
  · rw [← hc, h]
  · rw [h, hq] at hc
    exact Utf8.eq_of_encodeFrom hlow hc.symm hq

theorem slash_mem_canonical : CodePoint.char '/' ∈ canonical t ↔ CodePoint.char '/' ∈ t := by
  rcases encodeName_canonical t with hc | hc
  · rw [hc]
  · cases h : Utf8.encodeName t with
    | error e =>
      have hc' : canonical t = t := by
        unfold canonical
        rw [h, ite_self]
      rw [hc']
    | ok bytes =>
      rw [h] at hc
      rw [Utf8.mem_iff_mem_encodeFrom (by decide) hc, Utf8.mem_iff_mem_encodeFrom (by decide) h]

end Prebuilt.Name
