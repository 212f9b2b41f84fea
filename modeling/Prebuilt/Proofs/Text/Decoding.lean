import Prebuilt.Text.Blank
import Prebuilt.Text.Lines
import Prebuilt.Proofs.Text.Encodable
import Prebuilt.Proofs.Text.Names
/-!
Reading back what was written. The bytes that a text is written as are read as the same text; and a line on its own is read as
it was, if it holds no carriage return and no blank stands at its ends.
-/
set_option autoImplicit false

namespace Prebuilt

namespace Utf8

variable {b : UInt8} {r bytes : Bytes} {n : Nat} {t done : Text}

theorem toNat_ofNat_of_lt (h : n < 256) : (UInt8.ofNat n).toNat = n := by
  rw [UInt8.toNat_ofNat']
  exact Nat.mod_eq_of_lt h

theorem followers_of_bounds (h : n = 0 ∧ b.toNat < 0x80 ∨ n = 1 ∧ 0xC2 ≤ b.toNat ∧ b.toNat < 0xE0 ∨
    n = 2 ∧ 0xE0 ≤ b.toNat ∧ b.toNat < 0xF0 ∨ n = 3 ∧ 0xF0 ≤ b.toNat ∧ b.toNat < 0xF5) : followers b = some n := by
  unfold followers
  simp only [UInt8.lt_iff_toNat_lt]
  have hbounds : (0x80 : UInt8).toNat = 0x80 ∧ (0xC2 : UInt8).toNat = 0xC2 ∧ (0xE0 : UInt8).toNat = 0xE0 ∧
    (0xF0 : UInt8).toNat = 0xF0 ∧ (0xF5 : UInt8).toNat = 0xF5 := by decide
  obtain ⟨h80, hC2, hE0, hF0, hF5⟩ := hbounds
  rw [h80, hC2, hE0, hF0, hF5]
  rcases h with ⟨rfl, h⟩ | ⟨rfl, h⟩ | ⟨rfl, h⟩ | ⟨rfl, h⟩
  · rw [if_pos h]
  · rw [if_neg (by omega), if_neg (by omega), if_pos (by omega)]
  · rw [if_neg (by omega), if_neg (by omega), if_neg (by omega), if_pos (by omega)]
  · rw [if_neg (by omega), if_neg (by omega), if_neg (by omega), if_neg (by omega), if_pos (by omega)]

theorem isSecond_of_bounds {lead : UInt8} (h : 0x80 ≤ b.toNat ∧ b.toNat ≤ 0xBF) (hE0 : lead.toNat = 0xE0 → 0xA0 ≤ b.toNat)
    (hED : lead.toNat = 0xED → b.toNat ≤ 0x9F) (hF0 : lead.toNat = 0xF0 → 0x90 ≤ b.toNat) (hF4 : lead.toNat = 0xF4 → b.toNat ≤ 0x8F) :
    isSecond lead b = true := by
  unfold isSecond
  simp only [← UInt8.toNat_inj, isContinuation]
  repeat' split
  all_goals simp_all [UInt8.le_iff_toNat_le]

theorem isContinuation_of_bounds (h : 0x80 ≤ b.toNat ∧ b.toNat ≤ 0xBF) : isContinuation b = true := isContinuation_iff.2 h

theorem unitAt_one (hf : followers b = some 0) (r : Bytes) : unitAt b r = .ok (.ofValue b.toNat, 0) := by
  simp only [unitAt, hf]

section

variable {x y z : UInt8} (hx : isSecond b x = true)
include hx

theorem unitAt_two (hf : followers b = some 1) (r : Bytes) :
    unitAt b (x :: r) = .ok (.ofValue ((b.toNat - 0xC0) * 64 + x.toNat % 64), 1) := by
  simp only [unitAt, hf, hx, Bool.not_true, Bool.false_eq_true, if_false, if_true]

theorem unitAt_three (hf : followers b = some 2) (hy : isContinuation y = true) (r : Bytes) :
    unitAt b (x :: y :: r) = .ok (.ofValue (((b.toNat - 0xE0) * 64 + x.toNat % 64) * 64 + y.toNat % 64), 2) := by
  simp only [unitAt, hf, hx, hy, Bool.not_true, Bool.false_eq_true, if_false, if_true, if_neg (by decide : ¬ 2 = 1)]

theorem unitAt_four (hf : followers b = some 3) (hy : isContinuation y = true) (hz : isContinuation z = true) (r : Bytes) :
    unitAt b (x :: y :: z :: r) =
      .ok (.ofValue ((((b.toNat - 0xF0) * 64 + x.toNat % 64) * 64 + y.toNat % 64) * 64 + z.toNat % 64), 3) := by
  simp only [unitAt, hf, hx, hy, hz, Bool.not_true, Bool.false_eq_true, if_false, if_neg (by decide : ¬ 3 = 1), if_neg (by decide : ¬ 3 = 2)]

end

/-- The bytes of a character are one sequence. -/
theorem unitAt_encode (c : Char) (r : Bytes) :
    ∃ b more, String.utf8EncodeChar c = b :: more ∧ unitAt b (more ++ r) = .ok (.char c, more.length) := by
  obtain ⟨n, h, rfl⟩ : ∃ n h, c = Char.ofNatAux n h := ⟨c.toNat, c.valid, rfl⟩
  have hvalid : n < 0xD800 ∨ 0xDFFF < n ∧ n < 0x110000 := h
  have hvalue {k : Nat} (hk : k = n) : CodePoint.ofValue k = .char (Char.ofNatAux n h) := by
    subst hk
    exact ofValue_of_valid h
  have hlast := toNat_ofNat_of_lt (n := n % 64 + 128) (by omega)
  have hthird := toNat_ofNat_of_lt (n := n / 64 % 64 + 128) (by omega)
  have hsecond := toNat_ofNat_of_lt (n := n / 4096 % 64 + 128) (by omega)
  rw [encode_ofNatAux]
  generalize CodePoint.char (Char.ofNatAux n h) = point at hvalue ⊢
  split
  · have hlead := toNat_ofNat_of_lt (n := n) (by omega)
    refine ⟨_, _, rfl, ?_⟩
    rw [List.nil_append, unitAt_one (followers_of_bounds (.inl ⟨rfl, by omega⟩)), hlead, hvalue rfl]
    rfl
  split
  · have hlead := toNat_ofNat_of_lt (n := n / 64 % 32 + 192) (by omega)
    refine ⟨_, _, rfl, ?_⟩
    have hx : isSecond (UInt8.ofNat (n / 64 % 32 + 192)) (UInt8.ofNat (n % 64 + 128)) = true :=
      isSecond_of_bounds (by omega) (by omega) (by omega) (by omega) (by omega)
    rw [List.singleton_append, unitAt_two hx (followers_of_bounds (.inr (.inl ⟨rfl, by omega, by omega⟩))), hlead, hlast,
      hvalue (by omega)]
    rfl
  split
  · have hlead := toNat_ofNat_of_lt (n := n / 4096 % 16 + 224) (by omega)
    refine ⟨_, _, rfl, ?_⟩
    have hx : isSecond (UInt8.ofNat (n / 4096 % 16 + 224)) (UInt8.ofNat (n / 64 % 64 + 128)) = true :=
      isSecond_of_bounds (by omega) (by omega) (by omega) (by omega) (by omega)
    rw [List.cons_append, List.singleton_append, unitAt_three hx (followers_of_bounds (.inr (.inr (.inl ⟨rfl, by omega, by omega⟩))))
      (isContinuation_of_bounds (by omega)), hlead, hthird, hlast, hvalue (by omega)]
    rfl
  · have hlead := toNat_ofNat_of_lt (n := n / 262144 % 8 + 240) (by omega)
    refine ⟨_, _, rfl, ?_⟩
    have hx : isSecond (UInt8.ofNat (n / 262144 % 8 + 240)) (UInt8.ofNat (n / 4096 % 64 + 128)) = true :=
      isSecond_of_bounds (by omega) (by omega) (by omega) (by omega) (by omega)
    rw [List.cons_append, List.cons_append, List.singleton_append, unitAt_four hx
      (followers_of_bounds (.inr (.inr (.inr ⟨rfl, by omega, by omega⟩)))) (isContinuation_of_bounds (by omega))
      (isContinuation_of_bounds (by omega)), hlead, hsecond, hthird, hlast, hvalue (by omega)]
    rfl

theorem decodeFrom_encode {position position' : Nat} (h : encodeFrom position' (fun _ => none) t = .ok bytes) :
    decodeFrom position done bytes = .ok (done.reverse ++ t) := by
  induction t generalizing position position' done bytes with
  | nil =>
    cases h
    simp [decodeFrom]
  | cons c t ih =>
    obtain ⟨x, y, hx, hy, rfl⟩ := encodeFrom_cons_iff.1 h
    cases c with
    | lone n => cases hx
    | char c =>
      obtain ⟨b, more, hbytes, hunit⟩ := unitAt_encode c y
      obtain rfl : b :: more = x := hbytes.symm.trans (Option.some.inj hx)
      rw [List.cons_append, decodeFrom, hunit]
      simp only [List.drop_left]
      rw [ih hy, List.reverse_cons, List.append_assoc, List.singleton_append]

/-- What is written as text is read as the same text. -/
theorem decode_encode (h : encode t = .ok bytes) : decode bytes = .ok t := decodeFrom_encode h

end Utf8

namespace Text

variable {done t : Text} {first last : CodePoint}

theorem unifyLineEndsFrom_eq (h : CodePoint.char '\r' ∉ t) : unifyLineEndsFrom done t = done.reverse ++ t := by
  fun_induction unifyLineEndsFrom done t with
  | case1 done r ih => simp at h
  | case2 done r hnot ih => simp at h
  | case3 done c r hnot hreturn ih =>
    rw [ih fun hmem => h (List.mem_cons_of_mem _ hmem), List.reverse_cons, List.append_assoc, List.singleton_append]
  | case4 done => rw [List.append_nil]

theorem unifyLineEnds_eq (h : CodePoint.char '\r' ∉ t) : t.unifyLineEnds = t := unifyLineEndsFrom_eq h

/-- A text with no blanks at its ends is what is left of its line. -/
theorem strip_line (hfirst : t.head? = some first) (hfirst' : first.isBlank = false) (hlast : t.getLast? = some last)
    (hlast' : last.isBlank = false) : (t ++ "\n").strip = t := by
  obtain ⟨rest, rfl⟩ := List.head?_eq_some_iff.1 hfirst
  have hend : ("\n" : Text) = [CodePoint.char '\n'] := rfl
  have hblank : (CodePoint.char '\n').isBlank = true := by decide
  obtain ⟨front, hfront⟩ := List.getLast?_eq_some_iff.1 hlast
  rw [strip, stripWith, hend, List.cons_append, List.dropWhile_cons_of_neg (by simp [hfirst']), ← List.cons_append, hfront]
  simp [hblank, hlast']

end Text

end Prebuilt
