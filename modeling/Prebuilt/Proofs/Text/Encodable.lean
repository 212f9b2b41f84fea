import Prebuilt.Files.Walk
/-!
Texts that can be written as bytes: those whose code points all can.
-/
set_option autoImplicit false

namespace Prebuilt

namespace Utf8

variable {stray : Fin 2048 → Option UInt8} {a b t : Text} {c : CodePoint} {bytes : Bytes} {position position' : Nat}

/-- The bytes of one code point. -/
def unit? (stray : Fin 2048 → Option UInt8) : CodePoint → Option Bytes
  | .char c => some (String.utf8EncodeChar c)
  | .lone n => (stray n).map ([·])

theorem encodeFrom_cons_iff : encodeFrom position stray (c :: t) = .ok bytes ↔
    ∃ x y, unit? stray c = some x ∧ encodeFrom (position + 1) stray t = .ok y ∧ bytes = x ++ y := by
  have hmap {f : Bytes → Bytes} {r : Except EncodeError Bytes} :
      r.map f = .ok bytes ↔ ∃ y, r = .ok y ∧ bytes = f y := by
    cases r with
    | error e => simp [Except.map]
    | ok y => simp [Except.map, eq_comm]
  cases c with
  | char c =>
    rw [encodeFrom, hmap]
    simp [unit?]
  | lone n =>
    rw [encodeFrom]
    cases hn : stray n with
    | none => simp [unit?, hn]
    | some byte =>
      simp only [hmap]
      simp [unit?, hn]

/-- Where a text stands shows in faults only. -/
theorem encodeFrom_shift (h : encodeFrom position stray t = .ok bytes) : encodeFrom position' stray t = .ok bytes := by
  induction t generalizing position position' bytes with
  | nil => exact h
  | cons c r ih =>
    obtain ⟨x, y, hx, hy, rfl⟩ := encodeFrom_cons_iff.1 h
    exact encodeFrom_cons_iff.2 ⟨x, y, hx, ih hy, rfl⟩

theorem encodeFrom_append : encodeFrom position stray (a ++ b) = .ok bytes ↔
    ∃ x y, encodeFrom position stray a = .ok x ∧ encodeFrom position stray b = .ok y ∧ bytes = x ++ y := by
  induction a generalizing position bytes with
  | nil => simp [encodeFrom]
  | cons c r ih =>
    rw [List.cons_append, encodeFrom_cons_iff]
    simp only [ih, encodeFrom_cons_iff]
    constructor
    · rintro ⟨u, _, hu, ⟨x, y, hx, hy, rfl⟩, rfl⟩
      exact ⟨u ++ x, y, ⟨u, x, hu, hx, rfl⟩, encodeFrom_shift hy, by simp⟩
    · rintro ⟨_, y, ⟨u, x, hu, hx, rfl⟩, hy, rfl⟩
      exact ⟨u, x ++ y, hu, ⟨x, y, hx, encodeFrom_shift hy, rfl⟩, by simp⟩

/-- A text can be written as text if no surrogate stands alone in it. -/
theorem encode_ok_iff : (∃ bytes, encode t = .ok bytes) ↔ t.isString = true := by
  have hgeneral (position : Nat) : (∃ bytes, encodeFrom position (fun _ => none) t = .ok bytes) ↔ t.isString = true := by
    induction t generalizing position with
    | nil => simp [encodeFrom, Text.isString]
    | cons c r ih =>
      have hcons : Text.isString (c :: r) = (c.isChar && Text.isString r) := rfl
      rw [hcons, Bool.and_eq_true, ← ih (position + 1)]
      simp only [encodeFrom_cons_iff]
      cases c with
      | char c =>
        simp only [unit?, CodePoint.isChar, true_and, Option.some.injEq]
        constructor
        · rintro ⟨_, _, y, -, hy, -⟩
          exact ⟨y, hy⟩
        · rintro ⟨y, hy⟩
          exact ⟨_, _, y, rfl, hy, rfl⟩
      | lone n => simp [unit?, CodePoint.isChar]
  exact hgeneral 0

end Utf8

namespace Text

variable {a b t : Text} {c d : CodePoint}

theorem isString_iff : t.isString = true ↔ ∀ c ∈ t, c.isChar = true := List.all_eq_true

theorem isString_append (a b : Text) : (a ++ b).isString = (a.isString && b.isString) := List.all_append

theorem isString_join (parts : List Text) : (join parts).isString = parts.all isString := List.all_flatten

/-- One character in place of another makes no difference. -/
theorem isString_replaceChar (hc : c.isChar = true) (hd : d.isChar = true) (t : Text) : (replaceChar c d t).isString = t.isString := by
  rw [isString, isString, replaceChar, List.all_map]
  congr 1
  funext x
  by_cases hx : x = c
  · simp [hx, hc, hd]
  · simp [hx]

end Text

theorem byteLength_of_ok {name : Text} {bytes : Bytes} (h : Utf8.encodeName name = .ok bytes) :
    byteLength name = bytes.length := by rw [byteLength, h]

end Prebuilt
