import Prebuilt.Machine
import Prebuilt.Proofs.Text.Encodable
/-!
Digits that names are made of: those of unique identifiers and of temporary names. None of them is a slash.
-/
set_option autoImplicit false

namespace Prebuilt.Text

variable {c : CodePoint} {width n : Nat}

theorem exists_digit {base : Nat} {c : Char} (hbase : 1 < base) (h : c ∈ Nat.toDigits base n) : ∃ k, c = Nat.digitChar k := by
  induction n using Nat.strongRecOn with
  | ind n ih =>
    rw [Nat.toDigits_eq_if hbase] at h
    split at h
    · exact ⟨n, List.mem_singleton.1 h⟩
    · rename_i hn
      rcases List.mem_append.1 h with h | h
      · exact ih (n / base) (Nat.div_lt_self (by omega) hbase) h
      · exact ⟨n % base, List.mem_singleton.1 h⟩

/-- Digits are neither slashes nor the letter that a name of something moved aside goes on with. -/
theorem digitChar_ne (k : Nat) : Nat.digitChar k ≠ '/' ∧ Nat.digitChar k ≠ 'o' := by
  by_cases hk : k < 16
  · have hall : ∀ k < 16, Nat.digitChar k ≠ '/' ∧ Nat.digitChar k ≠ 'o' := by decide
    exact hall k hk
  · have hstar : Nat.digitChar k = '*' := by
      unfold Nat.digitChar
      repeat rw [if_neg (by omega)]
    rw [hstar]
    decide

theorem mem_hex (h : c ∈ hex width n) : ∃ d : Char, c = .char d ∧ d ≠ '/' := by
  simp only [hex, ofDigits, ofChars, List.map_append, List.mem_append, List.mem_map, List.mem_replicate] at h
  rcases h with ⟨d, ⟨-, rfl⟩, rfl⟩ | ⟨d, hd, rfl⟩
  · exact ⟨_, rfl, by decide⟩
  · obtain ⟨k, rfl⟩ := exists_digit (by decide) hd
    exact ⟨_, rfl, (digitChar_ne k).1⟩

theorem mem_temporaryEnding (h : c ∈ Action.temporaryEnding n) : ∃ d : Char, c = .char d ∧ d ≠ '/' ∧ d ≠ 'o' := by
  have hfill {k : Nat} (h : c ∈ List.replicate k (CodePoint.char 'X')) : ∃ d : Char, c = .char d ∧ d ≠ '/' ∧ d ≠ 'o' :=
    ⟨'X', (List.mem_replicate.1 h).2, by decide⟩
  unfold Action.temporaryEnding at h
  split at h
  · exact hfill (k := 8) h
  · rcases List.mem_append.1 h with h | h
    · exact hfill h
    · simp only [ofNat, ofString, List.mem_map] at h
      obtain ⟨d, hd, rfl⟩ := h
      have hd : d ∈ Nat.toDigits 10 n := by simpa [Nat.repr] using hd
      obtain ⟨k, rfl⟩ := exists_digit (by decide) hd
      exact ⟨_, rfl, digitChar_ne k⟩

theorem isString_hex (width n : Nat) : (hex width n).isString = true :=
  List.all_eq_true.2 fun _ h => by
    obtain ⟨d, rfl, -⟩ := mem_hex h
    rfl

theorem isString_temporaryEnding (n : Nat) : (Action.temporaryEnding n).isString = true :=
  List.all_eq_true.2 fun _ h => by
    obtain ⟨d, rfl, -⟩ := mem_temporaryEnding h
    rfl

theorem slash_not_mem_hex (width n : Nat) : CodePoint.char '/' ∉ hex width n := fun h => by
  obtain ⟨d, hd, hne⟩ := mem_hex h
  exact hne (CodePoint.char.inj hd).symm

theorem slash_not_mem_temporaryEnding (n : Nat) : CodePoint.char '/' ∉ Action.temporaryEnding n := fun h => by
  obtain ⟨d, hd, hne, -⟩ := mem_temporaryEnding h
  exact hne (CodePoint.char.inj hd).symm

end Prebuilt.Text
