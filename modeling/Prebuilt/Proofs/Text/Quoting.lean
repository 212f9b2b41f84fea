import Prebuilt.Proofs.Text.Digits
/-!
Text that can be written down. A surrogate that stands alone is shown by its number, so a value between quotes can be written
down whatever it is.
-/
set_option autoImplicit false

namespace Prebuilt.Text

variable {a b : Text}

theorem isString_chars (cs : List Char) : isString (cs.map CodePoint.char) = true := by simp [isString, CodePoint.isChar]

theorem isString_ofNat (n : Nat) : (ofNat n).isString = true := isString_chars _

theorem isString_toLowerAscii (t : Text) : (toLowerAscii t).isString = t.isString := by
  rw [isString, isString, toLowerAscii, List.all_map]
  congr 1
  funext c
  cases c <;> rfl

theorem isPrintable_lone (n : Fin 2048) : (CodePoint.lone n).isPrintable = false := by
  have hn := n.isLt
  have hvalue : (CodePoint.lone n).value = 0xD800 + n.val := rfl
  have hascii : (CodePoint.lone n).isAscii = false := decide_eq_false (by omega)
  have hrange : (0xD7FC, 0xF8FF) ∈ unprintableRanges := by decide
  have hwithin : (decide (0xD7FC ≤ (CodePoint.lone n).value) && decide ((CodePoint.lone n).value ≤ 0xF8FF)) = true :=
    Bool.and_eq_true_iff.2 ⟨decide_eq_true (by omega), decide_eq_true (by omega)⟩
  rw [CodePoint.isPrintable, hascii, if_neg Bool.false_ne_true, Bool.not_eq_false', List.any_eq_true]
  exact ⟨_, hrange, hwithin⟩

theorem isString_quotedCodePoint (quote : Char) (c : CodePoint) : (quotedCodePoint quote c).isString = true := by
  have hnumbered (mark : String) (width n : Nat) : isString ((mark : Text) ++ hex width n) = true := by
    rw [isString_append, isString_hex, Bool.and_true]
    exact isString_chars _
  unfold quotedCodePoint
  split
  · rename_i hc
    rcases hc with rfl | rfl <;> rfl
  iterate 3
    split
    · rfl
  split
  · rename_i hc
    cases c with
    | char c => rfl
    | lone n => cases (isPrintable_lone n).symm.trans hc
  split
  · exact hnumbered _ _ _
  split
  · exact hnumbered _ _ _
  · exact hnumbered _ _ _

/-- A value between quotes can be written down, whatever it is. -/
theorem isString_quoted (t : Text) : t.quoted.isString = true := by
  have hinner : isString (t.flatMap (quotedCodePoint (quoteFor t))) = true := by
    rw [isString, List.all_flatMap, List.all_eq_true]
    exact fun c _ => isString_quotedCodePoint _ c
  rw [quoted, isString_append, isString_append, hinner]
  rfl

end Prebuilt.Text
