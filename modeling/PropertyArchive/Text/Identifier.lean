/-
  PropertyArchive.Text.Identifier — identifiers of the declaration language.

  An identifier starts with an ASCII letter or an underscore and goes on with ASCII
  letters, digits and underscores. No blank and no punctuation of a declaration is an
  identifier character (`not_isIdentifierChar_of_isBlank`), so a run of them ends at
  the first character of any other token.
-/
import PropertyArchive.Text.Basic

namespace PropertyArchive.Text

def isIdentifierStart (c : Char) : Bool := c.isAlpha || c == '_'

def isIdentifierChar (c : Char) : Bool := c.isAlphanum || c == '_'

def isIdentifier : Text → Bool
  | [] => false
  | c :: t => isIdentifierStart c && t.all isIdentifierChar

/-- The letters by their codes. -/
theorem isAlpha_iff_toNat {c : Char} :
    c.isAlpha = true ↔ (65 ≤ c.toNat ∧ c.toNat ≤ 90) ∨ (97 ≤ c.toNat ∧ c.toNat ≤ 122) := by
  show (decide (65 ≤ c.val ∧ c.val ≤ 90) || (decide (97 ≤ c.val) && decide (c.val ≤ 122))) = true ↔ _
  simp only [Bool.or_eq_true, Bool.and_eq_true, decide_eq_true_eq, UInt32.le_iff_toNat_le]
  exact Iff.rfl

theorem isIdentifierChar_of_isIdentifierStart {c : Char} (h : isIdentifierStart c = true) :
    isIdentifierChar c = true := by
  simp only [isIdentifierStart, Bool.or_eq_true] at h
  simp only [isIdentifierChar, Char.isAlphanum, Bool.or_eq_true]
  exact h.elim (fun h => .inl (.inl h)) .inr

/-- An identifier holds identifier characters only. -/
theorem all_isIdentifierChar {t : Text} (h : isIdentifier t = true) : t.all isIdentifierChar = true := by
  cases t with
  | nil => rfl
  | cons c t =>
    simp only [isIdentifier, Bool.and_eq_true] at h
    simp only [List.all_cons, Bool.and_eq_true]
    exact ⟨isIdentifierChar_of_isIdentifierStart h.1, h.2⟩

theorem not_isIdentifierChar_of_isBlank {c : Char} (h : isBlank c = true) : isIdentifierChar c = false := by
  cases hc : isIdentifierChar c with
  | false => rfl
  | true =>
    exfalso
    simp only [isIdentifierChar, Char.isAlphanum, Bool.or_eq_true, beq_iff_eq, isAlpha_iff_toNat,
      Char.isDigit_iff_toNat, Char.reduceToNat] at hc
    simp only [isBlank, Bool.or_eq_true, Bool.and_eq_true, decide_eq_true_eq, beq_iff_eq] at h
    rcases hc with hc | hc
    · omega
    · subst hc
      revert h
      decide

end PropertyArchive.Text
