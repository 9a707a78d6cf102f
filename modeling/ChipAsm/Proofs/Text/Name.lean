/-
# What a name consists of

A name is not empty, does not begin with a digit, and has no other characters than letters,
digits, underscores and points.
-/

import ChipAsm.Text.Name
import ChipAsm.Text.Numeral

namespace ChipAsm.Text

theorem isName_iff {text : String} :
    isName text = true ↔ text ≠ "" ∧ (∀ c ∈ text.toList.head?, c.isDigit = false) ∧
      ∀ c ∈ text.toList, isNameChar c = true := by
  rw [isName, Ne, ← String.toList_eq_nil_iff]
  cases text.toList with
  | nil => simp [isNameText]
  | cons first rest => simp [isNameText]

theorem isName_eq_false {text : String} {c : Char} (member : c ∈ text.toList)
    (foreign : isNameChar c = false) : isName text = false := by
  rw [← Bool.not_eq_true, isName_iff]
  rintro ⟨-, -, whole⟩
  exact Bool.noConfusion (foreign.symm.trans (whole c member))

/-- A hexadecimal digit can stand in a name. -/
theorem isNameChar_of_hexDigit? {c : Char} {digit : Fin 16} (read : hexDigit? c = some digit) :
    isNameChar c = true := by
  obtain ⟨value, known, -⟩ := Option.map_eq_some_iff.mp read
  have lower (range : 'a' ≤ c ∧ c ≤ 'f') : c.isLower = true :=
    Bool.and_eq_true_iff.mpr
      ⟨decide_eq_true range.1, decide_eq_true (Char.le_trans range.2 (by decide))⟩
  have upper (range : 'A' ≤ c ∧ c ≤ 'F') : c.isUpper = true :=
    decide_eq_true ⟨range.1, Char.le_trans range.2 (by decide)⟩
  have alphanumeric : c.isAlphanum = true := by
    apply Bool.or_eq_true_iff.mpr
    unfold digitValue? at known
    split at known
    · next range => exact .inr (Char.isDigit_iff_toNat.mpr range)
    · split at known
      · next range => exact .inl (Bool.or_eq_true_iff.mpr (.inr (lower range)))
      · split at known
        · next range => exact .inl (Bool.or_eq_true_iff.mpr (.inl (upper range)))
        · cases known
  rw [isNameChar, alphanumeric]
  rfl

end ChipAsm.Text
