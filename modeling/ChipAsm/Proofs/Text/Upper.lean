/-
# What a capital form consists of

Each character of a capital form is the character that it stands for, a capital letter of
ASCII, or a character outside ASCII. The tables say so for the characters outside ASCII, and
the tables are finite. So no capital form has a lower-case letter of ASCII in it, and a text of
ASCII without such letters is its own capital form.
-/

import ChipAsm.Text.Upper
import Mathlib.Data.List.Basic

namespace ChipAsm.Text

/-- A capital letter of ASCII, or a character outside ASCII. -/
def isCapital (c : Char) : Bool :=
  c.isUpper || 128 ≤ c.toNat

/-- The capitals of a run are capitals. -/
theorem isCapital_of_mem_capitalRuns :
    ∀ run ∈ capitalRuns, ∀ distance < run.last - run.first + 1,
      isCapital (Char.ofNat (run.capital + distance)) = true := by
  decide +kernel

/-- A capital form of several characters has capitals only, and has some. -/
theorem isCapital_of_mem_longCapitals :
    ∀ entry ∈ longCapitals, entry.2 ≠ [] ∧
      ∀ code ∈ entry.2, isCapital (Char.ofNat code) = true := by
  decide +kernel

theorem isCapital_of_capital? {run : CapitalRun} (listed : run ∈ capitalRuns) {code capital : Nat}
    (found : run.capital? code = some capital) : isCapital (Char.ofNat capital) = true := by
  rw [CapitalRun.capital?, Option.ite_none_right_eq_some] at found
  obtain ⟨⟨above, below, -⟩, same⟩ := found
  rw [← Option.some.inj same]
  exact isCapital_of_mem_capitalRuns run listed _ (by omega)

/-- What holds of the characters with the codes below 128 holds of all of ASCII. -/
theorem of_ascii {p : Char → Prop} (table : ∀ code < 128, p (Char.ofNat code)) (c : Char)
    (ascii : c.toNat < 128) : p c := by
  rw [← Char.ofNat_toNat c]
  exact table c.toNat ascii

/-- In ASCII, a lower-case letter has a capital letter, and no other character changes. -/
theorem toUpper_of_ascii : ∀ c : Char, c.toNat < 128 →
    c.isLower = false ∧ c.toUpper = c ∨ c.isLower = true ∧ isCapital c.toUpper = true :=
  of_ascii (by decide +kernel)

/-- No lower-case letter of ASCII counts as a capital. -/
theorem isLower_of_isCapital {c : Char} (capital : isCapital c = true) : c.isLower = false := by
  by_cases ascii : c.toNat < 128
  · have table : ∀ c : Char, c.toNat < 128 → isCapital c = true → c.isLower = false :=
      of_ascii (by decide +kernel)
    exact table c ascii capital
  · rw [← Bool.not_eq_true]
    intro small
    have below : c ≤ 'z' := of_decide_eq_true (Bool.and_eq_true_iff.mp small).2
    exact ascii (Nat.lt_of_le_of_lt below (by decide))

/-- A character of a capital form is the character itself, unless that is a lower-case letter,
or a capital. -/
theorem of_mem_upperChar {c d : Char} (member : d ∈ upperChar c) :
    c.isLower = false ∧ d = c ∨ isCapital d = true := by
  unfold upperChar at member
  split at member
  · next ascii =>
      rw [List.mem_singleton.mp member]
      exact (toUpper_of_ascii c ascii).imp_right And.right
  · next beyond =>
      split at member
      · next capital found =>
          obtain ⟨run, listed, capital⟩ := List.exists_of_findSome?_eq_some found
          rw [List.mem_singleton.mp member]
          exact .inr (isCapital_of_capital? listed capital)
      · split at member
        · next capitals found =>
            obtain ⟨before, after, listed, -⟩ := List.lookup_eq_some_iff.mp found
            obtain ⟨code, known, rfl⟩ := List.mem_map.mp member
            exact .inr ((isCapital_of_mem_longCapitals (c.toNat, capitals)
              (by simp [listed])).2 code known)
        · rw [List.mem_singleton.mp member]
          exact .inr (by simp [isCapital, Nat.not_lt.mp beyond])

/-- Every character has a capital form. -/
theorem upperChar_ne_nil (c : Char) : upperChar c ≠ [] := by
  unfold upperChar
  split
  · simp
  · split
    · simp
    · split
      · next capitals found =>
          obtain ⟨before, after, listed, -⟩ := List.lookup_eq_some_iff.mp found
          have some := (isCapital_of_mem_longCapitals (c.toNat, capitals) (by simp [listed])).1
          simpa using some
      · simp

/-- There is no lower-case letter of ASCII in a capital form. -/
theorem isLower_of_mem_upper {text : String} {c : Char} (member : c ∈ (upper text).toList) :
    c.isLower = false := by
  rw [upper, String.toList_ofList, List.mem_flatMap] at member
  obtain ⟨d, -, stands⟩ := member
  obtain ⟨small, rfl⟩ | capital := of_mem_upperChar stands
  · exact small
  · exact isLower_of_isCapital capital

/-- A text of ASCII without lower-case letters is its own capital form. -/
theorem upper_eq_self {text : String} (ascii : ∀ c ∈ text.toList, c.toNat < 128)
    (capital : ∀ c ∈ text.toList, c.isLower = false) : upper text = text := by
  have same : ∀ c ∈ text.toList, upperChar c = [c] := by
    intro c member
    obtain ⟨-, kept⟩ | ⟨small, -⟩ := toUpper_of_ascii c (ascii c member)
    · rw [upperChar, if_pos (ascii c member), kept]
    · exact absurd ((capital c member).symm.trans small) Bool.false_ne_true
  rw [upper, ← String.toList_inj, String.toList_ofList]
  calc text.toList.flatMap upperChar
    _ = text.toList.flatMap List.singleton := List.flatMap_congr same
    _ = text.toList := List.flatMap_singleton' text.toList

end ChipAsm.Text
