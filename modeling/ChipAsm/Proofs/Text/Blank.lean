/-
# Trimming and cutting

A text that begins or ends with a character that is no blank is not trimmed there, and a text is
cut at the first character that stops it, whatever follows. Neither adds a character.
-/

import ChipAsm.Text.Blank
import Mathlib.Data.List.DropRight
import Mathlib.Data.List.TakeDrop

namespace ChipAsm.Text

/-- A digit is no blank. -/
theorem isBlank_of_isDigit {c : Char} (digit : c.isDigit = true) : isBlank c = false := by
  obtain ⟨low, high⟩ := Char.isDigit_iff_toNat.mp digit
  have zero : '0'.toNat = 48 := rfl
  have nine : '9'.toNat = 57 := rfl
  simp [isBlank]
  omega

theorem trimStart_cons {c : Char} (solid : isBlank c = false) (rest : List Char) :
    trimStart (c :: rest) = c :: rest :=
  List.dropWhile_cons_of_neg (by simp [solid])

theorem trimEnd_concat {c : Char} (solid : isBlank c = false) (text : List Char) :
    trimEnd (text ++ [c]) = text ++ [c] := by
  rw [trimEnd, List.reverse_concat, List.dropWhile_cons_of_neg (by simp [solid]),
    ← List.reverse_concat, List.reverse_reverse]

/-- A text between two characters that are no blanks is not trimmed. -/
theorem trim_eq_self {first last : Char} {middle : List Char} (opens : isBlank first = false)
    (ends : isBlank last = false) :
    trim (first :: (middle ++ [last])) = first :: (middle ++ [last]) := by
  rw [trim, trimStart_cons opens]
  exact trimEnd_concat ends (first :: middle)

/-- A text is trimmed at its start apart from what follows a character that is no blank. -/
theorem trimStart_append_cons {c : Char} (solid : isBlank c = false) (text more : List Char) :
    trimStart (text ++ c :: more) = trimStart text ++ c :: more := by
  rw [trimStart, List.dropWhile_append]
  split
  · next blank =>
      rw [trimStart, List.isEmpty_iff.mp blank, List.nil_append]
      exact trimStart_cons solid more
  · rfl

theorem trimEnd_append_cons {c : Char} (solid : isBlank c = false) (text more : List Char) :
    trimEnd (text ++ c :: more) = text ++ c :: trimEnd more := by
  have backwards : (text ++ c :: more).reverse = more.reverse ++ c :: text.reverse := by
    rw [List.reverse_append, List.reverse_cons, List.append_assoc, List.singleton_append]
  have trimmed := trimStart_append_cons solid more.reverse text.reverse
  rw [trimStart] at trimmed
  rw [trimEnd, backwards, trimmed, List.reverse_append, List.reverse_cons, List.reverse_reverse,
    List.append_assoc, List.singleton_append]
  rfl

theorem trimEnd_trimEnd (text : List Char) : trimEnd (trimEnd text) = trimEnd text := by
  rw [trimEnd, trimEnd, List.reverse_reverse, List.dropWhile_idempotent]

/-- Trimming leaves out blanks only. -/
theorem count_trimStart {c : Char} (solid : isBlank c = false) (text : List Char) :
    (trimStart text).count c = text.count c := by
  have blanks : c ∉ text.takeWhile isBlank := by
    intro member
    rw [List.mem_takeWhile_imp member] at solid
    cases solid
  conv_rhs => rw [← List.takeWhile_append_dropWhile (p := isBlank) (l := text)]
  rw [List.count_append, List.count_eq_zero.mpr blanks, Nat.zero_add]
  rfl

theorem count_trimEnd {c : Char} (solid : isBlank c = false) (text : List Char) :
    (trimEnd text).count c = text.count c := by
  rw [trimEnd, List.count_reverse]
  exact (count_trimStart solid text.reverse).trans List.count_reverse

/-- A text is cut at the first character that stops it. -/
theorem cut?_append {stop : Char → Bool} {before : List Char} {c : Char}
    (goesOn : ∀ d ∈ before, stop d = false) (stops : stop c = true) (after : List Char) :
    cut? stop (before ++ c :: after) = some (before, after) := by
  have passes : ∀ d ∈ before, (!stop d) = true := by
    intro d member
    rw [goesOn d member]
    rfl
  rw [cut?, List.span_eq_takeWhile_dropWhile, List.takeWhile_append_of_pos passes,
    List.dropWhile_append_of_pos passes, List.takeWhile_cons_of_neg (by simp [stops]),
    List.dropWhile_cons_of_neg (by simp [stops]), List.append_nil]

theorem trimStart_subset (text : List Char) : trimStart text ⊆ text :=
  List.dropWhile_subset isBlank

theorem trimEnd_subset (text : List Char) : trimEnd text ⊆ text := by
  intro c member
  rw [trimEnd, List.mem_reverse] at member
  exact List.mem_reverse.mp (List.dropWhile_subset isBlank member)

theorem trim_subset (text : List Char) : trim text ⊆ text :=
  List.Subset.trans (trimEnd_subset _) (trimStart_subset text)

/-- A text that is cut is cut at a character that stops it, the first one. -/
theorem exists_of_cut? {stop : Char → Bool} {text before after : List Char}
    (cut : cut? stop text = some (before, after)) :
    ∃ c, stop c = true ∧ (∀ d ∈ before, stop d = false) ∧ text = before ++ c :: after := by
  rw [cut?, List.span_eq_takeWhile_dropWhile] at cut
  cases rest : text.dropWhile fun c => !stop c with
  | nil =>
      rw [rest] at cut
      cases cut
  | cons c remaining =>
      rw [rest] at cut
      obtain ⟨rfl, rfl⟩ := Prod.mk.inj (Option.some.inj cut)
      have stops := List.head?_dropWhile_not (fun c => !stop c) text
      rw [rest, List.head?_cons] at stops
      have goesOn : ∀ d ∈ text.takeWhile fun c => !stop c, stop d = false := by
        intro d member
        simpa using List.mem_takeWhile_imp member
      refine ⟨c, by simpa using stops, goesOn, ?_⟩
      rw [← rest, List.takeWhile_append_dropWhile]

theorem cut?_eq_none_iff {stop : Char → Bool} {text : List Char} :
    cut? stop text = none ↔ ∀ c ∈ text, stop c = false := by
  constructor
  · intro uncut
    rw [cut?, List.span_eq_takeWhile_dropWhile] at uncut
    cases rest : text.dropWhile fun c => !stop c with
    | nil => simpa using List.dropWhile_eq_nil_iff.mp rest
    | cons c remaining =>
        rw [rest] at uncut
        cases uncut
  · intro goesOn
    cases cut : cut? stop text with
    | none => rfl
    | some parts =>
        obtain ⟨c, stops, -, rfl⟩ := exists_of_cut? cut
        have passes := goesOn c (by simp)
        rw [stops] at passes
        cases passes

/-- What stands after a cut is part of the text. -/
theorem subset_of_cut? {stop : Char → Bool} {text before after : List Char}
    (cut : cut? stop text = some (before, after)) : after ⊆ text := by
  obtain ⟨c, -, -, rfl⟩ := exists_of_cut? cut
  intro d member
  exact List.mem_append_right before (List.mem_cons_of_mem c member)

end ChipAsm.Text
