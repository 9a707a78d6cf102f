/-
# Inside and outside string literals

A double quote opens a string literal or ends it, and a semicolon outside string literals begins a
comment. So a place in a line stands outside literals and comments if the quotes before it are
paired and each semicolon before it stands inside a literal.

The scanners go from left to right and only know whether they are inside a literal. The two
views agree, and a text after which a place stands outside can be scanned apart from what
follows it.
-/

import ChipAsm.Preprocess.Control
import Mathlib.Algebra.Group.Nat.Even

namespace ChipAsm

namespace Text

/-- What follows the text stands outside string literals and comments. -/
def Outside (text : List Char) : Prop :=
  Even (text.count '"') ∧
    ∀ before after, text = before ++ ';' :: after → ¬Even (before.count '"')

/-- Whether what follows the text stands inside a string literal, where `quoted` says whether
the text begins inside one. -/
def quotedAfter (quoted : Bool) (text : List Char) : Bool :=
  text.foldl (fun quoted c => quoted != (c == '"')) quoted

@[simp]
theorem quotedAfter_nil (quoted : Bool) : quotedAfter quoted [] = quoted := rfl

@[simp]
theorem quotedAfter_cons (quoted : Bool) (c : Char) (rest : List Char) :
    quotedAfter quoted (c :: rest) = quotedAfter (quoted != (c == '"')) rest := rfl

/-- The quotes are paired exactly if the text ends where it began, inside or outside. -/
theorem quotedAfter_eq_iff (quoted : Bool) (text : List Char) :
    quotedAfter quoted text = quoted ↔ Even (text.count '"') := by
  induction text generalizing quoted with
  | nil => simp
  | cons c rest ih =>
      rw [quotedAfter_cons]
      by_cases quote : c = '"'
      · subst quote
        have flipped : (quoted != ('"' == '"')) = !quoted := by cases quoted <;> rfl
        rw [List.count_cons_self, Nat.even_add_one, flipped, ← ih !quoted]
        cases quoted <;> cases quotedAfter _ rest <;> decide
      · have same : (quoted != (c == '"')) = quoted := by
          rw [beq_eq_false_iff_ne.mpr quote, Bool.bne_false]
        rw [same, ih, List.count_cons_of_ne quote]

end Text

namespace Control

open Text

/-- From a place inside or outside a string literal, the text has no comment, and what follows it
stands outside string literals. -/
def Closes (quoted : Bool) (text : List Char) : Prop :=
  quotedAfter quoted text = false ∧ beforeComment quoted text = text

theorem closes_nil_iff {quoted : Bool} : Closes quoted [] ↔ quoted = false := by
  simp [Closes, beforeComment]

/-- A character that begins no comment stands before it. -/
theorem beforeComment_cons {quoted : Bool} {c : Char} (solid : quoted = true ∨ c ≠ ';')
    (rest : List Char) :
    beforeComment quoted (c :: rest) = c :: beforeComment (quoted != (c == '"')) rest := by
  have goesOn : ¬(c == ';' && !quoted) = true := by
    rcases solid with inside | other
    · simp [inside]
    · simp [other]
  rw [beforeComment, if_neg goesOn]

theorem closes_cons_iff {quoted : Bool} {c : Char} {rest : List Char} :
    Closes quoted (c :: rest) ↔
      (quoted = true ∨ c ≠ ';') ∧ Closes (quoted != (c == '"')) rest := by
  unfold Closes
  rw [quotedAfter_cons]
  by_cases solid : quoted = true ∨ c ≠ ';'
  · rw [beforeComment_cons solid, List.cons.injEq, and_iff_right rfl]
    exact (and_iff_right solid).symm
  · obtain ⟨outside, semicolon⟩ := not_or.mp solid
    simp [beforeComment, Bool.not_eq_true _ ▸ outside, not_not.mp semicolon]

/-- After a text that closes, scanning begins anew. -/
theorem Closes.append_iff {quoted : Bool} {first : List Char} (closes : Closes quoted first)
    {second : List Char} : Closes quoted (first ++ second) ↔ Closes false second := by
  induction first generalizing quoted with
  | nil => rw [List.nil_append, closes_nil_iff.mp closes]
  | cons c rest ih =>
      obtain ⟨solid, closes⟩ := closes_cons_iff.mp closes
      rw [List.cons_append, closes_cons_iff, ih closes]
      exact and_iff_right solid

theorem Closes.beforeComment_append {quoted : Bool} {first : List Char}
    (closes : Closes quoted first) (second : List Char) :
    beforeComment quoted (first ++ second) = first ++ beforeComment false second := by
  induction first generalizing quoted with
  | nil => rw [List.nil_append, List.nil_append, closes_nil_iff.mp closes]
  | cons c rest ih =>
      obtain ⟨solid, closes⟩ := closes_cons_iff.mp closes
      rw [List.cons_append, beforeComment_cons solid, ih closes, List.cons_append]

/-- There is no comment exactly if each semicolon stands inside a string literal. -/
theorem beforeComment_eq_self_iff {quoted : Bool} {text : List Char} :
    beforeComment quoted text = text ↔
      ∀ before after, text = before ++ ';' :: after → quotedAfter quoted before = true := by
  induction text generalizing quoted with
  | nil => simp [beforeComment]
  | cons c rest ih =>
      by_cases solid : quoted = true ∨ c ≠ ';'
      · rw [beforeComment_cons solid, List.cons.injEq, and_iff_right rfl, ih]
        constructor
        · intro inside before after split
          cases before with
          | nil =>
              obtain ⟨rfl, rfl⟩ := List.cons.inj split
              exact solid.resolve_right (not_not.mpr rfl)
          | cons d before =>
              obtain ⟨rfl, rfl⟩ := List.cons.inj split
              exact inside before after rfl
        · intro inside before after split
          exact inside (c :: before) after (by rw [split, List.cons_append])
      · obtain ⟨outside, semicolon⟩ := not_or.mp solid
        obtain rfl := not_not.mp semicolon
        obtain rfl := Bool.not_eq_true quoted ▸ outside
        constructor
        · intro same
          cases same
        · intro inside
          cases inside [] rest rfl

/-- What follows a text stands outside exactly if the text closes. -/
theorem closes_iff_outside {text : List Char} : Closes false text ↔ Outside text := by
  unfold Closes Outside
  rw [quotedAfter_eq_iff, beforeComment_eq_self_iff]
  apply and_congr_right
  intro _
  simp only [← quotedAfter_eq_iff false, Bool.not_eq_false]

/-- A text without quotes and semicolons closes. -/
theorem closes_of_forall {text : List Char} (plain : ∀ c ∈ text, c ≠ ';' ∧ c ≠ '"') :
    Closes false text := by
  induction text with
  | nil => exact closes_nil_iff.mpr rfl
  | cons c rest ih =>
      obtain ⟨⟨noComment, noQuote⟩, others⟩ := List.forall_mem_cons.mp plain
      have goesOn : (false != (c == '"')) = false := by simp [noQuote]
      rw [closes_cons_iff, goesOn]
      exact ⟨.inr noComment, ih others⟩

end Control

/-! ## The literals and the comment of a line -/

namespace Text

/-- The string literals of a text in order, where `read` are the reversed characters of the one
in which the text begins. A literal has its quotes; the last one may lack the closing quote. -/
def literalsFrom (read : Option (List Char)) : List Char → List (List Char)
  | [] => (read.map List.reverse).toList
  | c :: rest =>
      match read with
      | none =>
          if c = ';' then [] else literalsFrom (if c = '"' then some [c] else none) rest
      | some read =>
          if c = '"' then (c :: read).reverse :: literalsFrom none rest
          else literalsFrom (some (c :: read)) rest

/-- The string literals of a line. -/
def literals (line : String) : List (List Char) :=
  literalsFrom none line.toList

/-- The comment of a text and its semicolon, where `quoted` says whether the text begins inside a
string literal. -/
def commentFrom (quoted : Bool) (text : List Char) : List Char :=
  text.drop (Control.beforeComment quoted text).length

/-- The comment of a line. -/
def comment (line : String) : List Char :=
  commentFrom false line.toList

/-- A character that begins no comment may end a literal and leads to the next one. -/
theorem literalsFrom_cons {read : Option (List Char)} {c : Char}
    (solid : read.isSome = true ∨ c ≠ ';') :
    ∃ complete next, next.isSome = (read.isSome != (c == '"')) ∧
      ∀ rest, literalsFrom read (c :: rest) = complete ++ literalsFrom next rest := by
  cases read with
  | none =>
      have other := solid.resolve_left Bool.false_ne_true
      refine ⟨[], if c = '"' then some [c] else none, ?_, fun rest => ?_⟩
      · split <;> simp_all
      · rw [literalsFrom, if_neg other, List.nil_append]
  | some read =>
      by_cases quote : c = '"'
      · refine ⟨[(c :: read).reverse], none, by simp [quote], fun rest => ?_⟩
        rw [literalsFrom, if_pos quote, List.singleton_append]
      · refine ⟨[], some (c :: read), by simp [quote], fun rest => ?_⟩
        rw [literalsFrom, if_neg quote, List.nil_append]

theorem literalsFrom_append {read : Option (List Char)} {quoted : Bool}
    (inside : read.isSome = quoted) {first : List Char} (closes : Control.Closes quoted first)
    (second : List Char) :
    literalsFrom read (first ++ second) = literalsFrom read first ++ literalsFrom none second := by
  induction first generalizing read quoted with
  | nil =>
      have outside : read = none := by simpa [Control.closes_nil_iff.mp closes] using inside
      rw [outside]
      rfl
  | cons c rest ih =>
      subst inside
      obtain ⟨solid, closes⟩ := Control.closes_cons_iff.mp closes
      obtain ⟨complete, next, inside, stepped⟩ := literalsFrom_cons solid
      rw [List.cons_append, stepped, stepped, ih inside closes, List.append_assoc]

theorem literalsFrom_of_forall {text : List Char} (plain : ∀ c ∈ text, c ≠ ';' ∧ c ≠ '"') :
    literalsFrom none text = [] := by
  induction text with
  | nil => rfl
  | cons c rest ih =>
      obtain ⟨⟨noComment, noQuote⟩, others⟩ := List.forall_mem_cons.mp plain
      rw [literalsFrom, if_neg noComment, if_neg noQuote, ih others]

theorem commentFrom_cons {quoted : Bool} {c : Char} (solid : quoted = true ∨ c ≠ ';')
    (rest : List Char) :
    commentFrom quoted (c :: rest) = commentFrom (quoted != (c == '"')) rest := by
  rw [commentFrom, Control.beforeComment_cons solid, List.length_cons, List.drop_succ_cons]
  rfl

theorem commentFrom_append {quoted : Bool} {first : List Char}
    (closes : Control.Closes quoted first) (second : List Char) :
    commentFrom quoted (first ++ second) = commentFrom false second := by
  rw [commentFrom, closes.beforeComment_append, List.length_append, List.drop_length_add_append]
  rfl

/-! ## Texts in place of words -/

/-- Parts of a text without quotes and semicolons, which stand outside string literals and
comments, are replaced by texts that close. -/
inductive Reworded : (quoted : Bool) → (text result : List Char) → Prop
  | nil {quoted : Bool} : Reworded quoted [] []
  | comment (text : List Char) : Reworded false (';' :: text) (';' :: text)
  | char {quoted : Bool} {c : Char} {text result : List Char} (solid : quoted = true ∨ c ≠ ';')
      (reworded : Reworded (quoted != (c == '"')) text result) :
      Reworded quoted (c :: text) (c :: result)
  | word {word inner text result : List Char} (plain : ∀ c ∈ word, c ≠ ';' ∧ c ≠ '"')
      (closes : Control.Closes false inner) (reworded : Reworded false text result) :
      Reworded false (word ++ text) (inner ++ result)

namespace Reworded

variable {quoted : Bool} {text result : List Char} (reworded : Reworded quoted text result)

include reworded

theorem closes (closes : Control.Closes quoted text) : Control.Closes quoted result := by
  induction reworded with
  | nil => exact closes
  | comment text => exact closes
  | char solid reworded ih =>
      rw [Control.closes_cons_iff] at closes ⊢
      exact ⟨solid, ih closes.2⟩
  | word plain inner reworded ih =>
      rw [(Control.closes_of_forall plain).append_iff] at closes
      rw [inner.append_iff]
      exact ih closes

/-- The literals of the text are kept in order. -/
theorem literalsFrom_sublist {read : Option (List Char)} (inside : read.isSome = quoted) :
    (literalsFrom read text).Sublist (literalsFrom read result) := by
  induction reworded generalizing read with
  | nil => exact .refl _
  | comment text => exact .refl _
  | char solid reworded ih =>
      subst inside
      obtain ⟨complete, next, inside, stepped⟩ := literalsFrom_cons solid
      rw [stepped, stepped]
      exact (ih inside).append_left complete
  | @word word inner text result plain closes reworded ih =>
      obtain rfl : read = none := by simpa using inside
      rw [literalsFrom_append inside (Control.closes_of_forall plain),
        literalsFrom_append inside closes, literalsFrom_of_forall plain, List.nil_append]
      exact (ih rfl).trans (List.sublist_append_right _ _)

theorem commentFrom_eq : commentFrom quoted result = commentFrom quoted text := by
  induction reworded with
  | nil => rfl
  | comment text => rfl
  | char solid reworded ih => rw [commentFrom_cons solid, commentFrom_cons solid, ih]
  | word plain closes reworded ih =>
      rw [commentFrom_append closes, commentFrom_append (Control.closes_of_forall plain), ih]

end Reworded

end Text

end ChipAsm
