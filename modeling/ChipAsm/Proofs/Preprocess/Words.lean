/-
# Whole words

A word of a line is as long as it can be: the characters around it belong to no name. It stands
outside string literals and comments. These are exactly the words among the pieces of the line.

`Cut` says what the pieces of a line are like without cutting a line: no two words meet, and what
is copied is a comment at the end or a single character. A line is then recovered from its
pieces, and pieces of different lines can be joined.
-/

import ChipAsm.Proofs.Preprocess.Expansion
import ChipAsm.Proofs.Preprocess.Quotation
import Mathlib.Data.List.TakeWhile

namespace ChipAsm

open Control

namespace Text

/-- The word stands somewhere in the text, outside string literals and comments and as long as
it can be. -/
def WholeWord (word text : String) : Prop :=
  (word.toList ≠ [] ∧ ∀ c ∈ word.toList, isNameChar c = true) ∧
    ∃ before after, text.toList = before ++ word.toList ++ after ∧ Outside before ∧
      (∀ c ∈ before.getLast?, isNameChar c = false) ∧ ∀ c ∈ after.head?, isNameChar c = false

end Text

namespace Piece

/-- The characters of pieces that stand one after the other. -/
def spelled (pieces : List Piece) : List Char :=
  pieces.flatMap (·.text.toList)

theorem spelled_nil : spelled [] = [] := rfl

theorem spelled_cons (piece : Piece) (rest : List Piece) :
    spelled (piece :: rest) = piece.text.toList ++ spelled rest := rfl

theorem spelled_append (first second : List Piece) :
    spelled (first ++ second) = spelled first ++ spelled second :=
  List.flatMap_append

theorem spelled_word_cons (word : String) (rest : List Piece) :
    spelled (.word word :: rest) = word.toList ++ spelled rest := rfl

theorem spelled_char_cons (c : Char) (rest : List Piece) :
    spelled (.copied (String.singleton c) :: rest) = c :: spelled rest := by
  rw [spelled_cons, Piece.text, String.toList_singleton, List.singleton_append]

theorem spelled_comment (text : List Char) : spelled [.copied (String.ofList text)] = text := by
  rw [spelled_cons, spelled_nil, List.append_nil, Piece.text, String.toList_ofList]

theorem spelled_split (quoted : Bool) (text : List Char) : spelled (split quoted text) = text := by
  have joined := congrArg String.toList (join_split quoted text)
  rwa [String.toList_join, List.flatMap_map, String.toList_ofList] at joined

theorem spelled_ofLine (line : String) : spelled (ofLine line) = line.toList :=
  spelled_split false line.toList

/-- The pieces are cut as those of a line, where `quoted` says whether they begin inside a string
literal. -/
inductive Cut : (quoted : Bool) → List Piece → Prop
  | nil {quoted : Bool} : Cut quoted []
  | comment (text : List Char) : Cut false [.copied (String.ofList (';' :: text))]
  | word {word : String} {rest : List Piece} (nonempty : word.toList ≠ [])
      (named : ∀ c ∈ word.toList, Text.isNameChar c = true)
      (ends : ∀ next, rest.head? ≠ some (.word next)) (cut : Cut false rest) :
      Cut false (.word word :: rest)
  | char {quoted : Bool} {c : Char} {rest : List Piece}
      (solid : quoted = true ∨ c ≠ ';') (plain : quoted = true ∨ Text.isNameChar c = false)
      (cut : Cut (quoted != (c == '"')) rest) :
      Cut quoted (.copied (String.singleton c) :: rest)

/-- A text that begins with no character of a name has no word as its first piece. -/
theorem head?_split_ne_word {quoted : Bool} {text : List Char}
    (ends : ∀ c ∈ text.head?, Text.isNameChar c = false) (word : String) :
    (split quoted text).head? ≠ some (.word word) := by
  cases text with
  | nil => simp [split]
  | cons c rest =>
      have plain : Text.isNameChar c = false := ends c rfl
      rw [split]
      split
      · simp
      · simp [plain]

/-- The pieces of a text are cut. -/
theorem cut_split (quoted : Bool) (text : List Char) : Cut quoted (split quoted text) := by
  fun_induction split quoted text with
  | case1 quoted => exact .nil
  | case2 quoted c rest comment =>
      obtain ⟨rfl, rfl⟩ : quoted = false ∧ c = ';' := by simpa using comment
      exact .comment rest
  | case3 quoted c rest noComment name ih =>
      obtain ⟨rfl, name⟩ : quoted = false ∧ Text.isNameChar c = true := by simpa using name
      apply Cut.word _ _ (head?_split_ne_word _) ih
      · simp
      · rw [String.toList_ofList, List.forall_mem_cons]
        exact ⟨name, fun d member => List.mem_takeWhile_imp member⟩
      · intro d first
        have stops := List.head?_dropWhile_not Text.isNameChar rest
        rw [Option.mem_def.mp first] at stops
        simpa using stops
  | case4 quoted c rest noComment noName ih =>
      apply Cut.char _ _ ih
      · simpa [or_iff_not_imp_left] using noComment
      · simpa [or_iff_not_imp_left] using noName

theorem cut_ofLine (line : String) : Cut false (ofLine line) :=
  cut_split false line.toList

/-- After a word, no character of a name follows. -/
theorem Cut.head?_spelled {pieces : List Piece} (cut : Cut false pieces)
    (ends : ∀ word, pieces.head? ≠ some (.word word)) :
    ∀ c ∈ (spelled pieces).head?, Text.isNameChar c = false := by
  intro c first
  cases cut with
  | nil => cases first
  | comment text =>
      rw [spelled_comment] at first
      obtain rfl := Option.some.inj first
      rfl
  | word nonempty named follows cut => exact absurd rfl (ends _)
  | char solid plain cut =>
      rw [spelled_char_cons] at first
      obtain rfl := Option.some.inj first
      exact plain.resolve_left Bool.false_ne_true

/-- A word is cut off where the name ends. -/
theorem split_append_of_name {word after : List Char} (nonempty : word ≠ [])
    (named : ∀ c ∈ word, Text.isNameChar c = true)
    (ends : ∀ c ∈ after.head?, Text.isNameChar c = false) :
    split false (word ++ after) = .word (String.ofList word) :: split false after := by
  obtain ⟨c, letters, rfl⟩ := List.exists_cons_of_ne_nil nonempty
  obtain ⟨first, others⟩ := List.forall_mem_cons.mp named
  have noComment : ¬(!false && c == ';') = true := by
    intro comment
    have semicolon : c = ';' := by simpa using comment
    rw [semicolon] at first
    cases first
  have taken : (letters ++ after).takeWhile Text.isNameChar = letters ∧
      (letters ++ after).dropWhile Text.isNameChar = after := by
    rw [List.takeWhile_append_of_pos others, List.dropWhile_append_of_pos others]
    cases after with
    | nil => simp
    | cons d rest => simp [ends d rfl]
  rw [List.cons_append, split, if_neg noComment, if_pos (by simpa using first), taken.1, taken.2]

/-- Cut pieces are the pieces of the text that they spell. -/
theorem Cut.split_spelled {quoted : Bool} {pieces : List Piece} (cut : Cut quoted pieces) :
    split quoted (spelled pieces) = pieces := by
  induction cut with
  | nil => rw [spelled_nil, split]
  | comment text =>
      rw [spelled_comment, split]
      rfl
  | @word word rest nonempty named ends cut ih =>
      rw [spelled_word_cons, split_append_of_name nonempty named (cut.head?_spelled ends), ih,
        String.ofList_toList]
  | @char quoted c rest solid plain cut ih =>
      have noComment : ¬(!quoted && c == ';') = true := by
        simpa [or_iff_not_imp_left] using solid
      have noName : ¬(!quoted && Text.isNameChar c) = true := by
        simpa [or_iff_not_imp_left] using plain
      rw [spelled_char_cons, split, if_neg noComment, if_neg noName, ih]

/-- A name has neither semicolons nor quotes. -/
theorem plain_of_name {word : List Char} (named : ∀ c ∈ word, Text.isNameChar c = true) :
    ∀ c ∈ word, c ≠ ';' ∧ c ≠ '"' := by
  intro c member
  have name := named c member
  constructor
  · rintro rfl
    cases name
  · rintro rfl
    cases name

theorem closes_of_name {word : List Char} (named : ∀ c ∈ word, Text.isNameChar c = true) :
    Closes false word :=
  closes_of_forall (plain_of_name named)

/-- Pieces after which nothing is quoted can be joined with others, unless two words meet. -/
theorem Cut.append {quoted : Bool} {first second : List Piece} (cut : Cut quoted first)
    (closes : Closes quoted (spelled first)) (cutSecond : Cut false second)
    (parted : ∀ word next, first.getLast? = some (.word word) →
      second.head? ≠ some (.word next)) : Cut quoted (first ++ second) := by
  induction cut with
  | nil =>
      obtain rfl := closes_nil_iff.mp closes
      exact cutSecond
  | comment text =>
      rw [spelled_comment, closes_cons_iff] at closes
      exact absurd closes.1 (by decide)
  | @word word rest nonempty named ends cut ih =>
      rw [spelled_word_cons, (closes_of_name named).append_iff] at closes
      apply Cut.word nonempty named _ (ih closes _)
      · intro next
        rw [List.head?_append]
        cases rest with
        | nil => exact parted word next rfl
        | cons piece rest => exact ends next
      · intro word next last
        apply parted word next
        rw [List.getLast?_cons, last]
        rfl
  | char solid plain cut ih =>
      rw [spelled_char_cons, closes_cons_iff] at closes
      apply Cut.char solid plain (ih closes.2 _)
      intro word next last
      apply parted word next
      rw [List.getLast?_cons, last]
      rfl

theorem Cut.text_ne_nil {quoted : Bool} {piece : Piece} {rest : List Piece}
    (cut : Cut quoted (piece :: rest)) : piece.text.toList ≠ [] := by
  cases cut with
  | comment text => simp [Piece.text]
  | word nonempty named ends cut => exact nonempty
  | char solid plain cut => simp [Piece.text]

/-- Before a word among cut pieces nothing is quoted, and no name ends there. -/
theorem Cut.of_append_word {quoted : Bool} {first second : List Piece} {word : String}
    (cut : Cut quoted (first ++ .word word :: second)) :
    Closes quoted (spelled first) ∧ (∀ c ∈ (spelled first).getLast?, Text.isNameChar c = false) ∧
      Cut false (.word word :: second) := by
  induction first generalizing quoted with
  | nil =>
      cases cut with
      | word nonempty named ends cut =>
          exact ⟨closes_nil_iff.mpr rfl, by simp [spelled_nil], .word nonempty named ends cut⟩
  | cons piece first ih =>
      rw [List.cons_append] at cut
      generalize pieces : first ++ .word word :: second = rest at cut
      cases cut with
      | comment text => simp at pieces
      | @word other _ nonempty named ends cut =>
          subst pieces
          obtain ⟨closes, last, cutWord⟩ := ih cut
          rw [spelled_word_cons, (closes_of_name named).append_iff]
          refine ⟨closes, ?_, cutWord⟩
          cases first with
          | nil => exact absurd rfl (ends word)
          | cons next first =>
              have later : spelled (next :: first) ≠ [] := by
                rw [spelled_cons]
                exact List.append_ne_nil_of_left_ne_nil cut.text_ne_nil _
              rwa [List.getLast?_append_of_ne_nil _ later]
      | @char _ c _ solid plain cut =>
          subst pieces
          obtain ⟨closes, last, cutWord⟩ := ih cut
          rw [spelled_char_cons, closes_cons_iff, List.getLast?_cons]
          refine ⟨⟨solid, closes⟩, ?_, cutWord⟩
          intro d ends
          cases inner : (spelled first).getLast? with
          | some e =>
              rw [inner] at ends
              exact last d (inner.trans ends)
          | none =>
              rw [inner] at ends
              obtain rfl := Option.some.inj ends
              -- The word is not quoted, so a quoted character just before it is a quote.
              rw [List.getLast?_eq_none_iff.mp inner, closes_nil_iff] at closes
              rcases plain with inside | plain
              · have quote : c = '"' := by simpa [inside] using closes
                rw [quote]
                rfl
              · exact plain

/-- Pieces that spell no character of a name at the end do not end in a word. -/
theorem Cut.getLast?_ne_word {quoted : Bool} {pieces : List Piece} (cut : Cut quoted pieces)
    (plain : ∀ c ∈ (spelled pieces).getLast?, Text.isNameChar c = false) (word : String) :
    pieces.getLast? ≠ some (.word word) := by
  intro last
  obtain ⟨first, rfl⟩ := List.getLast?_eq_some_iff.mp last
  obtain ⟨-, -, cutWord⟩ := cut.of_append_word
  cases cutWord with
  | word nonempty named ends cut =>
      rw [spelled_append, spelled_word_cons, spelled_nil, List.append_nil,
        List.getLast?_append_of_ne_nil _ nonempty, List.getLast?_eq_some_getLast nonempty] at plain
      have name := named _ (List.getLast_mem nonempty)
      rw [plain _ rfl] at name
      cases name

/-- The words among the pieces of a line are the whole words of the line. -/
theorem word_mem_ofLine_iff {word line : String} :
    .word word ∈ ofLine line ↔ Text.WholeWord word line := by
  constructor
  · intro member
    have cut := cut_ofLine line
    have spelledLine := spelled_ofLine line
    obtain ⟨first, second, pieces⟩ := List.append_of_mem member
    rw [pieces] at cut spelledLine
    obtain ⟨closes, last, cutWord⟩ := cut.of_append_word
    cases cutWord with
    | word nonempty named ends cut =>
        refine ⟨⟨nonempty, named⟩, spelled first, spelled second, ?_, closes_iff_outside.mp closes,
          last, cut.head?_spelled ends⟩
        rw [← spelledLine, spelled_append, spelled_word_cons, List.append_assoc]
  · rintro ⟨⟨nonempty, named⟩, before, after, spelledLine, outside, last, ends⟩
    have closes : Closes false (spelled (split false before)) := by
      rw [spelled_split]
      exact closes_iff_outside.mpr outside
    have cutWord : Cut false (.word word :: split false after) :=
      .word nonempty named (head?_split_ne_word ends) (cut_split false after)
    have cut : Cut false (split false before ++ .word word :: split false after) := by
      apply (cut_split false before).append closes cutWord
      intro earlier next ends
      rw [← spelled_split false before] at last
      exact absurd ends ((cut_split false before).getLast?_ne_word last earlier)
    have pieces := cut.split_spelled
    rw [spelled_append, spelled_word_cons, spelled_split, spelled_split, ← List.append_assoc,
      ← spelledLine] at pieces
    rw [ofLine, pieces]
    simp

end Piece

end ChipAsm
