/-
# Scanning pieces of a line

A word ends at the first character that belongs to no word, and a string literal at its
closing quote, whatever stands after them. A carriage return after a line begins nothing and
ends nothing that the end of the line would not end.

`Line` says what a line without newlines can begin with, one rule for each thing that the scanner
tells apart. Before the first token that is no comma, it has only gaps and commas.
-/

import ChipAsm.Token.Scan
import Mathlib.Data.List.TakeWhile

namespace ChipAsm.Token

/-- The text of the first token that is no comma. -/
def lead? (tokens : List Token) : Option String :=
  (tokens.find? fun token => token.kind ≠ .comma).map (·.source)

theorem lead?_cons_comma {token : Token} (comma : token.kind = .comma) (tokens : List Token) :
    lead? (token :: tokens) = lead? tokens := by
  rw [lead?, List.find?_cons_of_neg (by simp [comma])]
  rfl

theorem lead?_cons {token : Token} (counts : token.kind ≠ .comma) (tokens : List Token) :
    lead? (token :: tokens) = some token.source := by
  rw [lead?, List.find?_cons_of_pos (by simp [counts])]
  rfl

/-- A token with a quotation mark in front is no word without one. -/
theorem lead?_ne_of_quoted {word : String} (unquoted : word.toList.head? ≠ some '"') {token : Token}
    (counts : token.kind ≠ .comma) (quoted : token.source.toList.head? = some '"')
    (tokens : List Token) : lead? (token :: tokens) ≠ some word := by
  rw [lead?_cons counts, ne_eq, Option.some_inj]
  exact fun same => unquoted (same ▸ quoted)

theorem scanFrom_gap {c : Char} (gap : isGap c = true) (start : Nat) (rest : List Char) :
    scanFrom start (c :: rest) = scanFrom (start + 1) rest := by
  rw [scanFrom, if_pos gap]

/-- A word character begins no other token. -/
theorem scanFrom_wordChar {c : Char} (starts : isWordChar c = true) (start : Nat)
    (rest : List Char) :
    scanFrom start (c :: rest) =
      { kind := .word, start, source := String.ofList (c :: rest.takeWhile isWordChar) } ::
        scanFrom (start + byteCount (c :: rest.takeWhile isWordChar))
          (rest.dropWhile isWordChar) := by
  simp only [isWordChar, Bool.and_eq_true, Bool.not_eq_true', bne_iff_ne] at starts
  obtain ⟨⟨⟨solid, noComma⟩, noQuote⟩, noComment⟩ := starts
  rw [scanFrom, if_neg (by rw [solid]; exact Bool.false_ne_true), if_neg noComment,
    if_neg noComma, if_neg noQuote]

/-- A gap character is no word character. -/
theorem isWordChar_of_isGap {c : Char} (gap : isGap c = true) : isWordChar c = false := by
  rw [isWordChar, gap]
  rfl

/-- A class of characters without gaps, commas, quotes and semicolons has word characters only. -/
theorem isWordChar_of_class {p : Char → Bool}
    (none : [' ', '\t', '\r', '\n', '\x0c', ',', '"', ';'].any p = false) {c : Char}
    (holds : p c = true) : isWordChar c = true := by
  have apart : ∀ other, p other = false → c ≠ other := by
    intro other fails same
    rw [same, fails] at holds
    exact Bool.false_ne_true holds
  simp only [List.any_cons, Bool.or_eq_false_iff] at none
  simp [isWordChar, isGap, apart, none]

/-- A digit is a word character. -/
theorem isWordChar_of_isDigit {c : Char} (digit : c.isDigit = true) : isWordChar c = true :=
  isWordChar_of_class (by decide) digit

/-- A word before a gap is one token. -/
theorem scanFrom_word {word : List Char} {gap : Char} (nonempty : word ≠ [])
    (whole : ∀ c ∈ word, isWordChar c = true) (ends : isGap gap = true) (start : Nat)
    (rest : List Char) :
    scanFrom start (word ++ gap :: rest) =
      { kind := .word, start, source := String.ofList word } ::
        scanFrom (start + byteCount word + 1) rest := by
  cases word with
  | nil => exact absurd rfl nonempty
  | cons c word =>
      obtain ⟨first, others⟩ := List.forall_mem_cons.mp whole
      have outside : ¬isWordChar gap = true := by simp [isWordChar_of_isGap ends]
      rw [List.cons_append, scanFrom_wordChar first, List.takeWhile_append_of_pos others,
        List.dropWhile_append_of_pos others, List.takeWhile_cons_of_neg outside,
        List.dropWhile_cons_of_neg outside, List.append_nil, scanFrom_gap ends]

/-- A string literal is one token. -/
theorem scanFrom_string {body : List Char} (plain : ∀ c ∈ body, isStringChar c = true)
    (start : Nat) (rest : List Char) :
    scanFrom start ('"' :: (body ++ '"' :: rest)) =
      { kind := .string, start, source := String.ofList ('"' :: (body ++ ['"'])) } ::
        scanFrom (start + byteCount ('"' :: (body ++ ['"']))) rest := by
  have inside : (body ++ '"' :: rest).takeWhile isStringChar = body := by
    rw [List.takeWhile_append_of_pos plain]
    exact List.append_nil body
  have after : (body ++ '"' :: rest).dropWhile isStringChar = '"' :: rest := by
    rw [List.dropWhile_append_of_pos plain]
    rfl
  rw [scanFrom]
  simp only [inside, after]
  rfl

/-! ## Lines without newlines -/

theorem isWordChar_iff {c : Char} :
    isWordChar c = true ↔ isGap c = false ∧ c ≠ ',' ∧ c ≠ '"' ∧ c ≠ ';' := by
  simp [isWordChar, and_assoc]

theorem isStringChar_iff {c : Char} : isStringChar c = true ↔ c ≠ '"' ∧ c ≠ '\n' := by
  simp [isStringChar]

/-- What a line without newlines begins with, and the line after it. -/
inductive Line : List Char → Prop
  | nil : Line []
  | gap {c : Char} {rest : List Char} (blank : isGap c = true) (line : Line rest) :
      Line (c :: rest)
  | comment {rest : List Char} (unbroken : '\n' ∉ rest) : Line (';' :: rest)
  | comma {rest : List Char} (line : Line rest) : Line (',' :: rest)
  | closed {body rest : List Char} (plain : ∀ c ∈ body, isStringChar c = true)
      (line : Line rest) : Line ('"' :: (body ++ '"' :: rest))
  | unclosed {rest : List Char} (plain : ∀ c ∈ rest, isStringChar c = true) :
      Line ('"' :: rest)
  | word {c : Char} {letters rest : List Char}
      (whole : ∀ d ∈ c :: letters, isWordChar d = true)
      (ends : ∀ d ∈ rest.head?, isWordChar d = false) (line : Line rest) :
      Line (c :: (letters ++ rest))

/-- After the opening quote, a string literal is closed or goes on to the end of the line. -/
theorem closed_or_unclosed {rest : List Char} (unbroken : '\n' ∉ rest) :
    (∃ body after, rest = body ++ '"' :: after ∧ ∀ c ∈ body, isStringChar c = true) ∨
      ∀ c ∈ rest, isStringChar c = true := by
  have noNewline : ∀ c ∈ rest, c ≠ '\n' := fun c member same => unbroken (same ▸ member)
  by_cases quote : '"' ∈ rest
  · obtain ⟨body, after, rfl, noQuote⟩ := List.eq_append_cons_of_mem quote
    refine .inl ⟨body, after, rfl, fun c member => isStringChar_iff.mpr ⟨?_, ?_⟩⟩
    · exact fun same => noQuote (same ▸ member)
    · exact noNewline c (List.mem_append_left _ member)
  · refine .inr fun c member => isStringChar_iff.mpr ⟨?_, noNewline c member⟩
    exact fun same => quote (same ▸ member)

/-- A line without newlines can be taken apart so. -/
theorem line_of_unbroken {text : List Char} (unbroken : '\n' ∉ text) : Line text := by
  induction size : text.length using Nat.strongRecOn generalizing text with
  | ind length ih =>
      have later : ∀ {before rest : List Char}, text = before ++ rest → before ≠ [] →
          Line rest := by
        rintro before rest rfl nonempty
        refine ih rest.length ?_ (fun member => unbroken (List.mem_append_right before member)) rfl
        rw [← size, List.length_append]
        exact Nat.lt_add_of_pos_left (List.length_pos_iff.mpr nonempty)
      cases text with
      | nil => exact .nil
      | cons c rest =>
          have unbrokenRest := List.not_mem_of_not_mem_cons unbroken
          by_cases blank : isGap c = true
          · exact .gap blank (later (List.singleton_append).symm (List.cons_ne_nil c []))
          by_cases semicolon : c = ';'
          · exact semicolon ▸ .comment unbrokenRest
          by_cases comma : c = ','
          · exact comma ▸ .comma (later (List.singleton_append).symm (List.cons_ne_nil c []))
          by_cases quote : c = '"'
          · subst quote
            rcases closed_or_unclosed unbrokenRest with ⟨body, after, rfl, plain⟩ | plain
            · have split : '"' :: (body ++ '"' :: after) = '"' :: (body ++ ['"']) ++ after := by
                simp
              exact .closed plain (later split (List.cons_ne_nil _ _))
            · exact .unclosed plain
          · have starts : isWordChar c = true :=
              isWordChar_iff.mpr ⟨by simpa using blank, comma, quote, semicolon⟩
            have cut : rest = rest.takeWhile isWordChar ++ rest.dropWhile isWordChar :=
              List.takeWhile_append_dropWhile.symm
            have rightAfter : Line (rest.dropWhile isWordChar) :=
              later (congrArg (c :: ·) cut) (List.cons_ne_nil c _)
            rw [cut]
            refine .word ?_ ?_ rightAfter
            · exact List.forall_mem_cons.mpr
                ⟨starts, fun d member => List.mem_takeWhile_imp member⟩
            · intro d first
              have stops := List.head?_dropWhile_not isWordChar rest
              rw [Option.mem_def.mp first] at stops
              simpa using stops

theorem scanFrom_comma (start : Nat) (rest : List Char) :
    scanFrom start (',' :: rest) =
      { kind := .comma, start, source := "," } :: scanFrom (start + 1) rest := by
  rw [scanFrom]
  rfl

/-- A comment goes on to the end of the line. -/
theorem scanFrom_comment {rest : List Char} (unbroken : '\n' ∉ rest) (start : Nat) :
    scanFrom start (';' :: rest) = [] := by
  have ends : rest.dropWhile isCommentChar = [] := by
    rw [List.dropWhile_eq_nil_iff]
    intro c member
    have other : c ≠ '\n' := fun same => unbroken (same ▸ member)
    simp [isCommentChar, other]
  rw [scanFrom, if_neg (by decide), if_pos rfl, ends, scanFrom]

/-- A string literal that is not closed makes one unreadable token of what is left. -/
theorem scanFrom_unclosed {rest : List Char} (plain : ∀ c ∈ rest, isStringChar c = true)
    (start : Nat) :
    scanFrom start ('"' :: rest) =
      [{ kind := .unreadable, start, source := String.ofList ('"' :: rest) }] := by
  have inside : rest.takeWhile isStringChar = rest := List.takeWhile_eq_self_iff.mpr plain
  have after : rest.dropWhile isStringChar = [] := List.dropWhile_eq_nil_iff.mpr plain
  rw [scanFrom]
  simp only [inside, after, scanFrom]
  rfl

/-- A word is one token. -/
theorem scanFrom_wholeWord {c : Char} {letters rest : List Char}
    (whole : ∀ d ∈ c :: letters, isWordChar d = true)
    (ends : ∀ d ∈ rest.head?, isWordChar d = false) (start : Nat) :
    scanFrom start (c :: (letters ++ rest)) =
      { kind := .word, start, source := String.ofList (c :: letters) } ::
        scanFrom (start + byteCount (c :: letters)) rest := by
  obtain ⟨first, others⟩ := List.forall_mem_cons.mp whole
  have taken : (letters ++ rest).takeWhile isWordChar = letters ∧
      (letters ++ rest).dropWhile isWordChar = rest := by
    rw [List.takeWhile_append_of_pos others, List.dropWhile_append_of_pos others]
    cases rest with
    | nil => simp
    | cons d rest => simp [ends d rfl]
  rw [scanFrom_wordChar first, taken.1, taken.2]

/-- If a line begins with a certain word, it does so with a carriage return at its end. -/
theorem lead?_scanFrom_return {word : String} (unquoted : word.toList.head? ≠ some '"')
    (start other : Nat) {text : List Char} (unbroken : '\n' ∉ text)
    (leads : lead? (scanFrom start text) = some word) :
    lead? (scanFrom other (text ++ ['\r'])) = some word := by
  have line := line_of_unbroken unbroken
  clear unbroken
  induction line generalizing start other with
  | nil => exact absurd leads (by simp [scanFrom, lead?])
  | gap blank _ ih =>
      rw [scanFrom_gap blank] at leads
      rw [List.cons_append, scanFrom_gap blank]
      exact ih _ _ leads
  | comment unbroken =>
      rw [scanFrom_comment unbroken] at leads
      exact absurd leads (by simp [lead?])
  | comma _ ih =>
      rw [scanFrom_comma, lead?_cons_comma rfl] at leads
      rw [List.cons_append, scanFrom_comma, lead?_cons_comma rfl]
      exact ih _ _ leads
  | closed plain _ _ =>
      rw [scanFrom_string plain] at leads
      exact absurd leads (lead?_ne_of_quoted unquoted (by simp) (by simp) _)
  | unclosed plain =>
      rw [scanFrom_unclosed plain] at leads
      exact absurd leads (lead?_ne_of_quoted unquoted (by simp) (by simp) _)
  | @word c letters rest whole ends _ _ =>
      have endsToo : ∀ d ∈ (rest ++ ['\r']).head?, isWordChar d = false := by
        cases rest with
        | nil =>
            rintro d ⟨⟩
            rfl
        | cons d rest => exact ends
      rw [scanFrom_wholeWord whole ends, lead?_cons (by simp)] at leads
      rw [List.cons_append, List.append_assoc, scanFrom_wholeWord whole endsToo,
        lead?_cons (by simp)]
      exact leads

/-- Before the first token that is no comma, a line without newlines has only gaps and commas. -/
theorem exists_separators_of_lead? {word : String} (unquoted : word.toList.head? ≠ some '"')
    {start : Nat} {text : List Char} (unbroken : '\n' ∉ text)
    (leads : lead? (scanFrom start text) = some word) :
    ∃ before after, text = before ++ (word.toList ++ after) ∧
      ∀ c ∈ before, isGap c = true ∨ c = ',' := by
  have line := line_of_unbroken unbroken
  clear unbroken
  induction line generalizing start with
  | nil => exact absurd leads (by simp [scanFrom, lead?])
  | @gap c _ blank _ ih =>
      rw [scanFrom_gap blank] at leads
      obtain ⟨before, after, rfl, separates⟩ := ih leads
      exact ⟨c :: before, after, rfl, List.forall_mem_cons.mpr ⟨.inl blank, separates⟩⟩
  | comment unbroken =>
      rw [scanFrom_comment unbroken] at leads
      exact absurd leads (by simp [lead?])
  | comma _ ih =>
      rw [scanFrom_comma, lead?_cons_comma rfl] at leads
      obtain ⟨before, after, rfl, separates⟩ := ih leads
      exact ⟨',' :: before, after, rfl, List.forall_mem_cons.mpr ⟨.inr rfl, separates⟩⟩
  | closed plain _ _ =>
      rw [scanFrom_string plain] at leads
      exact absurd leads (lead?_ne_of_quoted unquoted (by simp) (by simp) _)
  | unclosed plain =>
      rw [scanFrom_unclosed plain] at leads
      exact absurd leads (lead?_ne_of_quoted unquoted (by simp) (by simp) _)
  | @word c letters rest whole ends _ _ =>
      rw [scanFrom_wholeWord whole ends, lead?_cons (by simp), Option.some_inj] at leads
      refine ⟨[], rest, ?_, by simp⟩
      rw [← leads, String.toList_ofList, List.nil_append, List.cons_append]

end ChipAsm.Token
