/-
# What a line is cut into

A comma, a string literal and a word can each be told by their texts alone. A line without
newlines consists of such texts and of gaps, up to a comment or to a string literal that is not
closed, and each token is one of the texts. A word reaches as far as it can, so it does not go on
in what follows it.

`Scanned` says what scanning can do, with the text before the place that it has come to. What
holds of all tokens of a line follows from it by one induction each.
-/

import ChipAsm.Proofs.Token.Scan

namespace ChipAsm.Token

/-- The text is that of a token of this kind. -/
inductive Spelling : TokenKind → List Char → Prop
  | comma : Spelling .comma [',']
  | string {body : List Char} (plain : ∀ c ∈ body, isStringChar c = true) :
      Spelling .string ('"' :: (body ++ ['"']))
  | word {text : List Char} (nonempty : text ≠ [])
      (whole : ∀ c ∈ text, isWordChar c = true) : Spelling .word text

/-- What follows a token of this kind does not belong to it. -/
def EndsBefore (kind : TokenKind) (rest : List Char) : Prop :=
  kind = .word → ∀ c ∈ rest.head?, isWordChar c = false

theorem endsBefore_nil (kind : TokenKind) : EndsBefore kind [] := by
  simp [EndsBefore]

theorem endsBefore_cons {c : Char} (ends : isWordChar c = false) (kind : TokenKind)
    (rest : List Char) : EndsBefore kind (c :: rest) := by
  simp [EndsBefore, ends]

theorem Spelling.ne_nil {kind : TokenKind} {text : List Char} (spelling : Spelling kind text) :
    text ≠ [] := by
  cases spelling with
  | comma => simp
  | string _ => simp
  | word nonempty _ => exact nonempty

/-- A token at the beginning of a text is scanned whole, and nothing more with it. -/
theorem scanFrom_append {kind : TokenKind} {text rest : List Char}
    (spelling : Spelling kind text) (ends : EndsBefore kind rest) (start : Nat) :
    scanFrom start (text ++ rest) =
      { kind, start, source := String.ofList text } :: scanFrom (start + byteCount text) rest := by
  cases spelling with
  | comma =>
      rw [List.singleton_append, scanFrom]
      rfl
  | @string body plain =>
      rw [List.cons_append, List.append_assoc, List.singleton_append, scanFrom_string plain]
  | word nonempty whole =>
      obtain ⟨c, letters, rfl⟩ := List.exists_cons_of_ne_nil nonempty
      rw [List.cons_append, scanFrom_wholeWord whole (ends rfl)]

/-- Scanning the text that follows `before` in a line yields the tokens. -/
inductive Scanned : (before text : List Char) → (tokens : List Token) → Prop
  | nil {before : List Char} : Scanned before [] []
  | gap {before text : List Char} {c : Char} {tokens : List Token} (blank : isGap c = true)
      (scanned : Scanned (before ++ [c]) text tokens) : Scanned before (c :: text) tokens
  | comment {before : List Char} (text : List Char) : Scanned before (';' :: text) []
  | unclosed {before text : List Char} (unclosed : '"' ∉ text) :
      Scanned before ('"' :: text)
        [{ kind := .unreadable, start := byteCount before, source := String.ofList ('"' :: text) }]
  | token {before text rest : List Char} {kind : TokenKind} {tokens : List Token}
      (spelling : Spelling kind text) (ends : EndsBefore kind rest)
      (scanned : Scanned (before ++ text) rest tokens) :
      Scanned before (text ++ rest)
        ({ kind, start := byteCount before, source := String.ofList text } :: tokens)

theorem byteCount_append (first second : List Char) :
    byteCount (first ++ second) = byteCount first + byteCount second := by
  rw [byteCount, String.ofList_append, String.utf8ByteSize_append]
  rfl

/-- A gap is one byte. -/
theorem byteCount_gap {c : Char} (gap : isGap c = true) : byteCount [c] = 1 := by
  simp only [isGap, Bool.or_eq_true, beq_iff_eq] at gap
  rcases gap with (((rfl | rfl) | rfl) | rfl) | rfl <;> rfl

/-- A line without newlines is scanned so. -/
theorem scanned_scanFrom {text : List Char} (unbroken : '\n' ∉ text) {before : List Char}
    {start : Nat} (here : byteCount before = start) :
    Scanned before text (scanFrom start text) := by
  have line := line_of_unbroken unbroken
  clear unbroken
  induction line generalizing before start with
  | nil =>
      rw [scanFrom]
      exact .nil
  | gap blank _ ih =>
      subst here
      rw [scanFrom_gap blank]
      exact .gap blank (ih (by rw [byteCount_append, byteCount_gap blank]))
  | comment unbroken =>
      rw [scanFrom_comment unbroken]
      exact .comment _
  | comma _ ih =>
      subst here
      rw [scanFrom_comma]
      exact .token .comma (by simp [EndsBefore]) (ih (byteCount_append before [',']))
  | @closed body rest plain _ ih =>
      subst here
      have spelled : '"' :: (body ++ '"' :: rest) = '"' :: (body ++ ['"']) ++ rest := by simp
      rw [scanFrom_string plain, spelled]
      exact .token (.string plain) (by simp [EndsBefore]) (ih (byteCount_append before _))
  | unclosed plain =>
      subst here
      rw [scanFrom_unclosed plain]
      exact .unclosed fun member => absurd (plain _ member) (by decide)
  | @word c letters rest whole ends _ ih =>
      subst here
      rw [scanFrom_wholeWord whole ends]
      have spelling : Spelling .word (c :: letters) := .word (List.cons_ne_nil c letters) whole
      exact .token spelling (fun _ => ends) (ih (byteCount_append before _))

end ChipAsm.Token
