/-
# Every byte of a line

A line without newlines cannot be read exactly if one of its string literals is not closed: a
quote that stands outside string literals and comments has no quote after it. There is at most one
such quote, and it alone is blamed, by its column.

The tokens of a line that can be read account for all its bytes. They stand one after the other,
each where it says; a word is as long as it can be; and a byte of no token is a blank or belongs
to the comment, which begins at the first semicolon outside string literals.
-/

import ChipAsm.Proofs.Preprocess.Quotation
import ChipAsm.Proofs.Token.Spelling

namespace ChipAsm

namespace Text

variable {before after text : List Char}

theorem outside_nil : Outside [] :=
  ⟨by simp, by simp⟩

theorem Outside.append (outside : Outside before) (closes : Control.Closes false text) :
    Outside (before ++ text) := by
  rw [← Control.closes_iff_outside] at outside ⊢
  exact outside.append_iff.mpr closes

/-- A quote that opens a literal has its closing quote before any place outside literals. -/
theorem Outside.quote_mem (outside : Outside before) (closed : Outside (before ++ '"' :: after)) :
    '"' ∈ after := by
  have paired := closed.1
  rw [List.count_append, List.count_cons_self, Nat.even_add, iff_true_left outside.1,
    Nat.even_add_one] at paired
  rw [← List.count_pos_iff]
  exact Nat.pos_of_ne_zero fun none => paired (by simp [none])

/-- A comment has no quote that opens a literal. -/
theorem Outside.quote_mem_of_comment (outside : Outside before) {comment : List Char}
    (reached : Outside text) (split : text ++ ';' :: comment = before ++ '"' :: after) :
    '"' ∈ after := by
  obtain ⟨more, rfl, same⟩ | ⟨more, rfl, same⟩ := List.append_eq_append_iff.mp split
  · cases more with
    | nil => cases same
    | cons c more =>
        obtain ⟨rfl, rfl⟩ := List.cons.inj same
        exact absurd reached.1 (outside.2 text more rfl)
  · cases more with
    | nil => cases same
    | cons c more =>
        obtain ⟨rfl, rfl⟩ := List.cons.inj same
        exact List.mem_append_left _ (outside.quote_mem reached)

end Text

namespace Token

open Text

/-- A text between two quotes closes. -/
theorem closes_quotes {body : List Char} (plain : ∀ c ∈ body, isStringChar c = true) :
    Control.Closes false ('"' :: (body ++ ['"'])) := by
  have inside : Control.Closes true (body ++ ['"']) := by
    induction body with
    | nil => exact ⟨rfl, rfl⟩
    | cons c body ih =>
        obtain ⟨first, others⟩ := List.forall_mem_cons.mp plain
        have noQuote : (true != (c == '"')) = true := by
          simp only [isStringChar, Bool.and_eq_true, bne_iff_ne] at first
          simp [first.1]
        rw [List.cons_append, Control.closes_cons_iff, noQuote]
        exact ⟨.inl rfl, ih others⟩
  exact Control.closes_cons_iff.mpr ⟨.inr (by decide), inside⟩

theorem closes_of_isWordChar {text : List Char} (whole : ∀ c ∈ text, isWordChar c = true) :
    Control.Closes false text := by
  apply Control.closes_of_forall
  intro c member
  obtain ⟨-, -, noQuote, noComment⟩ := isWordChar_iff.mp (whole c member)
  exact ⟨noComment, noQuote⟩

theorem Spelling.closes {kind : TokenKind} {text : List Char} (spelling : Spelling kind text) :
    Control.Closes false text := by
  cases spelling with
  | comma => exact Control.closes_of_forall (by simp)
  | string plain => exact closes_quotes plain
  | word _ whole => exact closes_of_isWordChar whole

theorem closes_gap {c : Char} (gap : isGap c = true) : Control.Closes false [c] := by
  apply Control.closes_of_forall
  intro d member
  rw [List.mem_singleton.mp member]
  constructor <;> (rintro rfl; cases gap)

/-- The quote between the two texts opens a string literal that is not closed. -/
def Unclosed (line before after : List Char) : Prop :=
  line = before ++ '"' :: after ∧ Outside before ∧ '"' ∉ after

/-- At most one literal of a line is not closed. -/
theorem Unclosed.unique {line before after other later : List Char}
    (unclosed : Unclosed line before after) (unclosedOther : Unclosed line other later) :
    before = other := by
  obtain ⟨rfl, -, last⟩ := unclosed
  obtain ⟨split, -, lastOther⟩ := unclosedOther
  obtain ⟨more, rfl, same⟩ | ⟨more, rfl, same⟩ := List.append_eq_append_iff.mp split
  · cases more with
    | nil => exact (List.append_nil before).symm
    | cons c more =>
        obtain ⟨rfl, rfl⟩ := List.cons.inj same
        exact absurd (by simp) last
  · cases more with
    | nil => exact List.append_nil other
    | cons c more =>
        obtain ⟨rfl, rfl⟩ := List.cons.inj same
        exact absurd (by simp) lastOther

/-- The one token that cannot be read is the literal that is not closed. -/
theorem Scanned.unreadable {before text : List Char} {tokens : List Token}
    (scanned : Scanned before text tokens) (outside : Outside before) :
    (tokens.filter (fun token => token.kind = .unreadable) = [] ∧
        ∀ first after, ¬Unclosed (before ++ text) first after) ∨
      ∃ first after, Unclosed (before ++ text) first after ∧
        tokens.filter (fun token => token.kind = .unreadable) =
          [{ kind := .unreadable, start := byteCount first,
             source := String.ofList ('"' :: after) }] := by
  induction scanned with
  | nil =>
      refine .inl ⟨rfl, ?_⟩
      rintro first after ⟨split, opens, unclosed⟩
      rw [List.append_nil] at split
      exact unclosed (opens.quote_mem (split ▸ outside))
  | comment text =>
      refine .inl ⟨rfl, ?_⟩
      rintro first after ⟨split, opens, unclosed⟩
      exact unclosed (opens.quote_mem_of_comment outside split)
  | unclosed unclosed => exact .inr ⟨_, _, ⟨rfl, outside, unclosed⟩, rfl⟩
  | gap blank scanned ih =>
      have step := ih (outside.append (closes_gap blank))
      rwa [List.append_assoc, List.singleton_append] at step
  | token spelling ends scanned ih =>
      have step := ih (outside.append spelling.closes)
      rw [List.append_assoc] at step
      have readable : ∀ {kind : TokenKind} {text : List Char}, Spelling kind text →
          kind ≠ .unreadable := by
        rintro kind text spelling rfl
        cases spelling
      rwa [List.filter_cons_of_neg (by simpa using readable spelling)]

/-- The token is what stands at its byte in the line, outside string literals and comments. A
word is as long as it can be. -/
def StandsIn (line : List Char) (token : Token) : Prop :=
  ∃ before after, line = before ++ token.source.toList ++ after ∧
    byteCount before = token.start ∧ Outside before ∧
    match token.kind with
    | .comma => token.source = ","
    | .string => ∃ body, token.source.toList = '"' :: (body ++ ['"']) ∧ '"' ∉ body
    | .word => token.source.toList ≠ [] ∧ (∀ c ∈ token.source.toList, isWordChar c = true) ∧
        (∀ c ∈ before.getLast?, isWordChar c = false) ∧ ∀ c ∈ after.head?, isWordChar c = false
    | .unreadable => False

/-- The tokens account for the bytes of the line. -/
structure Accounts (line : List Char) (tokens : List Token) : Prop where
  stands : ∀ token ∈ tokens, token.StandsIn line
  nonempty : ∀ token ∈ tokens, token.start < token.stop
  ordered : tokens.Pairwise fun first second => first.stop ≤ second.start
  rest : ∀ byte < byteCount line, (∃ token ∈ tokens, token.start ≤ byte ∧ byte < token.stop) ∨
    (∃ before c after, line = before ++ c :: after ∧ byteCount before = byte ∧
      c ∈ [' ', '\t', '\r', '\x0c']) ∨
    ∃ before after, line = before ++ ';' :: after ∧ Outside before ∧ byteCount before ≤ byte

theorem stop_eq (kind : TokenKind) (before text : List Char) :
    stop { kind, start := byteCount before, source := String.ofList text } =
      byteCount (before ++ text) :=
  (byteCount_append before text).symm

theorem byteCount_pos {text : List Char} (nonempty : text ≠ []) : 0 < byteCount text := by
  rw [byteCount, Nat.pos_iff_ne_zero, ne_eq, String.utf8ByteSize_eq_zero_iff]
  simpa using nonempty

theorem start_lt_stop (kind : TokenKind) (before : List Char) {text : List Char}
    (nonempty : text ≠ []) :
    byteCount before < stop { kind, start := byteCount before, source := String.ofList text } :=
  Nat.lt_add_of_pos_right (byteCount_pos nonempty)

/-- No word goes on from the first text to the second. -/
def Apart (before text : List Char) : Prop :=
  ∀ c ∈ before.getLast?, isWordChar c = true → ∀ d ∈ text.head?, isWordChar d = false

theorem apart_concat {before text : List Char} {c : Char} (foreign : isWordChar c = false) :
    Apart (before ++ [c]) text := by
  intro d last word
  rw [List.getLast?_concat, Option.mem_some_iff] at last
  rw [← last, foreign] at word
  cases word

theorem Spelling.apart {kind : TokenKind} {before text rest : List Char}
    (spelling : Spelling kind text) (ends : EndsBefore kind rest) :
    Apart (before ++ text) rest := by
  cases spelling with
  | comma => exact apart_concat rfl
  | @string body plain =>
      rw [← List.cons_append, ← List.append_assoc]
      exact apart_concat rfl
  | word _ _ => exact fun _ _ _ => ends rfl

/-- A token at the place that scanning has come to stands there. -/
theorem Spelling.standsIn {kind : TokenKind} {before text rest : List Char}
    (spelling : Spelling kind text) (outside : Outside before) (apart : Apart before (text ++ rest))
    (ends : EndsBefore kind rest) :
    StandsIn (before ++ (text ++ rest))
      { kind, start := byteCount before, source := String.ofList text } := by
  refine ⟨before, rest, ?_, rfl, outside, ?_⟩
  · rw [String.toList_ofList, List.append_assoc]
  · cases spelling with
    | comma => rfl
    | @string body plain =>
        exact ⟨body, String.toList_ofList, fun member => absurd (plain _ member) (by decide)⟩
    | word nonempty whole =>
        obtain ⟨c, letters, rfl⟩ := List.exists_cons_of_ne_nil nonempty
        simp only [String.toList_ofList]
        refine ⟨nonempty, whole, ?_, ends rfl⟩
        intro d last
        rw [← Bool.not_eq_true]
        intro word
        have foreign := apart d last word c rfl
        rw [whole c List.mem_cons_self] at foreign
        cases foreign

namespace Scanned

variable {before text : List Char} {tokens : List Token} (scanned : Scanned before text tokens)

include scanned

theorem byteCount_le_start : ∀ token ∈ tokens, byteCount before ≤ token.start := by
  induction scanned with
  | nil => simp
  | comment text => simp
  | unclosed unclosed => simp
  | gap blank scanned ih =>
      intro token member
      exact Nat.le_trans (byteCount_append .. ▸ Nat.le_add_right ..) (ih token member)
  | token spelling ends scanned ih =>
      rw [List.forall_mem_cons]
      refine ⟨Nat.le_refl _, fun token member => ?_⟩
      exact Nat.le_trans (byteCount_append .. ▸ Nat.le_add_right ..) (ih token member)

theorem pairwise : tokens.Pairwise fun first second => first.stop ≤ second.start := by
  induction scanned with
  | nil => exact .nil
  | comment text => exact .nil
  | unclosed unclosed => exact List.pairwise_singleton ..
  | gap blank scanned ih => exact ih
  | token spelling ends scanned ih =>
      refine .cons (fun token member => ?_) ih
      rw [stop_eq]
      exact scanned.byteCount_le_start token member

theorem nonempty : ∀ token ∈ tokens, token.start < token.stop := by
  induction scanned with
  | nil => simp
  | comment text => simp
  | unclosed unclosed =>
      rw [List.forall_mem_singleton]
      exact start_lt_stop _ _ (by simp)
  | gap blank scanned ih => exact ih
  | token spelling ends scanned ih =>
      exact List.forall_mem_cons.mpr ⟨start_lt_stop _ _ spelling.ne_nil, ih⟩

theorem standsIn (outside : Outside before) (apart : Apart before text) :
    ∀ token ∈ tokens, token.kind ≠ .unreadable → token.StandsIn (before ++ text) := by
  induction scanned with
  | nil => simp
  | comment text => simp
  | unclosed unclosed => simp
  | gap blank scanned ih =>
      have step := ih (outside.append (closes_gap blank)) (apart_concat (isWordChar_of_isGap blank))
      rwa [List.append_assoc, List.singleton_append] at step
  | token spelling ends scanned ih =>
      have step := ih (outside.append spelling.closes) (spelling.apart ends)
      rw [List.append_assoc] at step
      exact List.forall_mem_cons.mpr ⟨fun _ => spelling.standsIn outside apart ends, step⟩

/-- A byte that scanning has not come to belongs to a token, is a gap or belongs to the comment. -/
theorem rest (outside : Outside before) {byte : Nat} (low : byteCount before ≤ byte)
    (high : byte < byteCount (before ++ text)) :
    (∃ token ∈ tokens, token.start ≤ byte ∧ byte < token.stop) ∨
      (∃ first c after, before ++ text = first ++ c :: after ∧ byteCount first = byte ∧
        isGap c = true) ∨
      ∃ first after, before ++ text = first ++ ';' :: after ∧ Outside first ∧
        byteCount first ≤ byte := by
  induction scanned with
  | nil =>
      rw [List.append_nil] at high
      exact absurd high (Nat.not_lt.mpr low)
  | comment text => exact .inr (.inr ⟨_, text, rfl, outside, low⟩)
  | unclosed unclosed =>
      refine .inl ⟨_, List.mem_singleton_self _, low, ?_⟩
      rwa [stop_eq]
  | @gap before text c tokens blank scanned ih =>
      by_cases here : byteCount before = byte
      · exact .inr (.inl ⟨before, c, text, rfl, here, blank⟩)
      · have step := ih (outside.append (closes_gap blank))
        rw [byteCount_append, byteCount_gap blank, List.append_assoc, List.singleton_append] at step
        exact step (by omega) high
  | @token before text rest kind tokens spelling ends scanned ih =>
      by_cases here : byte < byteCount (before ++ text)
      · refine .inl ⟨_, List.mem_cons_self, low, ?_⟩
        rwa [stop_eq]
      · have step := ih (outside.append spelling.closes) (Nat.not_lt.mp here)
        rw [List.append_assoc] at step
        rcases step high with ⟨token, member, covers⟩ | other
        · exact .inl ⟨token, List.mem_cons_of_mem _ member, covers⟩
        · exact .inr other

end Scanned

/-- A line without newlines that can be read is accounted for by its tokens. -/
theorem accounts_of_scanned {line : List Char} {tokens : List Token} (unbroken : '\n' ∉ line)
    (scanned : Scanned [] line tokens)
    (readable : tokens.filter (fun token => token.kind = .unreadable) = []) :
    Accounts line tokens where
  stands token member := by
    refine scanned.standsIn outside_nil (by simp [Apart]) token member ?_
    simpa using List.filter_eq_nil_iff.mp readable token member
  nonempty := scanned.nonempty
  ordered := scanned.pairwise
  rest byte high := by
    rcases scanned.rest outside_nil (Nat.zero_le byte) high with
      covered | ⟨before, c, after, split, here, gap⟩ | comment
    · exact .inl covered
    · refine .inr (.inl ⟨before, c, after, split, here, ?_⟩)
      rw [List.nil_append] at split
      have noNewline : c ≠ '\n' := by
        rintro rfl
        exact unbroken (by simp [split])
      simpa [isGap, noNewline, or_assoc] using gap
    · exact .inr (.inr comment)

/-- A line without newlines is read exactly if all its string literals are closed, and then its
tokens account for every byte. Otherwise the one quote that opens a literal and has no quote after
it is blamed, by its column, and nothing else is. -/
theorem line_accounted_for (place : Place) {text : String} (unbroken : '\n' ∉ text.toList) :
    (∀ faults, read place text = .error faults ↔
      ∃ before after, text.toList = before ++ '"' :: after ∧ Outside before ∧ '"' ∉ after ∧
        faults = [place.diagnostic (.line (.unterminatedString (byteCount before + 1)))]) ∧
      ∀ tokens, read place text = .ok tokens → Accounts text.toList tokens := by
  have scanned : Scanned [] text.toList (scan text) := scanned_scanFrom unbroken rfl
  rcases scanned.unreadable outside_nil with
    ⟨readable, closed⟩ | ⟨before, after, unclosed, unreadable⟩
  · have success : read place text = .ok (scan text) := by
      simp only [read, readable]
    rw [success]
    refine ⟨fun faults => ⟨(by rintro ⟨⟩), ?_⟩, ?_⟩
    · rintro ⟨before, after, split, outside, unclosed, -⟩
      exact absurd ⟨split, outside, unclosed⟩ (closed before after)
    · rintro tokens ⟨⟩
      exact accounts_of_scanned unbroken scanned readable
  · have failure : read place text =
        .error [place.diagnostic (.line (.unterminatedString (byteCount before + 1)))] := by
      simp only [read, unreadable]
      rfl
    rw [failure]
    refine ⟨fun faults => ⟨?_, ?_⟩, by rintro tokens ⟨⟩⟩
    · rintro ⟨⟩
      exact ⟨before, after, unclosed.1, unclosed.2.1, unclosed.2.2, rfl⟩
    · rintro ⟨other, later, split, outside, last, rfl⟩
      rw [unclosed.unique ⟨split, outside, last⟩]

/-- A semicolon in a literal begins no comment and a quote in a comment opens no literal; the
column of a quote that is not closed counts bytes. -/
theorem line_accounted_for_with_quote_in_comment :
    let place : Place := { file := .ofText "line.asm", line := 7 }
    let line := "é:DS \"x;y\",;\"z"
    let tokens : List Token :=
      [{ kind := .word, start := 0, source := "é:DS" },
        { kind := .string, start := 6, source := "\"x;y\"" },
        { kind := .comma, start := 11, source := "," }]
    let broken := "é \"x"
    '\n' ∉ line.toList ∧ read place line = .ok tokens ∧ Accounts line.toList tokens ∧
      '\n' ∉ broken.toList ∧
      read place broken = .error [place.diagnostic (.line (.unterminatedString 4))] := by
  intro place line tokens broken
  have unbroken : '\n' ∉ line.toList := by decide
  have unbrokenOther : '\n' ∉ broken.toList := by decide
  have success : read place line = .ok tokens := by decide +kernel
  have outside : Outside ['é', ' '] := Control.closes_iff_outside.mp ⟨by decide, by decide⟩
  refine ⟨unbroken, success, (line_accounted_for place unbroken).2 tokens success,
    unbrokenOther, ?_⟩
  apply ((line_accounted_for place unbrokenOther).1 _).mpr
  exact ⟨['é', ' '], ['x'], by decide, outside, by decide, by decide +kernel⟩

end Token

end ChipAsm
