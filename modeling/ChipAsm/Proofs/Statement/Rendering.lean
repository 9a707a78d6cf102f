/-
# Reading the normal spelling of a statement

A statement that was read is written out as one line. Its label, its mnemonic and its arguments
are the tokens of that line, since blanks and commas keep them apart and the quotes of a string
literal enclose what would end it. None of them is taken for something else: a mnemonic in
capitals is no marker of a place, it ends in a colon only if it is the colon alone, and a label
is a name. So the line is read as the statement, which then stands where the line does.

The mnemonic has to be in ASCII: it is written in capitals and these are changed to capitals once
more.
-/

import ChipAsm.Proofs.Statement.Legible
import ChipAsm.Proofs.Text.Name

namespace ChipAsm

/-! ## The tokens of a text that is written out -/

namespace Token

/-- Wherever in a line the text begins, it has these tokens besides commas, and no fault. -/
structure Lists (text : List Char) (texts : List String) : Prop where
  unbroken : '\n' ∉ text
  readable : ∀ start, ∀ token ∈ scanFrom start text, token.kind ≠ .unreadable
  texts : ∀ start,
    ((scanFrom start text).filter fun token => token.kind ≠ .comma).map (·.source) = texts

theorem Spelling.unbroken {kind : TokenKind} {text : List Char} (spelling : Spelling kind text) :
    '\n' ∉ text := by
  cases spelling with
  | comma => decide
  | @string body plain =>
      have inside : '\n' ∉ body := fun member => absurd (plain _ member) (by decide)
      simpa using inside
  | word _ whole => exact fun member => absurd (whole _ member) (by decide)

theorem Spelling.readable {kind : TokenKind} {text : List Char} (spelling : Spelling kind text) :
    kind ≠ .unreadable := by
  cases spelling <;> simp

/-- A text that is a word is spelled as nothing else. -/
theorem Spelling.kind_eq_word {kind : TokenKind} {text : List Char}
    (spelling : Spelling kind text) (word : Spelling .word text) : kind = .word := by
  obtain _ | _ | ⟨-, whole⟩ := word
  cases spelling with
  | comma => exact absurd (whole ',' (by simp)) (by decide)
  | string _ => exact absurd (whole '"' (by simp)) (by decide)
  | word _ _ => rfl

namespace Lists

variable {text : List Char} {texts : List String}

theorem nil : Lists [] [] where
  unbroken := List.not_mem_nil
  readable start := by simp [scanFrom]
  texts start := by simp [scanFrom]

theorem space (lists : Lists text texts) : Lists (' ' :: text) texts where
  unbroken := by simpa using lists.unbroken
  readable start := by
    rw [scanFrom_gap rfl]
    exact lists.readable (start + 1)
  texts start := by
    rw [scanFrom_gap rfl]
    exact lists.texts (start + 1)

theorem comma (lists : Lists text texts) : Lists (',' :: text) texts where
  unbroken := by simpa using lists.unbroken
  readable start := by
    rw [← List.singleton_append, scanFrom_append .comma (by simp [EndsBefore])]
    exact List.forall_mem_cons.mpr ⟨by simp, lists.readable _⟩
  texts start := by
    rw [← List.singleton_append, scanFrom_append .comma (by simp [EndsBefore]),
      List.filter_cons_of_neg (by simp)]
    exact lists.texts _

theorem token {kind : TokenKind} {token : String} (spelling : Spelling kind token.toList)
    (counts : kind ≠ .comma) (ends : EndsBefore kind text) (lists : Lists text texts) :
    Lists (token.toList ++ text) (token :: texts) where
  unbroken := by
    rw [List.mem_append, not_or]
    exact ⟨spelling.unbroken, lists.unbroken⟩
  readable start := by
    rw [scanFrom_append spelling ends]
    exact List.forall_mem_cons.mpr ⟨spelling.readable, lists.readable _⟩
  texts start := by
    rw [scanFrom_append spelling ends, List.filter_cons_of_pos (by simpa using counts),
      List.map_cons, String.ofList_toList, lists.texts]

/-- Arguments are kept apart by commas. -/
theorem arguments {arguments : List String}
    (spelled : ∀ argument ∈ arguments, ∃ kind ≠ TokenKind.comma, Spelling kind argument.toList) :
    Lists (", ".intercalate arguments).toList arguments := by
  induction arguments with
  | nil => exact nil
  | cons argument rest ih =>
      obtain ⟨⟨kind, counts, spelling⟩, others⟩ := List.forall_mem_cons.mp spelled
      cases rest with
      | nil =>
          have alone := nil.token spelling counts (endsBefore_nil kind)
          rwa [List.append_nil] at alone
      | cons next rest =>
          rw [String.intercalate_cons_cons, String.toList_append, String.toList_append,
            List.append_assoc]
          exact (ih others).space.comma.token spelling counts (endsBefore_cons (by decide) kind _)

/-- A text with tokens is not empty. -/
theorem ne_empty {text : String} (lists : Lists text.toList texts) (some : texts ≠ []) :
    text ≠ "" := by
  rintro rfl
  exact some ((lists.texts 0).symm.trans (by simp [scanFrom]))

end Lists

end Token

namespace Statement

/-- The texts that the normal spelling of a statement consists of. -/
def texts (statement : Statement) : List String :=
  statement.mark?.toList.map (·.name ++ ":") ++
    statement.body?.toList.flatMap fun body => body.mnemonic :: body.arguments

theorem texts_ne_nil (statement : Statement) : statement.texts ≠ [] := by
  cases statement <;> simp [texts, mark?, body?]

/-- The statement as it would stand elsewhere. -/
def placed (place : Place) : Statement → Statement
  | .instruction mark body => .instruction (mark.map ({ · with place })) { body with place }
  | .label mark => .label { mark with place }

end Statement

theorem Instruction.Legible.lists {body : Instruction} (legible : body.Legible) :
    Token.Lists body.render.toList (body.mnemonic :: body.arguments) := by
  have listed := Token.Lists.arguments legible.arguments
  rw [render]
  split
  · next none =>
      have alone := Token.Lists.nil.token legible.word (by simp) (Token.endsBefore_nil _)
      rwa [List.append_nil, ← none] at alone
  · rw [String.toList_append, String.toList_append, List.append_assoc]
    exact listed.space.token legible.word (by simp) (Token.endsBefore_cons (by decide) _ _)

/-- A name with a colon is a word. -/
theorem Text.spelling_of_isName {name : String} (named : isName name = true) :
    Token.Spelling .word (name ++ ":").toList := by
  rw [String.toList_append]
  refine .word (by simp) ?_
  intro c member
  obtain letter | colon := List.mem_append.mp member
  · exact Token.isWordChar_of_class (by decide) ((isName_iff.mp named).2.2 c letter)
  · rw [List.mem_singleton.mp colon]
    rfl

theorem Statement.Legible.lists {statement : Statement} (legible : statement.Legible) :
    Token.Lists statement.render.toList statement.texts := by
  cases statement with
  | label mark =>
      have word := Text.spelling_of_isName (legible.mark mark rfl)
      have alone := Token.Lists.nil.token word (by simp) (Token.endsBefore_nil _)
      rwa [List.append_nil] at alone
  | instruction mark body =>
      have listed := (legible.body body rfl).lists
      cases mark with
      | none => simpa [render, texts, mark?, body?] using listed
      | some mark =>
          have word := Text.spelling_of_isName (legible.mark mark rfl)
          have labelled :=
            listed.space.token word (by simp) (Token.endsBefore_cons (by decide) _ _)
          simpa [render, texts, mark?, body?] using labelled

/-! ## Reading the tokens -/

/-- The form of a line depends on the tokens that count. -/
theorem Token.Lists.exists_ofText {text : String} {texts : List String}
    (lists : Lists text.toList texts) :
    ∃ tokens, LineForm.ofText text = .ofItems tokens ∧ tokens.map (·.source) = texts ∧
      ∀ token ∈ tokens, token.Counts := by
  have readable : ((scan text).filter fun token => token.kind = .unreadable) = [] := by
    rw [List.filter_eq_nil_iff]
    intro token member
    simpa using lists.readable 0 token member
  refine ⟨LineForm.items text, ?_, lists.texts 0, ?_⟩
  · simp only [LineForm.ofText, readable]
  · exact LineForm.counts_of_mem_items lists.unbroken readable

section Tokens

variable {token first : Token} {name : String} {arguments : List Token} {body : Instruction}

/-- A name with a colon is read as that label. -/
theorem Token.labelName?_of_source (counts : token.Counts) (named : Text.isName name = true)
    (source : token.source = name ++ ":") : token.labelName? = some name := by
  rw [labelName?_eq_some_iff]
  refine ⟨?_, (Text.isName_iff.mp named).1, source⟩
  exact counts.2.kind_eq_word (source ▸ Text.spelling_of_isName named)

/-- A label is no marker of a place. -/
theorem Token.ne_marker_of_labelName? (named : token.labelName? = some name) :
    token.source ≠ "#line" := by
  intro marker
  obtain ⟨-, -, source⟩ := labelName?_eq_some_iff.mp named
  have colon : (name ++ ":").toList.getLast? = some ':' := by
    rw [String.toList_append]
    exact List.getLast?_concat
  rw [← source, marker] at colon
  exact absurd colon (by decide)

/-- A mnemonic in capitals is no marker of a place. -/
theorem Instruction.Legible.ne_marker (legible : body.Legible) : body.mnemonic ≠ "#line" := by
  intro marker
  have small := legible.capital 'l' (by rw [marker]; decide)
  exact absurd small (by decide)

/-- The tokens of an instruction that is written out make the same instruction. -/
theorem Instruction.Legible.makeInstruction (legible : body.Legible)
    (ascii : ∀ c ∈ body.mnemonic.toList, c.toNat < 128) (counts : first.Counts)
    (source : first.source = body.mnemonic) (sources : arguments.map (·.source) = body.arguments)
    (place : Place) (label : Option Label) :
    Reader.makeInstruction place label first arguments =
      .ok (.instruction label { body with place }) := by
  have word : first.kind = .word := counts.2.kind_eq_word (source ▸ legible.word)
  have plain : first.isLabel = false :=
    (Token.isLabel_eq_false_iff word).mpr (source ▸ legible.unlabelled)
  rw [Reader.makeInstruction_eq_ok_iff, source, sources, Text.upper_eq_self ascii legible.capital]
  exact ⟨plain, word, rfl⟩

end Tokens

/-- The tokens of a statement that is written out are read as the statement. -/
theorem Statement.Legible.finish_readItems {statement : Statement} (legible : statement.Legible)
    (ascii : ∀ body, statement.body? = some body → ∀ c ∈ body.mnemonic.toList, c.toNat < 128)
    {tokens : List Token} (sources : tokens.map (·.source) = statement.texts)
    (counts : ∀ token ∈ tokens, token.Counts) (file : Path) :
    ((Reader.start file).readItems tokens).finish =
      .ok [statement.placed { file, line := 1 }] := by
  cases statement with
  | label mark =>
      obtain ⟨token, rfl, source⟩ := List.map_eq_singleton_iff.mp sources
      have name := legible.mark mark rfl
      have named := Token.labelName?_of_source (counts token (by simp)) name source
      simp only [Reader.readItems, if_neg (Token.ne_marker_of_labelName? named), named,
        Reader.readLabel, Reader.makeLabel, if_pos name]
      rfl
  | instruction mark body =>
      have legibleBody := legible.body body rfl
      cases mark with
      | none =>
          obtain ⟨first, arguments, rfl, source, others⟩ := List.map_eq_cons_iff.mp sources
          have made := legibleBody.makeInstruction (ascii body rfl) (counts first (by simp)) source
            (by simpa using others) { file, line := 1 } none
          obtain ⟨plain, -, -⟩ := Reader.makeInstruction_eq_ok_iff.mp made
          have unnamed : first.labelName? = none := by simpa [Token.isLabel] using plain
          have other : first.source ≠ "#line" := source ▸ legibleBody.ne_marker
          simp only [Reader.readItems, if_neg other, unnamed, Reader.start, made]
          rfl
      | some mark =>
          obtain ⟨token, rest, rfl, source, remaining⟩ := List.map_eq_cons_iff.mp sources
          obtain ⟨first, arguments, rfl, mnemonic, others⟩ := List.map_eq_cons_iff.mp remaining
          have name := legible.mark mark rfl
          have named := Token.labelName?_of_source (counts token (by simp)) name source
          have made : Reader.makeLabelled { file, line := 1 } none token mark.name first arguments =
              .ok (placed { file, line := 1 } (.instruction (some mark) body)) := by
            rw [Reader.makeLabelled_eq_ok_iff]
            refine ⟨rfl, name, ?_⟩
            exact legibleBody.makeInstruction (ascii body rfl) (counts first (by simp)) mnemonic
              (by simpa using others) _ _
          simp only [Reader.readItems, if_neg (Token.ne_marker_of_labelName? named), named,
            Reader.start, made]
          rfl

/-- A statement of a source, written out in its normal spelling, is read as the same statement,
from whatever file. -/
theorem statement_read_back {file : Path} {source : String} {statements : List Statement}
    (parsed : parse file source = .ok statements) {statement : Statement}
    (member : statement ∈ statements)
    (ascii : ∀ body, statement.body? = some body → ∀ c ∈ body.mnemonic.toList, c.toNat < 128)
    (other : Path) :
    parse other statement.render = .ok [statement.placed { file := other, line := 1 }] := by
  have legible := legible_of_parse parsed statement member
  have lists := legible.lists
  obtain ⟨tokens, form, sources, counts⟩ := lists.exists_ofText
  rw [parse, Text.lines_unbroken lists.unbroken (lists.ne_empty statement.texts_ne_nil),
    List.foldl_cons, List.foldl_nil, Reader.readLine_eq_readForm, form,
    ← Reader.readItems_eq_readForm]
  exact legible.finish_readItems ascii sources counts other

/-- The label waits on a line of its own, and the string literal has in it what separates tokens
elsewhere. -/
theorem statement_read_back_from_two_lines :
    parse (.ofText "a.asm") "start: ; waits\n\tdb\t\"a, b; c:\" 0x10 ; data" =
        .ok [.instruction (some ⟨"start", ⟨.ofText "a.asm", 1⟩⟩)
          ⟨"DB", ["\"a, b; c:\"", "0x10"], ⟨.ofText "a.asm", 2⟩⟩] ∧
      parse (.ofText "b.asm") "start: DB \"a, b; c:\", 0x10" =
        .ok [.instruction (some ⟨"start", ⟨.ofText "b.asm", 1⟩⟩)
          ⟨"DB", ["\"a, b; c:\"", "0x10"], ⟨.ofText "b.asm", 1⟩⟩] := by
  have parsed : parse (.ofText "a.asm") "start: ; waits\n\tdb\t\"a, b; c:\" 0x10 ; data" =
      .ok [.instruction (some ⟨"start", ⟨.ofText "a.asm", 1⟩⟩)
        ⟨"DB", ["\"a, b; c:\"", "0x10"], ⟨.ofText "a.asm", 2⟩⟩] := by
    decide +kernel
  have rendered : Statement.render (.instruction (some ⟨"start", ⟨.ofText "a.asm", 1⟩⟩)
      ⟨"DB", ["\"a, b; c:\"", "0x10"], ⟨.ofText "a.asm", 2⟩⟩) = "start: DB \"a, b; c:\", 0x10" := by
    decide +kernel
  rw [← rendered]
  refine ⟨parsed, statement_read_back parsed List.mem_cons_self ?_ _⟩
  rintro _ ⟨⟩
  simp

end ChipAsm
