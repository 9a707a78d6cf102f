/-
# What can be read from a line

A label that was read is a name. A mnemonic that was read is the capital form of a word that is
no label, which makes it a word that is no label, without lower-case letters of ASCII. An
argument that was read is the text of a word or of a string literal.

Reading a line keeps this, for the statements and for the label that waits, so it holds of all
statements of a source.
-/

import ChipAsm.Proofs.Statement.Reading
import ChipAsm.Proofs.Text.Line
import ChipAsm.Proofs.Text.Upper
import ChipAsm.Proofs.Token.Spelling

namespace ChipAsm

/-! ## Words, labels and their capital forms -/

namespace Token

/-- The token is no comma, and its text is one of its kind. -/
def Counts (token : Token) : Prop :=
  token.kind ≠ .comma ∧ Spelling token.kind token.source.toList

theorem Scanned.spelling {before text : List Char} {tokens : List Token}
    (scanned : Scanned before text tokens) :
    ∀ token ∈ tokens, token.kind ≠ .unreadable → Spelling token.kind token.source.toList := by
  induction scanned with
  | nil => simp
  | gap _ _ ih => exact ih
  | comment _ => simp
  | unclosed _ => simp
  | token spelling _ _ ih =>
      rw [List.forall_mem_cons]
      refine ⟨fun _ => ?_, ih⟩
      rw [String.toList_ofList]
      exact spelling

/-- A label is a word that ends in a colon and consists of more than it. -/
theorem labelName?_eq_some_iff {token : Token} {name : String} :
    token.labelName? = some name ↔
      token.kind = .word ∧ name ≠ "" ∧ token.source = name ++ ":" := by
  rw [labelName?, Option.ite_none_right_eq_some, Option.some.injEq]
  constructor
  · rintro ⟨⟨word, last, more⟩, rfl⟩
    obtain ⟨front, spelled⟩ := List.getLast?_eq_some_iff.mp last
    rw [spelled, List.dropLast_concat] at more ⊢
    refine ⟨word, fun none => more (String.ofList_eq_empty_iff.mp none), ?_⟩
    rw [← String.toList_inj, spelled, String.toList_append, String.toList_ofList]
    rfl
  · rintro ⟨word, some, same⟩
    have spelled : token.source.toList = name.toList ++ [':'] := by
      rw [same, String.toList_append]
      rfl
    rw [spelled, List.getLast?_concat, List.dropLast_concat]
    exact ⟨⟨word, rfl, fun none => some (String.toList_eq_nil_iff.mp none)⟩, String.ofList_toList⟩

theorem isLabel_eq_false_iff {token : Token} (word : token.kind = .word) :
    token.isLabel = false ↔ ∀ name ≠ "", token.source ≠ name ++ ":" := by
  simp [isLabel, Option.eq_none_iff_forall_ne_some, labelName?_eq_some_iff, word]

/-- The capital form of a word is a word. -/
theorem spelling_upper {text : String} (spelling : Spelling .word text.toList) :
    Spelling .word (Text.upper text).toList := by
  obtain _ | _ | ⟨nonempty, whole⟩ := spelling
  rw [Text.upper, String.toList_ofList]
  refine .word ?_ ?_
  · obtain ⟨c, member⟩ := List.exists_mem_of_ne_nil _ nonempty
    exact fun none => Text.upperChar_ne_nil c (List.flatMap_eq_nil_iff.mp none c member)
  · intro d member
    obtain ⟨c, known, stands⟩ := List.mem_flatMap.mp member
    obtain ⟨-, rfl⟩ | capital := Text.of_mem_upperChar stands
    · exact whole d known
    · exact isWordChar_of_class (by decide) capital

end Token

/-- A text whose capital form ends in a colon after something else does so itself. -/
theorem Text.exists_of_upper_eq {text name : String} (some : name ≠ "")
    (same : upper text = name ++ ":") : ∃ other ≠ "", text = other ++ ":" := by
  have capitals : text.toList.flatMap upperChar = name.toList ++ [':'] := by
    rw [← String.toList_ofList (l := text.toList.flatMap upperChar), ← upper, same,
      String.toList_append]
    rfl
  obtain none | ⟨front, last, spelled⟩ := List.eq_nil_or_concat' text.toList
  · rw [none] at capitals
    exact absurd capitals (by simp)
  · obtain empty | ⟨before, colon, form⟩ := List.eq_nil_or_concat' (upperChar last)
    · exact absurd empty (upperChar_ne_nil last)
    rw [spelled, List.flatMap_append, List.flatMap_singleton, form, ← List.append_assoc] at capitals
    obtain ⟨named, ends⟩ := List.append_inj' capitals rfl
    obtain rfl : colon = ':' := List.singleton_inj.mp ends
    -- A colon is a capital form of itself only.
    obtain rfl : ':' = last := by
      obtain ⟨-, same⟩ | capital := of_mem_upperChar (c := last) (d := ':') (by simp [form])
      · exact same
      · exact absurd capital (by decide)
    refine ⟨String.ofList front, ?_, ?_⟩
    · intro none
      obtain rfl : before = [] := by
        have alone : upperChar ':' = [':'] := by decide
        simpa [alone] using form
      rw [String.ofList_eq_empty_iff.mp none] at named
      exact some (String.toList_eq_nil_iff.mp named.symm)
    · rw [← String.toList_inj, spelled, String.toList_append, String.toList_ofList]
      rfl

/-! ## What the statements consist of -/

/-- The parts of an instruction can be told apart when they are written out. -/
structure Instruction.Legible (body : Instruction) : Prop where
  word : Token.Spelling .word body.mnemonic.toList
  unlabelled : ∀ name ≠ "", body.mnemonic ≠ name ++ ":"
  capital : ∀ c ∈ body.mnemonic.toList, c.isLower = false
  arguments : ∀ argument ∈ body.arguments,
    ∃ kind ≠ TokenKind.comma, Token.Spelling kind argument.toList

/-- The label and the instruction of a statement can be told apart when they are written out. -/
structure Statement.Legible (statement : Statement) : Prop where
  mark : ∀ mark, statement.mark? = some mark → Text.isName mark.name = true
  body : ∀ body, statement.body? = some body → body.Legible

theorem Statement.Legible.label {mark : Label} (named : Text.isName mark.name = true) :
    (Statement.label mark).Legible where
  mark := by
    rintro _ ⟨⟩
    exact named
  body := by
    rintro _ ⟨⟩

namespace LineForm

/-- The tokens of the instruction of a line are words and string literals. -/
def Spelled : LineForm → Prop
  | .instruction _ first arguments => ∀ token ∈ first :: arguments, token.Counts
  | _ => True

theorem spelled_ofItems {items : List Token} (counts : ∀ token ∈ items, token.Counts) :
    (ofItems items).Spelled := by
  fun_cases ofItems items with
  | case1 => trivial
  | case2 first rest moves => trivial
  | case3 first moves name named => trivial
  | case4 first moves name named mnemonic arguments =>
      exact fun token member => counts token (List.mem_cons_of_mem _ member)
  | case5 first rest moves named => exact counts

/-- The tokens of a readable line are words and string literals, commas left out. -/
theorem counts_of_mem_items {text : String} (unbroken : '\n' ∉ text.toList)
    (readable : ((Token.scan text).filter fun token => token.kind = .unreadable) = []) :
    ∀ token ∈ items text, token.Counts := by
  intro token member
  obtain ⟨scanned, counts⟩ := List.mem_filter.mp member
  have line : Token.Scanned [] text.toList (Token.scan text) := Token.scanned_scanFrom unbroken rfl
  refine ⟨of_decide_eq_true counts, line.spelling token scanned ?_⟩
  simpa using List.filter_eq_nil_iff.mp readable token scanned

theorem spelled_ofText {text : String} (unbroken : '\n' ∉ text.toList) :
    (ofText text).Spelled := by
  cases readable : (Token.scan text).filter fun token => token.kind = .unreadable with
  | cons token rest => simp [ofText, readable, Spelled]
  | nil =>
      simp only [ofText, readable]
      exact spelled_ofItems (counts_of_mem_items unbroken readable)

end LineForm

namespace Reader

/-- An instruction that is made of a word and other tokens that count is legible. -/
theorem legible_of_makeInstruction {place : Place} {label : Option Label} {first : Token}
    {arguments : List Token} {statement : Statement}
    (named : ∀ mark, label = some mark → Text.isName mark.name = true)
    (counts : ∀ token ∈ first :: arguments, token.Counts)
    (made : makeInstruction place label first arguments = .ok statement) :
    statement.Legible := by
  obtain ⟨unlabelled, word, rfl⟩ := makeInstruction_eq_ok_iff.mp made
  obtain ⟨⟨-, spelling⟩, others⟩ := List.forall_mem_cons.mp counts
  refine ⟨named, ?_⟩
  rintro _ ⟨⟩
  refine ⟨Token.spelling_upper (word ▸ spelling), ?_, fun c => Text.isLower_of_mem_upper, ?_⟩
  · intro name some same
    obtain ⟨other, more, spelled⟩ := Text.exists_of_upper_eq some same
    exact (Token.isLabel_eq_false_iff word).mp unlabelled other more spelled
  · intro argument member
    obtain ⟨token, known, rfl⟩ := List.mem_map.mp member
    exact ⟨token.kind, others token known⟩

/-- All that was read so far is legible, also the label that waits. -/
structure Legible (reader : Reader) : Prop where
  statements : ∀ statement ∈ reader.statements, statement.Legible
  pending : ∀ label, reader.pending = some label → Text.isName label.name = true

namespace Legible

variable {reader : Reader}

theorem add (legible : reader.Legible) {statement : Statement} (added : statement.Legible)
    {pending : Option Label}
    (named : ∀ label, pending = some label → Text.isName label.name = true) :
    Legible { reader.add statement with pending } where
  statements := by
    intro other member
    obtain earlier | rfl := Array.mem_push.mp member
    · exact legible.statements other earlier
    · exact added
  pending := named

theorem advance (legible : reader.Legible) : reader.advance.Legible :=
  ⟨legible.statements, legible.pending⟩

theorem blame (legible : reader.Legible) (fault : LineFault) : (reader.blame fault).Legible :=
  ⟨legible.statements, legible.pending⟩

theorem readLabel (legible : reader.Legible) (token : Token) (name : String) :
    (reader.readLabel token name).Legible := by
  unfold Reader.readLabel
  cases made : makeLabel reader.place token name with
  | error fault => exact legible.blame fault
  | ok label =>
      have waits : ∀ other, some label = some other → Text.isName other.name = true := by
        rintro _ ⟨⟩
        obtain ⟨named, rfl⟩ := makeLabel_eq_ok_iff.mp made
        exact named
      cases pending : reader.pending with
      | none => exact ⟨legible.statements, waits⟩
      | some earlier =>
          exact legible.add (.label (legible.pending earlier pending)) waits

theorem readInstruction (legible : reader.Legible) {result : Except LineFault Statement}
    (made : ∀ statement, result = .ok statement → statement.Legible) :
    (reader.readInstruction result).Legible := by
  cases result with
  | error fault => exact ⟨legible.statements, fun label waits => nomatch waits⟩
  | ok statement => exact legible.add (made statement rfl) fun label waits => nomatch waits

/-- Reading a line keeps what was read legible. -/
theorem readForm (legible : reader.Legible) {form : LineForm} (spelled : form.Spelled) :
    (reader.readForm form).Legible := by
  cases form with
  | unreadable tokens => exact ⟨legible.statements, legible.pending⟩
  | blank => exact ⟨legible.statements, legible.pending⟩
  | marker arguments =>
      simp only [Reader.readForm]
      cases markedPlace reader.place arguments with
      | ok place => exact ⟨legible.statements, legible.pending⟩
      | error fault => exact (legible.blame fault).advance
  | label token name => exact (legible.readLabel token name).advance
  | instruction own first arguments =>
      cases own with
      | none =>
          apply Legible.advance
          apply legible.readInstruction
          intro statement made
          exact legible_of_makeInstruction legible.pending spelled made
      | some own =>
          apply Legible.advance
          apply legible.readInstruction
          intro statement made
          obtain ⟨-, named, made⟩ := makeLabelled_eq_ok_iff.mp made
          refine legible_of_makeInstruction ?_ spelled made
          rintro _ ⟨⟩
          exact named

theorem foldl_readLine (legible : reader.Legible) {texts : List String}
    (unbroken : ∀ text ∈ texts, '\n' ∉ text.toList) :
    (texts.foldl Reader.readLine reader).Legible := by
  induction texts generalizing reader with
  | nil => exact legible
  | cons text rest ih =>
      obtain ⟨first, others⟩ := List.forall_mem_cons.mp unbroken
      rw [List.foldl_cons, readLine_eq_readForm]
      exact ih (legible.readForm (LineForm.spelled_ofText first)) others

/-- The label that still waits is legible as a statement of its own. -/
theorem finish (legible : reader.Legible) {statements : List Statement}
    (finished : reader.finish = .ok statements) : ∀ statement ∈ statements, statement.Legible := by
  rw [Reader.finish] at finished
  split at finished
  · rw [← Except.ok.inj finished]
    intro statement member
    rw [Array.mem_toList_iff] at member
    cases waits : reader.pending with
    | none =>
        rw [waits] at member
        exact legible.statements statement member
    | some label =>
        rw [waits] at member
        obtain earlier | rfl := Array.mem_push.mp member
        · exact legible.statements statement earlier
        · exact .label (legible.pending label waits)
  · exact absurd finished (by simp)

end Legible

end Reader

/-- The statements of a source are legible. -/
theorem legible_of_parse {file : Path} {source : String} {statements : List Statement}
    (parsed : parse file source = .ok statements) :
    ∀ statement ∈ statements, statement.Legible := by
  have started : (Reader.start file).Legible :=
    ⟨fun statement none => absurd none (by simp [Reader.start]), fun label none => nomatch none⟩
  have read : ((Text.lines source).foldl Reader.readLine (Reader.start file)).Legible :=
    started.foldl_readLine fun text => Text.newline_not_mem_of_mem_lines
  exact read.finish parsed

end ChipAsm
