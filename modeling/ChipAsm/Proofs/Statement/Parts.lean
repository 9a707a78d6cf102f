/-
# Labels and instructions of a source

A label may wait for an instruction on a later line, so statements and lines do not
correspond one to one. What corresponds is the sequence of labels and instructions, taken
apart: a statement or a line carries a label, an instruction, both in this order, or
neither. The sequence of the statements is the sequence of the lines, because a waiting label
is always the last of what was read.
-/

import ChipAsm.Proofs.Statement.Reading
import Mathlib.Data.List.Basic

namespace ChipAsm

/-- A label or an instruction, wherever it stands. -/
inductive Part
  | label (label : Label)
  | instruction (body : Instruction)

namespace Part

/-- The label, if it is one. -/
def label? : Part → Option Label
  | .label mark => some mark
  | .instruction _ => none

/-- The instruction, if it is one. -/
def instruction? : Part → Option Instruction
  | .label _ => none
  | .instruction body => some body

/-- What carries a label, an instruction, or both. -/
def ofPair (label : Option Label) (body : Option Instruction) : List Part :=
  label.toList.map .label ++ body.toList.map .instruction

section Sequences

variable {α : Type} (label : α → Option Label) (body : α → Option Instruction)

theorem filterMap_label?_ofPair (label : Option Label) (body : Option Instruction) :
    (ofPair label body).filterMap label? = label.toList := by
  cases label <;> cases body <;> rfl

theorem filterMap_instruction?_ofPair (label : Option Label) (body : Option Instruction) :
    (ofPair label body).filterMap instruction? = body.toList := by
  cases label <;> cases body <;> rfl

/-- The labels of a sequence taken apart are those of its items. -/
theorem filterMap_label?_flatMap (items : List α) :
    (items.flatMap fun item => ofPair (label item) (body item)).filterMap label? =
      items.filterMap label := by
  rw [List.filterMap_flatMap, List.filterMap_eq_flatMap_toList]
  simp only [filterMap_label?_ofPair]

/-- The instructions of a sequence taken apart are those of its items. -/
theorem filterMap_instruction?_flatMap (items : List α) :
    (items.flatMap fun item => ofPair (label item) (body item)).filterMap instruction? =
      items.filterMap body := by
  rw [List.filterMap_flatMap, List.filterMap_eq_flatMap_toList]
  simp only [filterMap_instruction?_ofPair]

end Sequences

end Part

/-- A label and an instruction of a statement. -/
def Statement.parts (statement : Statement) : List Part :=
  Part.ofPair statement.mark? statement.body?

/-- A line of a source with the place at which it is read. -/
structure PlacedLine where
  place : Place
  form : LineForm
  deriving DecidableEq, Repr

namespace PlacedLine

/-- The lines with these texts, of which the first stands at `place`. -/
def ofTexts (place : Place) : List String → List PlacedLine
  | [] => []
  | text :: rest =>
      { place, form := .ofText text } :: ofTexts ((LineForm.ofText text).next place) rest

/-- The lines of a source. -/
def ofSource (file : Path) (source : String) : List PlacedLine :=
  ofTexts { file, line := 1 } (Text.lines source)

/-- The label on a line: one that stands alone, or one in front of an instruction. -/
def label? (line : PlacedLine) : Option Label :=
  match line.form with
  | .label _ name => some { name, place := line.place }
  | .instruction (some (_, name)) _ _ => some { name, place := line.place }
  | _ => none

/-- The instruction on a line. -/
def instruction? (line : PlacedLine) : Option Instruction :=
  match line.form with
  | .instruction _ first arguments =>
      some { mnemonic := Text.upper first.source, arguments := arguments.map (·.source),
             place := line.place }
  | _ => none

/-- The label and the instruction of a line. -/
def parts (line : PlacedLine) : List Part :=
  Part.ofPair line.label? line.instruction?

end PlacedLine

namespace Reader

/-- The labels and instructions read so far, with the label that waits. -/
def parts (reader : Reader) : List Part :=
  reader.statements.toList.flatMap Statement.parts ++ reader.pending.toList.map .label

@[simp]
theorem faults_advance (reader : Reader) : reader.advance.faults = reader.faults := rfl

theorem faults_blame_ne_empty (reader : Reader) (fault : LineFault) :
    (reader.blame fault).faults ≠ #[] :=
  Array.push_ne_empty

/-- If reading a line leaves no fault, there was none before. -/
theorem faults_eq_empty_of_readForm {reader : Reader} {form : LineForm}
    (clean : (reader.readForm form).faults = #[]) : reader.faults = #[] := by
  obtain ⟨added, grown, -⟩ := (reader.adds_readForm form).faults
  rw [clean] at grown
  exact Array.toList_eq_nil_iff.mp (List.append_eq_nil_iff.mp grown.symm).1

/-- A label line that is in order adds its label. -/
theorem parts_readLabel {reader : Reader} {token : Token} {name : String}
    (clean : (reader.readLabel token name).faults = #[]) :
    (reader.readLabel token name).parts =
      reader.parts ++ [.label { name, place := reader.place }] := by
  unfold readLabel at clean ⊢
  cases made : makeLabel reader.place token name with
  | error fault =>
      rw [made] at clean
      exact absurd clean (reader.faults_blame_ne_empty fault)
  | ok label =>
      rw [eq_of_makeLabel made]
      cases waits : reader.pending with
      | some earlier =>
          simp [parts, waits, add, Statement.parts, Part.ofPair, Statement.mark?, Statement.body?]
      | none => simp [parts, waits]

/-- An instruction line that is in order adds its own label or takes the one that waits, and
adds its instruction. -/
theorem parts_readInstruction {reader : Reader} {result : Except LineFault Statement}
    {own : Option Label} {body : Instruction}
    (made : ∀ statement, result = .ok statement →
      (own = none ∨ reader.pending = none) ∧
        statement = .instruction (reader.pending.or own) body)
    (clean : (reader.readInstruction result).faults = #[]) :
    (reader.readInstruction result).parts = reader.parts ++ Part.ofPair own (some body) := by
  cases result with
  | error fault => exact absurd clean (faults_blame_ne_empty _ fault)
  | ok statement =>
      obtain ⟨single, rfl⟩ := made statement rfl
      cases single with
      | inl unlabelled =>
          simp [readInstruction, parts, add, unlabelled, Statement.parts, Part.ofPair,
            Statement.mark?, Statement.body?]
      | inr free =>
          simp [readInstruction, parts, add, free, Statement.parts, Part.ofPair,
            Statement.mark?, Statement.body?]

/-- A line that is in order adds its label and its instruction to what was read. -/
theorem parts_readForm {reader : Reader} {form : LineForm}
    (clean : (reader.readForm form).faults = #[]) :
    (reader.readForm form).parts =
      reader.parts ++ PlacedLine.parts { place := reader.place, form } := by
  cases form with
  | unreadable tokens => exact (List.append_nil _).symm
  | blank => exact (List.append_nil _).symm
  | marker arguments =>
      have nothing : (reader.readForm (.marker arguments)).parts = reader.parts := by
        simp only [readForm]
        cases markedPlace reader.place arguments <;> rfl
      rw [nothing]
      exact (List.append_nil _).symm
  | label token name => exact parts_readLabel clean
  | instruction label first arguments =>
      cases label with
      | none =>
          refine parts_readInstruction ?_ clean
          intro statement made
          refine ⟨.inl rfl, (eq_of_makeInstruction made).trans ?_⟩
          rw [PlacedLine.label?, Option.or_none]
      | some own =>
          refine parts_readInstruction ?_ clean
          intro statement made
          obtain ⟨free, same⟩ := eq_of_makeLabelled made
          refine ⟨.inr free, same.trans ?_⟩
          rw [free, Option.none_or, PlacedLine.label?]

/-- A line with a string literal that is not closed leaves a fault. -/
theorem isReadable_of_readForm {reader : Reader} {text : String}
    (clean : (reader.readForm (.ofText text)).faults = #[]) :
    (LineForm.ofText text).isReadable := by
  cases unreadable : (Token.scan text).filter fun token => token.kind = .unreadable with
  | nil =>
      simp only [LineForm.ofText, unreadable]
      exact LineForm.isReadable_ofItems (LineForm.items text)
  | cons token rest => simp [LineForm.ofText, unreadable, readForm] at clean

/-- Lines that leave no fault were read without a fault from the beginning. -/
theorem faults_eq_empty_of_foldl {reader : Reader} {texts : List String}
    (clean : (texts.foldl readLine reader).faults = #[]) : reader.faults = #[] := by
  induction texts generalizing reader with
  | nil => exact clean
  | cons text rest ih =>
      have after := ih clean
      rw [readLine_eq_readForm] at after
      exact faults_eq_empty_of_readForm after

/-- Reading lines that are in order adds their labels and instructions. -/
theorem parts_foldl_readLine {reader : Reader} {texts : List String}
    (clean : (texts.foldl readLine reader).faults = #[]) :
    (texts.foldl readLine reader).parts =
      reader.parts ++ (PlacedLine.ofTexts reader.place texts).flatMap PlacedLine.parts := by
  induction texts generalizing reader with
  | nil => exact (List.append_nil _).symm
  | cons text rest ih =>
      rw [List.foldl_cons, readLine_eq_readForm] at clean ⊢
      rw [ih clean, parts_readForm (faults_eq_empty_of_foldl clean), place_readForm,
        List.append_assoc]
      rfl

/-- Lines that leave no fault are readable. -/
theorem isReadable_of_foldl {reader : Reader} {texts : List String}
    (clean : (texts.foldl readLine reader).faults = #[]) :
    ∀ line ∈ PlacedLine.ofTexts reader.place texts, line.form.isReadable := by
  induction texts generalizing reader with
  | nil => simp [PlacedLine.ofTexts]
  | cons text rest ih =>
      rw [List.foldl_cons, readLine_eq_readForm] at clean
      intro line member
      rw [PlacedLine.ofTexts, ← place_readForm] at member
      cases member with
      | head => exact isReadable_of_readForm (faults_eq_empty_of_foldl clean)
      | tail _ later => exact ih clean line later

/-- Finishing keeps what was read: the label that still waits becomes a statement. -/
theorem parts_of_finish {reader : Reader} {statements : List Statement}
    (finished : reader.finish = .ok statements) :
    reader.faults = #[] ∧ statements.flatMap Statement.parts = reader.parts := by
  by_cases clean : reader.faults.isEmpty
  · simp only [finish, if_pos clean, Except.ok.injEq] at finished
    refine ⟨Array.isEmpty_iff.mp clean, ?_⟩
    rw [← finished]
    cases waits : reader.pending with
    | none => simp [parts, waits]
    | some label =>
        simp [parts, waits, Statement.parts, Part.ofPair, Statement.mark?, Statement.body?]
  · simp only [finish, if_neg clean] at finished
    exact absurd finished (by simp)

end Reader

/-- The statements of a source carry the labels and instructions of its lines, in order and
none besides. -/
theorem parts_of_parse {file : Path} {source : String} {statements : List Statement}
    (parsed : parse file source = .ok statements) :
    statements.flatMap Statement.parts =
      (PlacedLine.ofSource file source).flatMap PlacedLine.parts := by
  obtain ⟨clean, same⟩ := Reader.parts_of_finish parsed
  rw [same, Reader.parts_foldl_readLine clean]
  rfl

/-- The labels of the statements of a source are the labels of its lines. -/
theorem marks_of_parse {file : Path} {source : String} {statements : List Statement}
    (parsed : parse file source = .ok statements) :
    statements.filterMap Statement.mark? =
      (PlacedLine.ofSource file source).filterMap PlacedLine.label? := by
  rw [← Part.filterMap_label?_flatMap Statement.mark? Statement.body?,
    ← Part.filterMap_label?_flatMap PlacedLine.label? PlacedLine.instruction?]
  exact congrArg (List.filterMap Part.label?) (parts_of_parse parsed)

/-- The instructions of the statements of a source are the instructions of its lines. -/
theorem bodies_of_parse {file : Path} {source : String} {statements : List Statement}
    (parsed : parse file source = .ok statements) :
    statements.filterMap Statement.body? =
      (PlacedLine.ofSource file source).filterMap PlacedLine.instruction? := by
  rw [← Part.filterMap_instruction?_flatMap Statement.mark? Statement.body?,
    ← Part.filterMap_instruction?_flatMap PlacedLine.label? PlacedLine.instruction?]
  exact congrArg (List.filterMap Part.instruction?) (parts_of_parse parsed)

/-- All lines of a source that is in order are readable. -/
theorem isReadable_of_parse {file : Path} {source : String} {statements : List Statement}
    (parsed : parse file source = .ok statements) :
    ∀ line ∈ PlacedLine.ofSource file source, line.form.isReadable :=
  Reader.isReadable_of_foldl (Reader.parts_of_finish parsed).1

/-- A statement with an instruction is that instruction, with what comes before it as its
label. -/
theorem Statement.eq_of_parts_eq {statement : Statement} {before after : List Part}
    {body : Instruction} (split : statement.parts = before ++ .instruction body :: after) :
    ∃ mark, statement = .instruction mark body ∧ before = mark.toList.map .label := by
  cases statement with
  | label mark => simp [parts, Part.ofPair, mark?, body?, List.cons_eq_append_iff] at split
  | instruction mark other =>
      cases mark with
      | none =>
          have alone : before = [] ∧ body = other ∧ after = [] := by
            simpa [parts, Part.ofPair, mark?, body?, List.cons_eq_append_iff] using split
          exact ⟨none, by rw [alone.2.1], alone.1⟩
      | some mark =>
          have labelled : before = [.label mark] ∧ body = other ∧ after = [] := by
            simpa [parts, Part.ofPair, mark?, body?, List.cons_eq_append_iff] using split
          exact ⟨some mark, by rw [labelled.2.1], labelled.1⟩

/-- An instruction of a sequence of statements belongs to one of them, together with the label
directly before it, if that is its own. -/
theorem Statement.exists_of_parts_eq {statements : List Statement} {before after : List Part}
    {body : Instruction}
    (split : statements.flatMap Statement.parts = before ++ .instruction body :: after) :
    ∃ earlier mark later, statements = earlier ++ .instruction mark body :: later ∧
      before = earlier.flatMap Statement.parts ++ mark.toList.map .label := by
  induction statements generalizing before with
  | nil => exact absurd split (by simp)
  | cons statement rest ih =>
      rw [List.flatMap_cons] at split
      -- The instruction lies behind the first statement, or belongs to it. The two overlap
      -- where `before` ends with the statement, and then it lies behind it as well.
      obtain ⟨more, rfl, remaining⟩ | ⟨more, own, remaining⟩ :=
        List.append_eq_append_iff.mp split
      · obtain ⟨earlier, mark, later, rfl, rfl⟩ := ih remaining
        refine ⟨statement :: earlier, mark, later, rfl, ?_⟩
        rw [List.flatMap_cons, List.append_assoc]
      · cases more with
        | nil =>
            obtain ⟨earlier, mark, later, rfl, none⟩ := @ih [] remaining.symm
            refine ⟨statement :: earlier, mark, later, rfl, ?_⟩
            rw [List.flatMap_cons, List.append_assoc, ← none, List.append_nil, own, List.append_nil]
        | cons part more =>
            obtain ⟨rfl, -⟩ := List.cons.inj remaining
            obtain ⟨mark, rfl, marked⟩ := Statement.eq_of_parts_eq own
            exact ⟨[], mark, rest, rfl, marked⟩

end ChipAsm
