/-
# What a line is read as

The tokens of a line, commas left out, say whether the line is blank, moves the place of the
lines after it, or carries a label, an instruction or both. Reading a line depends on its form
and on nothing else of it.

Everything that a line adds to what was read before is placed at that line: its instruction,
its label and its faults. A statement may also carry the label that was waiting, which keeps
the place of its own line.
-/

import ChipAsm.Proofs.Except
import ChipAsm.Statement.Parse

namespace ChipAsm

/-- What a line is, by its tokens without the commas. -/
inductive LineForm
  /-- A line with string literals that are not closed. -/
  | unreadable (tokens : List Token)
  | blank
  /-- A marker of a place, with its arguments. -/
  | marker (arguments : List Token)
  /-- A label alone. -/
  | label (token : Token) (name : String)
  /-- A line that has to be an instruction: perhaps a label, then the token that has to be a
  mnemonic, then its arguments. -/
  | instruction (label : Option (Token × String)) (first : Token) (arguments : List Token)
  deriving DecidableEq, Repr

namespace LineForm

/-- The tokens of a line that count. -/
def items (text : String) : List Token :=
  (Token.scan text).filter fun token => token.kind ≠ .comma

/-- The form of a line with the given tokens. -/
def ofItems : List Token → LineForm
  | [] => .blank
  | first :: rest =>
      if first.source = "#line" then .marker rest
      else
        match first.labelName?, rest with
        | some name, [] => .label first name
        | some name, mnemonic :: arguments => .instruction (some (first, name)) mnemonic arguments
        | none, arguments => .instruction none first arguments

/-- The form of a line. -/
def ofText (text : String) : LineForm :=
  match (Token.scan text).filter fun token => token.kind = .unreadable with
  | [] => ofItems (items text)
  | tokens => .unreadable tokens

/-- Whether all string literals of the line are closed. -/
def isReadable : LineForm → Bool
  | .unreadable _ => false
  | _ => true

theorem isReadable_ofItems (items : List Token) : (ofItems items).isReadable := by
  fun_cases ofItems items <;> rfl

/-- The place of the line after a line of this form. -/
def next (place : Place) : LineForm → Place
  | .marker arguments =>
      match Reader.markedPlace place arguments with
      | .ok marked => marked
      | .error _ => { place with line := place.line + 1 }
  | _ => { place with line := place.line + 1 }

end LineForm

namespace Statement

/-- The label that a statement carries. -/
def mark? : Statement → Option Label
  | .instruction mark _ => mark
  | .label mark => some mark

/-- The instruction of a statement. -/
def body? : Statement → Option Instruction
  | .instruction _ body => some body
  | .label _ => none

/-- The statement comes from a line at `place` before which the label `pending` was waiting. -/
structure ReadAt (place : Place) (pending : Option Label) (statement : Statement) : Prop where
  body : ∀ body, statement.body? = some body → body.place = place
  mark : ∀ mark, statement.mark? = some mark → mark.place = place ∨ pending = some mark

end Statement

namespace Reader

/-- Reads a line of the given form. -/
def readForm (reader : Reader) : LineForm → Reader
  | .unreadable tokens =>
      { reader with
        faults := reader.faults ++ (tokens.map fun (token : Token) =>
          reader.place.diagnostic (.line (.unterminatedString token.column))).toArray }.advance
  | .blank => reader.advance
  | .marker arguments =>
      match markedPlace reader.place arguments with
      | .ok place => { reader with place }
      | .error fault => (reader.blame fault).advance
  | .label token name => (reader.readLabel token name).advance
  | .instruction none first arguments =>
      (reader.readInstruction
        (makeInstruction reader.place reader.pending first arguments)).advance
  | .instruction (some (token, name)) first arguments =>
      (reader.readInstruction
        (makeLabelled reader.place reader.pending token name first arguments)).advance

theorem readItems_eq_readForm (reader : Reader) (items : List Token) :
    reader.readItems items = reader.readForm (LineForm.ofItems items) := by
  cases items with
  | nil => rfl
  | cons first rest =>
      by_cases moves : first.source = "#line"
      · simp only [readItems, LineForm.ofItems, if_pos moves]
        rfl
      · cases named : first.labelName? with
        | none => simp only [readItems, LineForm.ofItems, if_neg moves, named, readForm]
        | some name =>
            cases rest with
            | nil => simp only [readItems, LineForm.ofItems, if_neg moves, named, readForm]
            | cons mnemonic arguments =>
                simp only [readItems, LineForm.ofItems, if_neg moves, named, readForm]

/-- Reading a line depends on its form only. -/
theorem readLine_eq_readForm (reader : Reader) (text : String) :
    reader.readLine text = reader.readForm (LineForm.ofText text) := by
  cases unreadable : (Token.scan text).filter fun token => token.kind = .unreadable with
  | nil =>
      simp only [readLine, Token.read, LineForm.ofText, unreadable]
      exact reader.readItems_eq_readForm (LineForm.items text)
  | cons token rest =>
      simp only [readLine, Token.read, LineForm.ofText, unreadable]
      rfl

/-! ## Where the next line stands -/

@[simp]
theorem place_advance (reader : Reader) :
    reader.advance.place = { reader.place with line := reader.place.line + 1 } := rfl

@[simp]
theorem place_blame (reader : Reader) (fault : LineFault) :
    (reader.blame fault).place = reader.place := rfl

@[simp]
theorem place_readLabel (reader : Reader) (token : Token) (name : String) :
    (reader.readLabel token name).place = reader.place := by
  unfold readLabel
  cases makeLabel reader.place token name with
  | error fault => rfl
  | ok label => cases reader.pending <;> rfl

@[simp]
theorem place_readInstruction (reader : Reader) (result : Except LineFault Statement) :
    (reader.readInstruction result).place = reader.place := by
  cases result <;> rfl

/-- The place of the next line depends on the form of this one, not on whether the line is in
order. -/
theorem place_readForm (reader : Reader) (form : LineForm) :
    (reader.readForm form).place = form.next reader.place := by
  cases form with
  | unreadable tokens => rfl
  | blank => rfl
  | marker arguments =>
      simp only [readForm, LineForm.next]
      cases markedPlace reader.place arguments <;> rfl
  | label token name => simp [readForm, LineForm.next]
  | instruction label first arguments =>
      cases label <;> simp [readForm, LineForm.next]

/-! ## What a line adds -/

/-- What reading a line at `place` may do: add statements and faults of that line, and let a
label of that line wait or use up the one that did. -/
structure Adds (place : Place) (earlier later : Reader) : Prop where
  statements : ∃ added : List Statement,
    later.statements.toList = earlier.statements.toList ++ added ∧
      ∀ statement ∈ added, statement.ReadAt place earlier.pending
  faults : ∃ added : List Diagnostic,
    later.faults.toList = earlier.faults.toList ++ added ∧
      ∀ diagnostic ∈ added, diagnostic.file = place.file ∧ diagnostic.line = some place.line
  pending : ∀ label, later.pending = some label →
    label.place = place ∨ earlier.pending = some label

namespace Adds

variable {place : Place} {earlier later : Reader}

/-- A line that adds nothing. -/
theorem nothing (statements : later.statements = earlier.statements)
    (faults : later.faults = earlier.faults) (pending : later.pending = earlier.pending) :
    Adds place earlier later where
  statements := ⟨[], by rw [statements, List.append_nil], by simp⟩
  faults := ⟨[], by rw [faults, List.append_nil], by simp⟩
  pending := fun label waits => .inr (pending ▸ waits)

/-- A line that is blamed, whether or not the waiting label is used up. -/
theorem blame {reader : Reader} {pending : Option Label}
    (kept : pending = none ∨ pending = reader.pending) (fault : LineFault) :
    Adds reader.place reader ({ reader with pending }.blame fault) where
  statements := ⟨[], (List.append_nil _).symm, by simp⟩
  faults := by
    refine ⟨[reader.place.diagnostic (.line fault)], Array.toList_push, ?_⟩
    intro diagnostic added
    rw [List.mem_singleton] at added
    rw [added]
    exact ⟨rfl, rfl⟩
  pending := by
    intro label waits
    cases kept with
    | inl used => exact absurd (used.symm.trans waits) (Option.some_ne_none label).symm
    | inr same => exact .inr (same.symm.trans waits)

/-- A line that adds one statement. -/
theorem statement {reader : Reader} {pending : Option Label} {added : Statement}
    (read : added.ReadAt reader.place reader.pending)
    (placed : ∀ label, pending = some label → label.place = reader.place) :
    Adds reader.place reader { reader.add added with pending } where
  statements := by
    refine ⟨[added], Array.toList_push, ?_⟩
    intro statement member
    rw [List.mem_singleton] at member
    rw [member]
    exact read
  faults := ⟨[], (List.append_nil _).symm, by simp⟩
  pending := fun label waits => .inl (placed label waits)

/-- A line whose label begins to wait. -/
theorem waiting {reader : Reader} {label : Label} (placed : label.place = reader.place) :
    Adds reader.place reader { reader with pending := some label } where
  statements := ⟨[], (List.append_nil _).symm, by simp⟩
  faults := ⟨[], (List.append_nil _).symm, by simp⟩
  pending := by
    intro other same
    rw [← Option.some.inj same]
    exact .inl placed

/-- Going on to the next line adds nothing more. -/
theorem advance (adds : Adds place earlier later) : Adds place earlier later.advance :=
  ⟨adds.statements, adds.faults, adds.pending⟩

end Adds

section Made

variable {place : Place} {pending label : Option Label} {token first : Token} {name : String}
  {arguments : List Token} {statement : Statement}

/-- A label has to be a name. -/
theorem makeLabel_eq_ok_iff {made : Label} :
    makeLabel place token name = .ok made ↔ Text.isName name = true ∧ made = { name, place } := by
  rw [makeLabel]
  split
  · next named => simp [named, eq_comm (a := made)]
  · next foreign => simp [foreign]

/-- An instruction begins with a word that is no label. -/
theorem makeInstruction_eq_ok_iff :
    makeInstruction place label first arguments = .ok statement ↔
      first.isLabel = false ∧ first.kind = .word ∧
        statement = .instruction label
          { mnemonic := Text.upper first.source, arguments := arguments.map (·.source), place } := by
  rw [makeInstruction]
  split
  · next named => simp [named]
  · next plain =>
      split
      · next word => simp [plain, word, eq_comm (a := statement)]
      · next other => simp [other]

/-- No label waits for an instruction that has one of its own. -/
theorem makeLabelled_eq_ok_iff :
    makeLabelled place pending token name first arguments = .ok statement ↔
      pending = none ∧ Text.isName name = true ∧
        makeInstruction place (some { name, place }) first arguments = .ok statement := by
  cases pending with
  | some waiting => simp [makeLabelled]
  | none =>
      rw [makeLabelled, bind_eq_ok_iff]
      simp only [makeLabel_eq_ok_iff, true_and, and_assoc, exists_and_left, exists_eq_left]

/-- A label stands where it is written. -/
theorem eq_of_makeLabel {made : Label} (ok : makeLabel place token name = .ok made) :
    made = { name, place } :=
  (makeLabel_eq_ok_iff.mp ok).2

/-- An instruction has the label it is given and stands where it is written. -/
theorem eq_of_makeInstruction (ok : makeInstruction place label first arguments = .ok statement) :
    statement = .instruction label
      { mnemonic := Text.upper first.source, arguments := arguments.map (·.source), place } :=
  (makeInstruction_eq_ok_iff.mp ok).2.2

/-- An instruction with a label of its own has that label, and no other was waiting. -/
theorem eq_of_makeLabelled
    (ok : makeLabelled place pending token name first arguments = .ok statement) :
    pending = none ∧ statement = .instruction (some { name, place })
      { mnemonic := Text.upper first.source, arguments := arguments.map (·.source), place } := by
  obtain ⟨free, -, made⟩ := makeLabelled_eq_ok_iff.mp ok
  exact ⟨free, eq_of_makeInstruction made⟩

end Made

theorem adds_readLabel (reader : Reader) (token : Token) (name : String) :
    Adds reader.place reader (reader.readLabel token name) := by
  unfold readLabel
  cases made : makeLabel reader.place token name with
  | error fault => exact .blame (.inr rfl) fault
  | ok label =>
      have placed : label.place = reader.place := by rw [eq_of_makeLabel made]
      cases waits : reader.pending with
      | some earlier =>
          apply Adds.statement
          · refine ⟨fun body none => absurd none (by simp [Statement.body?]), ?_⟩
            intro mark marked
            exact .inr (waits.trans marked)
          · intro other same
            rw [← Option.some.inj same, placed]
      | none => exact .waiting placed

theorem adds_readInstruction {reader : Reader} {result : Except LineFault Statement}
    (read : ∀ statement, result = .ok statement →
      statement.ReadAt reader.place reader.pending) :
    Adds reader.place reader (reader.readInstruction result) := by
  cases result with
  | error fault => exact .blame (.inl rfl) fault
  | ok statement =>
      exact Adds.statement (read statement rfl)
        (fun label waits => absurd waits (Option.some_ne_none label).symm)

/-- What reading a line adds stands at the place of the line. -/
theorem adds_readForm (reader : Reader) (form : LineForm) :
    Adds reader.place reader (reader.readForm form) := by
  cases form with
  | unreadable tokens =>
      refine ⟨⟨[], (List.append_nil _).symm, by simp⟩, ⟨_, Array.toList_append, ?_⟩, fun _ => .inr⟩
      intro diagnostic added
      rw [List.toList_toArray, List.mem_map] at added
      obtain ⟨token, -, rfl⟩ := added
      exact ⟨rfl, rfl⟩
  | blank => exact .nothing rfl rfl rfl
  | marker arguments =>
      simp only [readForm]
      cases markedPlace reader.place arguments with
      | ok place => exact .nothing rfl rfl rfl
      | error fault => exact (Adds.blame (.inr rfl) fault).advance
  | label token name => exact (reader.adds_readLabel token name).advance
  | instruction label first arguments =>
      cases label with
      | none =>
          apply Adds.advance
          apply adds_readInstruction
          intro statement made
          rw [eq_of_makeInstruction made]
          refine ⟨?_, fun mark marked => .inr marked⟩
          intro body same
          rw [← Option.some.inj same]
      | some own =>
          apply Adds.advance
          apply adds_readInstruction
          intro statement made
          rw [(eq_of_makeLabelled made).2]
          constructor
          · intro body same
            rw [← Option.some.inj same]
          · intro mark same
            exact .inl (by rw [← Option.some.inj same])

end Reader

end ChipAsm
