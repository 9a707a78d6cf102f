/-
# Shapes of arguments

There are infinitely many arguments, but only so many sets of operands that accept the same
argument. A shape stands for one such set. Most shapes are accepted by one kind of operand
or by none; the exceptions are the spellings that can be read in two ways, since the name of
a register is also the name of a label and a byte is also an address.

Every argument has a shape (`Shape.exists_fits`), so what operands have in common can be
decided by going through the shapes, without another look at spellings. Nothing here says
what an argument stands for.
-/

import ChipAsm.Proofs.Operand.Spelling
import ChipAsm.Proofs.Text.Name

namespace ChipAsm

namespace Argument

variable {bank : Bank} {argument : String} {digit : Fin 16}

/-- A register is its bank and a digit. -/
theorem registerDigit?_eq_some_iff :
    registerDigit? bank argument = some digit ↔
      ∃ c, argument = String.ofList [bank.char, c] ∧ Text.hexDigit? c = some digit := by
  unfold registerDigit?
  constructor
  · intro read
    split at read
    · next initial c spelled =>
        split at read
        · next same =>
            refine ⟨c, ?_, read⟩
            rw [← same, ← spelled, String.ofList_toList]
        · cases read
    · cases read
  · rintro ⟨c, rfl, read⟩
    simp [read]

/-- The name of a register is a name. -/
theorem isName_of_registerDigit? (read : registerDigit? bank argument = some digit) :
    Text.isName argument = true := by
  obtain ⟨c, rfl, known⟩ := registerDigit?_eq_some_iff.mp read
  have first : Text.isNameChar bank.char = true := by cases bank <;> decide
  have letter : bank.char.isDigit = false := by cases bank <;> decide
  simp [Text.isName, Text.isNameText, letter, first, Text.isNameChar_of_hexDigit? known]

theorem isName_of_selectedDigit? (read : selectedDigit? bank argument = some digit) :
    Text.isName argument = false := by
  unfold selectedDigit? at read
  split at read
  · next spelled => exact Text.isName_eq_false (c := '(') (by simp [spelled]) (by decide)
  · cases read

theorem eq_enclosed_of_bracketedText? {text inner : List Char}
    (enclosed : bracketedText? text = some inner) : text = '[' :: (inner ++ [']']) := by
  unfold bracketedText? at enclosed
  split at enclosed
  · next rest =>
      split at enclosed
      · next closed =>
          obtain ⟨front, rfl⟩ := List.getLast?_eq_some_iff.mp closed.1
          rw [← Option.some.inj enclosed, List.dropLast_concat]
      · cases enclosed
  · cases enclosed

/-- What is added to an index is nothing exactly if nothing is written. -/
theorem added?_eq_some {rest : List Char} {addend : Option (Fin 16)} {offset : Option (List Char)}
    (read : added? rest = some (addend, offset)) :
    (rest = [] ∧ addend = none ∧ offset = none) ∨
      ('+' ∈ rest ∧ (addend.isSome ∨ offset.isSome)) := by
  unfold added? at read
  split at read
  · cases read
    exact .inl ⟨rfl, rfl, rfl⟩
  · refine .inr ⟨List.mem_cons_self .., ?_⟩
    split at read
    · cases read
    · cases read
      exact .inl rfl
    · split at read
      · cases read
      · cases read
        exact .inr rfl
  · cases read

/-- An indexed argument is an index register in brackets with what is added to it. -/
theorem indexed?_eq_some_iff {parts : Indexed} :
    indexed? argument = some parts ↔
      ∃ c rest offset, argument = String.ofList ('[' :: 'I' :: c :: (rest ++ [']'])) ∧
        Text.hexDigit? c = some parts.index ∧ added? rest = some (parts.addend, offset) ∧
        parts.offset = offset.map String.ofList := by
  constructor
  · intro read
    unfold indexed? at read
    split at read
    · next c rest enclosed =>
        split at read
        · next index addend offset known added =>
            cases read
            refine ⟨c, rest, offset, ?_, known, added, rfl⟩
            have spelled := eq_enclosed_of_bracketedText? enclosed
            rw [List.cons_append, List.cons_append] at spelled
            rw [← spelled, String.ofList_toList]
        · cases read
    · cases read
  · rintro ⟨c, rest, offset, rfl, known, added, written⟩
    have enclosed : bracketedText? ('[' :: 'I' :: c :: (rest ++ [']'])) =
        some ('I' :: c :: rest) := by
      rw [← List.cons_append, ← List.cons_append, bracketedText?_enclosed (List.cons_ne_nil _ _)]
    simp only [indexed?, String.toList_ofList, enclosed, known, added, ← written]

/-- An index alone is read from its digit. -/
theorem indexed?_index {c : Char} (known : Text.hexDigit? c = some digit) :
    indexed? (String.ofList ['[', 'I', c, ']']) = some ⟨digit, none, none⟩ :=
  indexed?_eq_some_iff.mpr ⟨c, [], none, rfl, known, rfl, rfl⟩

/-- An indexed argument also reads as the content of an address exactly if nothing is added to
its index. -/
theorem isAddress_of_indexed? {parts : Indexed} (read : indexed? argument = some parts) :
    (bracketed? argument).any isAddress = (parts.addend.isNone && parts.offset.isNone) := by
  obtain ⟨c, rest, offset, rfl, known, added, written⟩ := indexed?_eq_some_iff.mp read
  have text : bracketed? (String.ofList ('[' :: 'I' :: c :: (rest ++ [']']))) =
      some (String.ofList ('I' :: c :: rest)) := by
    rw [bracketed?, String.toList_ofList, ← List.cons_append, ← List.cons_append,
      bracketedText?_enclosed (List.cons_ne_nil _ _), Option.map_some]
  have noNumber : Text.number? (String.ofList ('I' :: c :: rest)) = none :=
    Text.number?_eq_none (c := 'I') (by rw [String.toList_ofList, List.head?_cons]) (by decide)
      (by decide)
  rw [text, Option.any_some, isAddress, Text.isNumber, noNumber, written]
  rcases added?_eq_some added with ⟨rfl, bare, rfl⟩ | ⟨plus, some⟩
  · simp [bare, Text.isName, Text.isNameText, Text.isNameChar_of_hexDigit? known,
      (by decide : Text.isNameChar 'I' = true)]
  · rw [Text.isName_eq_false (c := '+') (by simp [plus]) (by decide)]
    rcases some with more | more
    · simp [Option.isNone_eq_false_iff.mpr more]
    · simp [Option.isNone_eq_false_iff.mpr more]

end Argument

/-! ## Shapes -/

/-- A set of operands that accept the same arguments. -/
inductive Shape
  /-- A number that is small enough for an immediate. -/
  | byte
  /-- A register, such as `N3`. -/
  | register (bank : Bank)
  | stackPointer
  | soundTimer
  | delayTimer
  /-- Any other number or name. -/
  | reference
  /-- A selected register, such as `B(N3)`. -/
  | selected (bank : Bank)
  /-- An index alone, such as `[I3]`. -/
  | index
  /-- An index and an offset, such as `[I3+1]`. -/
  | indexOffset
  /-- An index and a register, with or without an offset, such as `[I3+B1]`. -/
  | indexSum
  /-- Any other number or name in brackets. -/
  | enclosed
  /-- Whatever suits no operand. -/
  | foreign
  deriving DecidableEq, Repr

namespace Shape

/-- The kinds of operands that accept arguments of the shape. -/
def kinds : Shape → List OperandKind
  | byte => [.immediate, .address]
  | register bank => [.register bank, .address]
  | stackPointer => [.stackPointer, .address]
  | soundTimer => [.soundTimer, .address]
  | delayTimer => [.delayTimer, .address]
  | reference => [.address]
  | selected bank => [.selected bank]
  | index => [.indexed, .indexedOffset, .indirectAddress]
  | indexOffset => [.indexedOffset]
  | indexSum => [.indexedSum]
  | enclosed => [.indirectAddress]
  | foreign => []

/-- All shapes. -/
def all : List Shape :=
  [byte, register .n, register .b, register .i, stackPointer, soundTimer, delayTimer, reference,
    selected .n, selected .b, selected .i, index, indexOffset, indexSum, enclosed, foreign]

theorem mem_all (shape : Shape) : shape ∈ all := by
  cases shape with
  | register bank => cases bank <;> decide
  | selected bank => cases bank <;> decide
  | _ => decide

/-- The argument has the shape: the operands that accept it are those of the shape. -/
def Fits (shape : Shape) (argument : String) : Prop :=
  ∀ kind : OperandKind, kind.accepts argument = true ↔ kind ∈ shape.kinds

end Shape

namespace OperandKind

variable {kind : OperandKind} {argument : String} {c : Char}

/-- No operand but immediates and addresses takes what could begin a numeral. -/
theorem not_numeral_of_lead? (lead : kind.lead? = some c) :
    c.isDigit = false ∧ c ≠ '-' ∧ c ≠ '+' := by
  cases kind with
  | immediate => cases lead
  | address => cases lead
  | register bank => cases bank <;> cases lead <;> decide
  | selected bank => cases bank <;> cases lead <;> decide
  | _ => cases lead; decide

/-- Numerals are taken for immediates and addresses only. -/
theorem mem_of_accepts_number {value : Int} (number : Text.number? argument = some value)
    (accepted : kind.accepts argument = true) : kind ∈ [immediate, address] := by
  cases lead : kind.lead? with
  | none => cases kind <;> simp_all [lead?]
  | some c =>
      obtain ⟨noDigit, noSign⟩ := not_numeral_of_lead? lead
      rw [Text.number?_eq_none (head?_of_accepts accepted lead) noDigit noSign] at number
      cases number

/-- A name is taken for an address or a register, except for the three names that an operand has
for its one spelling. -/
theorem eq_of_accepts_name (name : Text.isName argument = true)
    (noNumber : Text.number? argument = none) (usual : argument ∉ ["SP", "ST", "DT"])
    (accepted : kind.accepts argument = true) :
    kind = .address ∨ ∃ bank, kind = .register bank := by
  have unbracketed : kind.lead? ≠ some '[' := by
    intro lead
    have head := head?_of_accepts accepted lead
    rw [Text.isName_eq_false (List.mem_of_mem_head? head) (by decide)] at name
    cases name
  cases kind with
  | address => exact .inl rfl
  | register bank => exact .inr ⟨bank, rfl⟩
  | immediate => simp [accepts, noNumber] at accepted
  | selected bank =>
      obtain ⟨digit, read⟩ := Option.isSome_iff_exists.mp accepted
      rw [Argument.isName_of_selectedDigit? read] at name
      cases name
  | stackPointer => exact absurd (beq_iff_eq.mp accepted) (by simp_all)
  | soundTimer => exact absurd (beq_iff_eq.mp accepted) (by simp_all)
  | delayTimer => exact absurd (beq_iff_eq.mp accepted) (by simp_all)
  | _ => exact absurd rfl unbracketed

/-- What is neither a numeral nor a name is a selected register or stands in brackets. -/
theorem mem_of_accepts_enclosed (noNumber : Text.number? argument = none)
    (noName : Text.isName argument = false) (accepted : kind.accepts argument = true) :
    (∃ bank, kind = .selected bank) ∨
      kind ∈ [.indirectAddress, .indexed, .indexedOffset, .indexedSum] := by
  cases kind with
  | immediate => simp [accepts, noNumber] at accepted
  | address => simp [accepts, Argument.isAddress, Text.isNumber, noNumber, noName] at accepted
  | register bank =>
      obtain ⟨digit, read⟩ := Option.isSome_iff_exists.mp accepted
      rw [Argument.isName_of_registerDigit? read] at noName
      cases noName
  | stackPointer => rw [beq_iff_eq.mp accepted] at noName; exact absurd noName (by decide)
  | soundTimer => rw [beq_iff_eq.mp accepted] at noName; exact absurd noName (by decide)
  | delayTimer => rw [beq_iff_eq.mp accepted] at noName; exact absurd noName (by decide)
  | _ => simp

end OperandKind

namespace Shape

open OperandKind

variable {argument : String}

/-- If only some operands can accept an argument, it is enough to compare these with a shape. -/
theorem fits_of_among {shape : Shape} {among : List OperandKind}
    (only : ∀ kind : OperandKind, kind.accepts argument = true → kind ∈ among)
    (inside : ∀ kind ∈ shape.kinds, kind ∈ among)
    (agree : ∀ kind ∈ among, kind.accepts argument = true ↔ kind ∈ shape.kinds) :
    shape.Fits argument := by
  intro kind
  constructor
  · intro accepted
    exact (agree kind (only kind accepted)).mp accepted
  · intro member
    exact (agree kind (inside kind member)).mpr member

theorem exists_fits_of_number {value : Int} (number : Text.number? argument = some value) :
    ∃ shape : Shape, shape.Fits argument := by
  have only (kind : OperandKind) (accepted : kind.accepts argument = true) :=
    mem_of_accepts_number number accepted
  have address : Argument.isAddress argument = true := by
    simp [Argument.isAddress, Text.isNumber, number]
  by_cases bounds : Argument.immediateLow ≤ value ∧ value ≤ Argument.immediateHigh
  · exact ⟨byte, fits_of_among only (by decide) (by simp [kinds, accepts, number, bounds, address])⟩
  · refine ⟨reference, fits_of_among only (by decide) ?_⟩
    simpa [kinds, accepts, number, address] using bounds

/-- The three operands that have one spelling share it with labels only. -/
theorem fits_fixed :
    stackPointer.Fits "SP" ∧ soundTimer.Fits "ST" ∧ delayTimer.Fits "DT" := by
  refine ⟨fun kind => ?_, fun kind => ?_, fun kind => ?_⟩
  all_goals
    cases kind with
    | register bank => cases bank <;> decide
    | selected bank => cases bank <;> decide
    | _ => decide

theorem exists_fits_of_name (name : Text.isName argument = true)
    (noNumber : Text.number? argument = none) : ∃ shape : Shape, shape.Fits argument := by
  by_cases usual : argument ∈ ["SP", "ST", "DT"]
  · simp only [List.mem_cons, List.not_mem_nil, or_false] at usual
    rcases usual with rfl | rfl | rfl
    · exact ⟨_, fits_fixed.1⟩
    · exact ⟨_, fits_fixed.2.1⟩
    · exact ⟨_, fits_fixed.2.2⟩
  have address : OperandKind.address.accepts argument = true := by
    simp [accepts, Argument.isAddress, name]
  by_cases isRegister : ∃ bank, (OperandKind.register bank).accepts argument = true
  · obtain ⟨bank, read⟩ := isRegister
    refine ⟨register bank, fun kind => ⟨fun accepted => ?_, fun member => ?_⟩⟩
    · rcases eq_of_accepts_name name noNumber usual accepted with rfl | ⟨other, rfl⟩
      · simp [kinds]
      · have heads := (head?_of_accepts read rfl).symm.trans (head?_of_accepts accepted rfl)
        cases bank <;> cases other <;> simp_all [Bank.char, kinds]
    · simp only [kinds, List.mem_cons, List.not_mem_nil, or_false] at member
      rcases member with rfl | rfl
      · exact read
      · exact address
  · refine ⟨reference, fun kind => ⟨fun accepted => ?_, fun member => ?_⟩⟩
    · rcases eq_of_accepts_name name noNumber usual accepted with rfl | ⟨bank, rfl⟩
      · decide
      · exact absurd ⟨bank, accepted⟩ isRegister
    · rw [List.mem_singleton.mp member]
      exact address

theorem exists_fits_of_bracketed
    (only : ∀ kind : OperandKind, kind.accepts argument = true →
      kind ∈ [.indirectAddress, .indexed, .indexedOffset, .indexedSum]) :
    ∃ shape : Shape, shape.Fits argument := by
  cases read : Argument.indexed? argument with
  | none =>
      by_cases address : (Argument.bracketed? argument).any Argument.isAddress = true
      · exact ⟨enclosed, fits_of_among only (by decide) (by simp [kinds, accepts, read, address])⟩
      · exact ⟨foreign, fits_of_among only (by decide) (by simp [kinds, accepts, read, address])⟩
  | some parts =>
      have address := Argument.isAddress_of_indexed? read
      obtain ⟨digit, addend, offset⟩ := parts
      cases addend with
      | some value =>
          exact ⟨indexSum, fits_of_among only (by decide) (by simp [kinds, accepts, read, address])⟩
      | none =>
          cases offset with
          | some text =>
              exact ⟨indexOffset,
                fits_of_among only (by decide) (by simp [kinds, accepts, read, address])⟩
          | none =>
              exact ⟨index,
                fits_of_among only (by decide) (by simp [kinds, accepts, read, address])⟩

theorem fits_of_selected {bank : Bank} (noNumber : Text.number? argument = none)
    (noName : Text.isName argument = false)
    (read : (OperandKind.selected bank).accepts argument = true) :
    (selected bank).Fits argument := by
  intro kind
  constructor
  · intro accepted
    have heads {c : Char} (lead : kind.lead? = some c) : bank.char = c :=
      Option.some.inj ((head?_of_accepts read rfl).symm.trans (head?_of_accepts accepted lead))
    rcases mem_of_accepts_enclosed noNumber noName accepted with ⟨other, rfl⟩ | bracketed
    · have same := heads rfl
      cases bank <;> cases other <;> simp_all [Bank.char, kinds]
    · have leads : ∀ kind ∈ [indirectAddress, indexed, indexedOffset, indexedSum],
          kind.lead? = some '[' := by decide
      have same := heads (leads kind bracketed)
      cases bank <;> cases same
  · intro member
    rw [List.mem_singleton.mp member]
    exact read

/-- Every argument has a shape. -/
theorem exists_fits (argument : String) : ∃ shape : Shape, shape.Fits argument := by
  cases noNumber : Text.number? argument with
  | some value => exact exists_fits_of_number noNumber
  | none =>
      cases noName : Text.isName argument with
      | true => exact exists_fits_of_name noName noNumber
      | false =>
          by_cases isSelected : ∃ bank, (OperandKind.selected bank).accepts argument = true
          · obtain ⟨bank, read⟩ := isSelected
            exact ⟨_, fits_of_selected noNumber noName read⟩
          · refine exists_fits_of_bracketed fun kind accepted => ?_
            rcases mem_of_accepts_enclosed noNumber noName accepted with ⟨bank, rfl⟩ | bracketed
            · exact absurd ⟨bank, accepted⟩ isSelected
            · exact bracketed

/-- The shape of a register is its spelling. -/
theorem fits_register_iff {bank : Bank} :
    (register bank).Fits argument ↔
      ∃ c, (Text.hexDigit? c).isSome ∧ argument = String.ofList [bank.char, c] := by
  constructor
  · intro fits
    obtain ⟨digit, read⟩ :=
      Option.isSome_iff_exists.mp ((fits (.register bank)).mpr (by simp [kinds]))
    obtain ⟨c, spelled, known⟩ := Argument.registerDigit?_eq_some_iff.mp read
    exact ⟨c, Option.isSome_iff_exists.mpr ⟨digit, known⟩, spelled⟩
  · rintro ⟨c, hex, spelled⟩
    obtain ⟨digit, known⟩ := Option.isSome_iff_exists.mp hex
    have read := Argument.registerDigit?_eq_some_iff.mpr ⟨c, spelled, known⟩
    obtain ⟨shape, fits⟩ := exists_fits argument
    have member := (fits (.register bank)).mp (Option.isSome_iff_exists.mpr ⟨digit, read⟩)
    have same : shape = register bank := by cases shape <;> simp_all [kinds]
    exact same ▸ fits

/-- The shape of an index alone is its spelling. -/
theorem fits_index_iff :
    index.Fits argument ↔
      ∃ c, (Text.hexDigit? c).isSome ∧ argument = String.ofList ['[', 'I', c, ']'] := by
  constructor
  · intro fits
    have accepted := (fits .indexed).mpr (by decide)
    obtain ⟨parts, read, bare⟩ := (Option.any_eq_true _ _).mp accepted
    obtain ⟨c, rest, offset, spelled, known, added, written⟩ :=
      Argument.indexed?_eq_some_iff.mp read
    refine ⟨c, Option.isSome_iff_exists.mpr ⟨_, known⟩, ?_⟩
    rcases Argument.added?_eq_some added with ⟨rfl, -, -⟩ | ⟨-, some⟩
    · exact spelled
    · simp_all
  · rintro ⟨c, hex, rfl⟩
    obtain ⟨digit, known⟩ := Option.isSome_iff_exists.mp hex
    obtain ⟨shape, fits⟩ := exists_fits (String.ofList ['[', 'I', c, ']'])
    have member := (fits .indexed).mp (by rw [accepts, Argument.indexed?_index known]; rfl)
    have same : shape = index := by cases shape <;> simp_all [kinds]
    exact same ▸ fits

end Shape

end ChipAsm
