/-
# Spelling of arguments

What can be told from the spelling of an argument about the operands that accept it. All
operands but immediates and addresses fix the first character, so registers of different
banks are told apart, and a text that begins with a digit is taken for an immediate or an
address only.

An address can be spelled as a label or as a number. Where the number is accepted, so is the
label, unless it is taken for an immediate.
-/

import ChipAsm.Operand.Argument
import ChipAsm.Proofs.Text.Numeral

namespace ChipAsm

namespace Operand

/-- The argument that writes the text of an address, for an operand that takes one. -/
def spellAddress? : Operand → String → Option String
  | address, text => some text
  | indirectAddress, text => some ("[" ++ text ++ "]")
  | _, _ => none

end Operand

namespace Argument

theorem bracketedText?_enclosed {text : List Char} (nonempty : text ≠ []) :
    bracketedText? ('[' :: (text ++ [']'])) = some text := by
  simp [bracketedText?, nonempty]

theorem bracketed?_enclosed {text : String} (nonempty : text ≠ "") :
    bracketed? ("[" ++ text ++ "]") = some text := by
  have spelled : ("[" ++ text ++ "]").toList = '[' :: (text.toList ++ [']']) := by simp
  have inner : text.toList ≠ [] := by simpa using nonempty
  rw [bracketed?, spelled, bracketedText?_enclosed inner, Option.map_some, String.ofList_toList]

theorem ne_empty_of_isAddress {text : String} (address : isAddress text = true) : text ≠ "" := by
  rintro rfl
  exact absurd address (by decide)

theorem head?_of_bracketedText? {text inner : List Char}
    (enclosed : bracketedText? text = some inner) : text.head? = some '[' := by
  unfold bracketedText? at enclosed
  split at enclosed
  · rfl
  · cases enclosed

theorem head?_of_indexed? {argument : String} {parts : Indexed}
    (read : indexed? argument = some parts) : argument.toList.head? = some '[' := by
  unfold indexed? at read
  split at read
  · next enclosed => exact head?_of_bracketedText? enclosed
  · cases read

theorem head?_of_registerDigit? {bank : Bank} {argument : String} {digit : Fin 16}
    (read : registerDigit? bank argument = some digit) :
    argument.toList.head? = some bank.char := by
  unfold registerDigit? at read
  split at read
  · next initial _ spelled =>
      split at read
      · next same => rw [spelled, List.head?_cons, same]
      · cases read
  · cases read

theorem head?_of_selectedDigit? {bank : Bank} {argument : String} {digit : Fin 16}
    (read : selectedDigit? bank argument = some digit) :
    argument.toList.head? = some bank.char := by
  unfold selectedDigit? at read
  split at read
  · next initial _ spelled =>
      split at read
      · next same => rw [spelled, List.head?_cons, same]
      · cases read
  · cases read

end Argument

namespace OperandKind

/-- The character with which every accepted argument begins. Immediates and addresses can
begin with several. -/
def lead? : OperandKind → Option Char
  | immediate => none
  | address => none
  | indirectAddress => some '['
  | register bank => some bank.char
  | selected bank => some bank.char
  | stackPointer => some 'S'
  | indexed => some '['
  | indexedOffset => some '['
  | indexedSum => some '['
  | soundTimer => some 'S'
  | delayTimer => some 'D'

theorem head?_of_accepts {kind : OperandKind} {argument : String} {c : Char}
    (accepted : kind.accepts argument = true) (lead : kind.lead? = some c) :
    argument.toList.head? = some c := by
  rw [← lead]
  cases kind with
  | immediate => cases lead
  | address => cases lead
  | indirectAddress =>
      obtain ⟨inner, enclosed, -⟩ := (Option.any_eq_true _ _).mp accepted
      obtain ⟨text, enclosed, -⟩ := Option.map_eq_some_iff.mp enclosed
      exact Argument.head?_of_bracketedText? enclosed
  | register bank =>
      obtain ⟨digit, read⟩ := Option.isSome_iff_exists.mp accepted
      exact Argument.head?_of_registerDigit? read
  | selected bank =>
      obtain ⟨digit, read⟩ := Option.isSome_iff_exists.mp accepted
      exact Argument.head?_of_selectedDigit? read
  | stackPointer => rw [beq_iff_eq.mp accepted]; rfl
  | soundTimer => rw [beq_iff_eq.mp accepted]; rfl
  | delayTimer => rw [beq_iff_eq.mp accepted]; rfl
  | indexed =>
      obtain ⟨parts, read, -⟩ := (Option.any_eq_true _ _).mp accepted
      exact Argument.head?_of_indexed? read
  | indexedOffset =>
      obtain ⟨parts, read, -⟩ := (Option.any_eq_true _ _).mp accepted
      exact Argument.head?_of_indexed? read
  | indexedSum =>
      obtain ⟨parts, read, -⟩ := (Option.any_eq_true _ _).mp accepted
      exact Argument.head?_of_indexed? read

/-- No argument is accepted by both kinds. Registers of different banks are told apart. -/
def isApart : OperandKind → OperandKind → Bool
  | register first, register second => first != second
  | _, _ => false

theorem not_accepts_of_isApart {first second : OperandKind} (apart : first.isApart second = true)
    {argument : String} (accepted : first.accepts argument = true) :
    second.accepts argument = false := by
  unfold isApart at apart
  split at apart
  · next bank other =>
      rw [← Bool.not_eq_true]
      intro both
      have heads := (head?_of_accepts accepted rfl).symm.trans (head?_of_accepts both rfl)
      cases bank <;> cases other <;> simp_all [Bank.char]
  · cases apart

end OperandKind

/-- The spelling of a number begins with a digit. -/
theorem exists_digit_head? (n : Nat) :
    ∃ c, (toString n).toList.head? = some c ∧ c.isDigit = true := by
  have spelled : (toString n).toList = Nat.toDigits 10 n := Nat.toList_repr
  cases digits : Nat.toDigits 10 n with
  | nil => exact absurd digits Nat.toDigits_ne_nil
  | cons c rest =>
      refine ⟨c, by rw [spelled, digits, List.head?_cons], ?_⟩
      exact Text.isDigit_of_mem_toDigits (digits ▸ List.mem_cons_self ..)

namespace OperandKind

variable {kind : OperandKind} {text : String} {c : Char}

/-- What begins with a digit is taken for an immediate or an address only. -/
theorem eq_of_accepts_numeral (first : text.toList.head? = some c) (digit : c.isDigit = true)
    (accepted : kind.accepts text = true) : kind = .immediate ∨ kind = .address := by
  cases lead : kind.lead? with
  | none => cases kind <;> simp_all [lead?]
  | some initial =>
      have same : initial = c :=
        Option.some.inj ((head?_of_accepts accepted lead).symm.trans first)
      subst same
      have letter : initial.isDigit = false := by
        cases kind with
        | immediate => cases lead
        | address => cases lead
        | register bank => cases bank <;> cases lead <;> rfl
        | selected bank => cases bank <;> cases lead <;> rfl
        | _ => cases lead; rfl
      exact absurd digit (by simp [letter])

/-- What begins with a digit inside brackets is taken for an indirect address only. -/
theorem eq_of_accepts_bracketed_numeral (first : text.toList.head? = some c)
    (digit : c.isDigit = true) (accepted : kind.accepts ("[" ++ text ++ "]") = true) :
    kind = .indirectAddress := by
  have spelled : ("[" ++ text ++ "]").toList = '[' :: (text.toList ++ [']']) := by simp
  have head : ("[" ++ text ++ "]").toList.head? = some '[' := by rw [spelled]; rfl
  have noNumber : Text.number? ("[" ++ text ++ "]") = none := by
    rw [Text.number?, spelled]
    rfl
  have noIndex : Argument.indexed? ("[" ++ text ++ "]") = none := by
    have nonempty : text.toList ≠ [] := by
      intro empty
      rw [empty] at first
      cases first
    rw [Argument.indexed?, spelled, Argument.bracketedText?_enclosed nonempty]
    split
    · next index rest enclosed =>
        rw [Option.some.inj enclosed] at first
        cases first
        exact absurd digit (by decide)
    · rfl
  cases kind with
  | indirectAddress => rfl
  | immediate => simp [accepts, noNumber] at accepted
  | address =>
      have noName : Text.isName ("[" ++ text ++ "]") = false := by
        rw [Text.isName, spelled]
        rfl
      simp [accepts, Argument.isAddress, Text.isNumber, noNumber, noName] at accepted
  | indexed => simp [accepts, noIndex] at accepted
  | indexedOffset => simp [accepts, noIndex] at accepted
  | indexedSum => simp [accepts, noIndex] at accepted
  | register bank =>
      have initial := (head?_of_accepts accepted rfl).symm.trans head
      cases bank <;> cases initial
  | selected bank =>
      have initial := (head?_of_accepts accepted rfl).symm.trans head
      cases bank <;> cases initial
  | stackPointer => cases (head?_of_accepts accepted rfl).symm.trans head
  | soundTimer => cases (head?_of_accepts accepted rfl).symm.trans head
  | delayTimer => cases (head?_of_accepts accepted rfl).symm.trans head

end OperandKind

namespace Operand

variable {operand : Operand} {text argument : String}

/-- An operand accepts the spelling of an address exactly if it is the text of an address. -/
theorem accepts_spelled (spelled : operand.spellAddress? text = some argument) :
    operand.kind.accepts argument = Argument.isAddress text := by
  cases operand with
  | address =>
      cases spelled
      rfl
  | indirectAddress =>
      cases spelled
      by_cases empty : text = ""
      · subst empty
        decide
      · simp [kind, OperandKind.accepts, Argument.bracketed?_enclosed empty]
  | _ => cases spelled

/-- Whatever operand accepts an address that is spelled as a numeral also accepts it when it
is spelled otherwise, unless it takes an immediate where the address was meant. -/
theorem accepts_of_accepts_numeral (spelled : operand.spellAddress? text = some argument)
    (accepted : operand.kind.accepts argument = true) {n : Nat} {numeral : String}
    (counted : operand.spellAddress? (toString n) = some numeral) {other : Operand}
    (acceptedNumeral : other.kind.accepts numeral = true) :
    other.kind.accepts argument = true ∨ (other.kind = .immediate ∧ operand = .address) := by
  obtain ⟨c, first, digit⟩ := exists_digit_head? n
  cases operand with
  | address =>
      cases counted
      rcases OperandKind.eq_of_accepts_numeral first digit acceptedNumeral with immediate | same
      · exact .inr ⟨immediate, rfl⟩
      · exact .inl (same ▸ accepted)
  | indirectAddress =>
      cases counted
      have same := OperandKind.eq_of_accepts_bracketed_numeral first digit acceptedNumeral
      exact .inl (same ▸ accepted)
  | _ => cases spelled

/-- An operand that takes an address is no register. -/
theorem isApart_of_spelled (spelled : operand.spellAddress? text = some argument)
    (other : OperandKind) : other.isApart operand.kind = false := by
  cases operand with
  | address => cases other <;> rfl
  | indirectAddress => cases other <;> rfl
  | _ => cases spelled

end Operand

end ChipAsm
