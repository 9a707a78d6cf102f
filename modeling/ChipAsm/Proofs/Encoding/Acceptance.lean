/-
# Accepted arguments

Arguments are read twice: once to find the opcode that accepts an instruction, and once to
encode it. Acceptance is a matter of spelling, except for immediates, and the second
reading finds nothing wrong with a spelling that the first has accepted. What can still go
wrong is a number that the spelling leaves open: an address may be unbound or out of
range, an offset may be no number or out of range.

`Operand.Refuses` lists these cases. An accepted instruction is refused exactly if one of
its operands refuses its argument, and the fault is that of the first such operand.
-/

import ChipAsm.Proofs.Encoding.Meaning

namespace ChipAsm

namespace Argument

/-- What can be wrong with the text of an address: it is a number out of range, or no number
and no bound label. -/
inductive AddressFault (symbols : SymbolTable) (text : String) : Fault → Prop
  | unbound (noNumber : Text.number? text = none) (noLabel : symbols.resolve? text = none) :
      AddressFault symbols text (.undefinedLabel text)
  | outside {value : Int} (number : Text.number? text = some value)
      (far : ¬ (0 ≤ value ∧ value ≤ 0xFFFF)) :
      AddressFault symbols text (.outOfRange .address value 0 0xFFFF)

/-- What can be wrong with the text of an offset: it is no number, or one out of range. -/
inductive OffsetFault (low high : Int) (text : String) : Fault → Prop
  | noNumber (noNumber : Text.number? text = none) : OffsetFault low high text (.invalidOffset text)
  | outside {value : Int} (number : Text.number? text = some value)
      (far : ¬ (low ≤ value ∧ value ≤ high)) :
      OffsetFault low high text (.outOfRange .offset value low high)

end Argument

/-- A number is refused exactly if it lies outside the bounds. -/
theorem inRange_eq_error_iff {quantity : Quantity} {low high value : Int} {fault : Fault} :
    inRange quantity low high value = .error fault ↔
      ¬ (low ≤ value ∧ value ≤ high) ∧ fault = .outOfRange quantity value low high := by
  unfold inRange
  by_cases bounds : low ≤ value ∧ value ≤ high
  · simp [bounds]
  · simp [bounds, eq_comm]

namespace Argument

/-- The address of a label has 16 bits and is never out of range. -/
theorem addressValue_eq_error_iff {symbols : SymbolTable} {text : String} {fault : Fault} :
    addressValue symbols text = .error fault ↔ AddressFault symbols text fault := by
  rw [addressValue_eq, address?]
  cases number : Text.number? text with
  | some value =>
      simp only [inRange_eq_error_iff]
      constructor
      · rintro ⟨far, rfl⟩
        exact .outside number far
      · rintro (⟨noNumber, _⟩ | ⟨same, far⟩)
        · exact absurd (noNumber.symm.trans number) (by simp)
        · obtain rfl := Option.some.inj (same.symm.trans number)
          exact ⟨far, rfl⟩
  | none =>
      cases label : symbols.resolve? text with
      | none =>
          simp only [Option.map_none]
          constructor
          · rintro ⟨⟩
            exact .unbound number label
          · rintro (_ | ⟨same, _⟩)
            · rfl
            · exact absurd (same.symm.trans number) (by simp)
      | some address =>
          simp only [Option.map_some, inRange_eq_error_iff]
          have inside : (0 : Int) ≤ address.toNat ∧ (address.toNat : Int) ≤ 0xFFFF := by
            have bound := address.toNat_lt
            omega
          constructor
          · rintro ⟨far, _⟩
            exact absurd inside far
          · rintro (⟨_, noLabel⟩ | ⟨same, _⟩)
            · exact absurd (noLabel.symm.trans label) (by simp)
            · exact absurd (same.symm.trans number) (by simp)

theorem offsetValue_eq_error_iff {low high : Int} {offset : Option String} {fault : Fault} :
    offsetValue low high offset = .error fault ↔
      ∃ text, offset = some text ∧ OffsetFault low high text fault := by
  cases offset with
  | none => simp [offsetValue]
  | some text =>
      simp only [offsetValue, Option.some.injEq, exists_eq_left']
      cases number : Text.number? text with
      | none =>
          constructor
          · rintro ⟨⟩
            exact .noNumber number
          · rintro (_ | ⟨same, _⟩)
            · rfl
            · exact absurd (same.symm.trans number) (by simp)
      | some value =>
          simp only [inRange_eq_error_iff]
          constructor
          · rintro ⟨far, rfl⟩
            exact .outside number far
          · rintro (noNumber | ⟨same, far⟩)
            · exact absurd (noNumber.symm.trans number) (by simp)
            · obtain rfl := Option.some.inj (same.symm.trans number)
              exact ⟨far, rfl⟩

end Argument

/-- A numeral is accepted as an immediate exactly if its number is within the bounds. -/
theorem OperandKind.accepts_immediate_iff {argument : String} :
    immediate.accepts argument = true ↔
      ∃ value, Text.number? argument = some value ∧
        Argument.immediateLow ≤ value ∧ value ≤ Argument.immediateHigh := by
  rw [accepts]
  cases Text.number? argument with
  | none => simp
  | some value => simp

namespace Operand

/-- The faults for which an operand refuses an argument that it accepts. Only addresses and
offsets are refused. -/
inductive Refuses (symbols : SymbolTable) (argument : String) : Operand → Fault → Prop
  | address {fault : Fault} (refused : Argument.AddressFault symbols argument fault) :
      Refuses symbols argument .address fault
  | indirectAddress {inner : String} {fault : Fault}
      (enclosed : Argument.bracketed? argument = some inner)
      (refused : Argument.AddressFault symbols inner fault) :
      Refuses symbols argument .indirectAddress fault
  | indexedOffset {letter : Letter} {parts : Argument.Indexed} {text : String} {fault : Fault}
      (spelled : Argument.indexed? argument = some parts) (written : parts.offset = some text)
      (refused : Argument.OffsetFault (-128) 127 text fault) :
      Refuses symbols argument (.indexedOffset letter) fault
  | indexedSum {letter addendLetter : Letter} {parts : Argument.Indexed} {text : String}
      {fault : Fault}
      (spelled : Argument.indexed? argument = some parts) (written : parts.offset = some text)
      (refused : Argument.OffsetFault 0 15 text fault) :
      Refuses symbols argument (.indexedSum letter addendLetter) fault

section

variable {symbols : SymbolTable} {mismatch : Fault} {argument : String} {fault : Fault}

/-! An argument with all that its operand asks for is read. -/

theorem evaluate_immediate {letter : Letter} {value : Int}
    (number : Text.number? argument = some value)
    (bounds : Argument.immediateLow ≤ value ∧ value ≤ Argument.immediateHigh) :
    (immediate letter).evaluate symbols mismatch argument = .ok [(.field letter, value)] := by
  have inside : inRange .immediate Argument.immediateLow Argument.immediateHigh value = .ok value :=
    inRange_eq_ok_iff.mpr ⟨rfl, bounds⟩
  rw [evaluate, number, demand, ok_bind, inside]
  rfl

theorem evaluate_register {bank : Bank} {letter : Letter} {digit : Fin 16}
    (found : Argument.registerDigit? bank argument = some digit) :
    (register bank letter).evaluate symbols mismatch argument =
      .ok [(.field letter, digit.val)] := by
  rw [evaluate, found]
  rfl

theorem evaluate_selected {bank : Bank} {letter : Letter} {digit : Fin 16}
    (found : Argument.selectedDigit? bank argument = some digit) :
    (selected bank letter).evaluate symbols mismatch argument =
      .ok [(.field letter, digit.val)] := by
  rw [evaluate, found]
  rfl

theorem evaluate_indexed {letter : Letter} {parts : Argument.Indexed}
    (spelled : Argument.indexed? argument = some parts) :
    (indexed letter).evaluate symbols mismatch argument =
      .ok [(.field letter, parts.index.val)] := by
  rw [evaluate, spelled]
  rfl

/-! Apart from that, reading an argument fails as its address or its offset does. -/

theorem evaluate_address_eq_error_iff :
    address.evaluate symbols mismatch argument = .error fault ↔
      Argument.AddressFault symbols argument fault := by
  rw [evaluate, bind_pure_eq_error_iff, Argument.addressValue_eq_error_iff]

theorem evaluate_indirectAddress_eq_error_iff {inner : String}
    (enclosed : Argument.bracketed? argument = some inner) :
    indirectAddress.evaluate symbols mismatch argument = .error fault ↔
      Argument.AddressFault symbols inner fault := by
  rw [evaluate, enclosed, demand, ok_bind, bind_pure_eq_error_iff,
    Argument.addressValue_eq_error_iff]

theorem evaluate_indexedOffset_eq_error_iff {letter : Letter} {parts : Argument.Indexed}
    (spelled : Argument.indexed? argument = some parts) :
    (indexedOffset letter).evaluate symbols mismatch argument = .error fault ↔
      ∃ text, parts.offset = some text ∧ Argument.OffsetFault (-128) 127 text fault := by
  rw [evaluate, spelled, demand, ok_bind, bind_pure_eq_error_iff,
    Argument.offsetValue_eq_error_iff]

theorem evaluate_indexedSum_eq_error_iff {letter addendLetter : Letter}
    {parts : Argument.Indexed} {addend : Fin 16}
    (spelled : Argument.indexed? argument = some parts) (added : parts.addend = some addend) :
    (indexedSum letter addendLetter).evaluate symbols mismatch argument = .error fault ↔
      ∃ text, parts.offset = some text ∧ Argument.OffsetFault 0 15 text fault := by
  rw [evaluate, spelled, demand, ok_bind, added, demand, ok_bind, bind_pure_eq_error_iff,
    Argument.offsetValue_eq_error_iff]

/-! So do the operands refuse an argument. -/

theorem refuses_address_iff :
    address.Refuses symbols argument fault ↔ Argument.AddressFault symbols argument fault := by
  constructor
  · rintro ⟨refused⟩
    exact refused
  · exact .address

theorem refuses_indirectAddress_iff {inner : String}
    (enclosed : Argument.bracketed? argument = some inner) :
    indirectAddress.Refuses symbols argument fault ↔
      Argument.AddressFault symbols inner fault := by
  constructor
  · rintro (_ | ⟨same, refused⟩)
    obtain rfl := Option.some.inj (same.symm.trans enclosed)
    exact refused
  · exact .indirectAddress enclosed

theorem refuses_indexedOffset_iff {letter : Letter} {parts : Argument.Indexed}
    (spelled : Argument.indexed? argument = some parts) :
    (indexedOffset letter).Refuses symbols argument fault ↔
      ∃ text, parts.offset = some text ∧ Argument.OffsetFault (-128) 127 text fault := by
  constructor
  · rintro (_ | _ | ⟨same, written, refused⟩)
    obtain rfl := Option.some.inj (same.symm.trans spelled)
    exact ⟨_, written, refused⟩
  · rintro ⟨text, written, refused⟩
    exact .indexedOffset spelled written refused

theorem refuses_indexedSum_iff {letter addendLetter : Letter} {parts : Argument.Indexed}
    (spelled : Argument.indexed? argument = some parts) :
    (indexedSum letter addendLetter).Refuses symbols argument fault ↔
      ∃ text, parts.offset = some text ∧ Argument.OffsetFault 0 15 text fault := by
  constructor
  · rintro (_ | _ | _ | ⟨same, written, refused⟩)
    obtain rfl := Option.some.inj (same.symm.trans spelled)
    exact ⟨_, written, refused⟩
  · rintro ⟨text, written, refused⟩
    exact .indexedSum spelled written refused

end

variable {symbols : SymbolTable} {mismatch : Fault} {operand : Operand} {argument : String}
  {fault : Fault}

/-- Where an argument is read and the operand refuses nothing, the two agree. -/
theorem error_iff_refuses_of_ok {pieces : List (Slot × Int)}
    (read : operand.evaluate symbols mismatch argument = .ok pieces)
    (harmless : ¬ operand.Refuses symbols argument fault) :
    operand.evaluate symbols mismatch argument = .error fault ↔
      operand.Refuses symbols argument fault := by
  apply iff_of_false
  · rw [read]
    exact nofun
  · exact harmless

/-- The encoder finds nothing wrong with an accepted argument but what `Refuses` lists. -/
theorem evaluate_eq_error_iff (accepted : operand.kind.accepts argument = true) :
    operand.evaluate symbols mismatch argument = .error fault ↔
      operand.Refuses symbols argument fault := by
  cases operand with
  | immediate letter =>
      obtain ⟨value, number, bounds⟩ := OperandKind.accepts_immediate_iff.mp accepted
      exact error_iff_refuses_of_ok (evaluate_immediate number bounds) nofun
  | address => rw [evaluate_address_eq_error_iff, refuses_address_iff]
  | indirectAddress =>
      obtain ⟨inner, enclosed, -⟩ := (Option.any_eq_true _ _).mp accepted
      rw [evaluate_indirectAddress_eq_error_iff enclosed, refuses_indirectAddress_iff enclosed]
  | register bank letter =>
      obtain ⟨digit, found⟩ := Option.isSome_iff_exists.mp accepted
      exact error_iff_refuses_of_ok (evaluate_register found) nofun
  | selected bank letter =>
      obtain ⟨digit, found⟩ := Option.isSome_iff_exists.mp accepted
      exact error_iff_refuses_of_ok (evaluate_selected found) nofun
  | stackPointer => exact error_iff_refuses_of_ok rfl nofun
  | soundTimer => exact error_iff_refuses_of_ok rfl nofun
  | delayTimer => exact error_iff_refuses_of_ok rfl nofun
  | indexed letter =>
      obtain ⟨parts, spelled, -⟩ := (Option.any_eq_true _ _).mp accepted
      exact error_iff_refuses_of_ok (evaluate_indexed spelled) nofun
  | indexedOffset letter =>
      obtain ⟨parts, spelled, -⟩ := (Option.any_eq_true _ _).mp accepted
      rw [evaluate_indexedOffset_eq_error_iff spelled, refuses_indexedOffset_iff spelled]
  | indexedSum letter addendLetter =>
      obtain ⟨parts, spelled, both⟩ := (Option.any_eq_true _ _).mp accepted
      obtain ⟨addend, added⟩ := Option.isSome_iff_exists.mp both
      rw [evaluate_indexedSum_eq_error_iff spelled added, refuses_indexedSum_iff spelled]

/-- An accepted argument is read unless its operand refuses it. -/
theorem exists_evaluate_eq_ok_iff (accepted : operand.kind.accepts argument = true) :
    (∃ pieces, operand.evaluate symbols mismatch argument = .ok pieces) ↔
      ∀ fault, ¬ operand.Refuses symbols argument fault := by
  cases outcome : operand.evaluate symbols mismatch argument with
  | ok pieces =>
      apply iff_of_true ⟨pieces, rfl⟩
      intro fault refuses
      rw [(evaluate_eq_error_iff accepted).mpr refuses] at outcome
      cases outcome
  | error fault =>
      apply iff_of_false nofun
      intro harmless
      exact harmless fault ((evaluate_eq_error_iff accepted).mp outcome)

end Operand

/-- The operands of the opcode, each with the argument that it takes. -/
def Opcode.pairs (opcode : Opcode) (instruction : Instruction) : List (Operand × String) :=
  opcode.operands.zip (opcode.normalize instruction.arguments)

/-- The fault is that of the first operand that refuses its argument. -/
def Opcode.FirstRefused (opcode : Opcode) (symbols : SymbolTable) (instruction : Instruction)
    (fault : Fault) : Prop :=
  ∃ before operand argument after,
    opcode.pairs instruction = before ++ (operand, argument) :: after ∧
    (∀ earlier ∈ before, ∀ other, ¬ earlier.1.Refuses symbols earlier.2 other) ∧
    operand.Refuses symbols argument fault

namespace Opcode

variable {opcode : Opcode} {symbols : SymbolTable} {instruction : Instruction} {fault : Fault}

/-- An opcode accepts an instruction exactly if it has its mnemonic and its number of
arguments, and each operand accepts its argument. -/
theorem accepts_iff :
    opcode.accepts instruction = true ↔
      instruction.mnemonic = opcode.mnemonic ∧
      (opcode.normalize instruction.arguments).length = opcode.operands.length ∧
      ∀ pair ∈ opcode.pairs instruction, pair.1.kind.accepts pair.2 = true := by
  simp only [accepts, Bool.and_eq_true, beq_iff_eq, List.all_eq_true, and_assoc]
  rfl

theorem accepts_iff_forall₂ :
    opcode.accepts instruction = true ↔
      instruction.mnemonic = opcode.mnemonic ∧
      List.Forall₂ (fun operand argument => operand.kind.accepts argument = true)
        opcode.operands (opcode.normalize instruction.arguments) := by
  rw [accepts_iff, List.forall₂_iff_zip, eq_comm (a := (opcode.normalize _).length)]
  simp only [pairs, Prod.forall]

/-- An accepted instruction is refused for the first operand that refuses its argument. -/
theorem compose_eq_error_iff (accepted : opcode.accepts instruction = true) :
    opcode.compose symbols instruction = .error fault ↔
      opcode.FirstRefused symbols instruction fault := by
  obtain ⟨-, count, each⟩ := accepts_iff.mp accepted
  rw [compose_eq, if_neg (not_not_intro count), map_eq_error_iff, evaluate, mapM_eq_error_iff]
  constructor
  · rintro ⟨before, ⟨operand, argument⟩, after, split, read, refused⟩
    change opcode.pairs instruction = _ at split
    rw [split] at each
    obtain ⟨eachBefore, eachAfter⟩ := List.forall_mem_append.mp each
    refine ⟨before, operand, argument, after, split, ?_, ?_⟩
    · intro earlier member
      exact (Operand.exists_evaluate_eq_ok_iff (eachBefore earlier member)).mp (read earlier member)
    · exact (Operand.evaluate_eq_error_iff (eachAfter _ (List.mem_cons_self ..))).mp refused
  · rintro ⟨before, operand, argument, after, split, harmless, refuses⟩
    rw [split] at each
    obtain ⟨eachBefore, eachAfter⟩ := List.forall_mem_append.mp each
    refine ⟨before, (operand, argument), after, split, ?_, ?_⟩
    · intro earlier member
      exact (Operand.exists_evaluate_eq_ok_iff (eachBefore earlier member)).mpr
        (harmless earlier member)
    · exact (Operand.evaluate_eq_error_iff (eachAfter _ (List.mem_cons_self ..))).mpr refuses

/-- An accepted instruction is refused exactly if some operand refuses its argument. -/
theorem exists_compose_eq_error_iff (accepted : opcode.accepts instruction = true) :
    (∃ fault, opcode.compose symbols instruction = .error fault) ↔
      ∃ pair ∈ opcode.pairs instruction, ∃ fault, pair.1.Refuses symbols pair.2 fault := by
  obtain ⟨-, -, each⟩ := accepts_iff.mp accepted
  constructor
  · rintro ⟨fault, refused⟩
    obtain ⟨before, operand, argument, after, split, -, refuses⟩ :=
      (compose_eq_error_iff accepted).mp refused
    refine ⟨(operand, argument), ?_, fault, refuses⟩
    rw [split]
    exact List.mem_append_right before (List.mem_cons_self ..)
  · rintro ⟨pair, member, fault, refuses⟩
    cases outcome : opcode.compose symbols instruction with
    | error reason => exact ⟨reason, rfl⟩
    | ok word =>
        -- A word would need every argument to be read, this one included.
        obtain ⟨-, pieces, evaluated, -⟩ := compose_eq_ok_iff.mp outcome
        have read := exists_eq_ok_of_mapM evaluated pair member
        exact absurd refuses ((Operand.exists_evaluate_eq_ok_iff (each pair member)).mp read fault)

end Opcode

namespace OpcodeTable

variable {table : OpcodeTable} {symbols : SymbolTable} {instruction : Instruction}

theorem encode_of_find? {opcode : Opcode} (found : table.find? instruction = some opcode) :
    table.encode symbols instruction = opcode.encode symbols instruction := by
  rw [encode, found]

theorem accepts_of_find? {opcode : Opcode} (found : table.find? instruction = some opcode) :
    opcode.accepts instruction = true :=
  List.find?_some (p := fun opcode : Opcode => opcode.accepts instruction) found

end OpcodeTable

end ChipAsm
