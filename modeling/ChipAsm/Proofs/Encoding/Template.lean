/-
# Formats as templates

An operand of a format is spelled like its arguments, with letters in place of what
arguments supply. `Operand.parts` is this spelling taken apart: characters that arguments
repeat, and places for a digit or for a number between bounds. Written with its letters it
is the operand of the format, and filled in it is an argument.

Formats, arguments and numbers of arguments are read by different functions. A template
that is filled in connects them: the opcode whose format it is accepts the argument and
reads from it the numbers that were filled in. What keeps it from encoding them is an address
with a bit that the pattern fixes to zero.
-/

import ChipAsm.Proofs.Encoding.FixedBits
import ChipAsm.Proofs.Operand.Index

namespace ChipAsm

/-- A part of an operand of a format. -/
inductive OperandPart
  /-- A character that stands in the arguments as well. -/
  | fixed (c : Char)
  /-- A letter in place of the digit of a register. -/
  | digit (letter : Letter)
  /-- A letter, or `addr`, in place of a number between two bounds. -/
  | number (slot : Slot) (low high : Int)

/-- What a format writes in place of a number. -/
def Slot.placeholder : Slot → List Char
  | field letter => [letter.char]
  | address => ['a', 'd', 'd', 'r']

namespace OperandPart

/-- What a format writes for the part. -/
def placeholder : OperandPart → List Char
  | fixed c => [c]
  | digit letter => [letter.char]
  | number slot _ _ => slot.placeholder

/-- The text has the parts filled in, with these numbers in these places. -/
inductive Filled : List OperandPart → List Char → List (Slot × Int) → Prop
  | done : Filled [] [] []
  | fixed {parts : List OperandPart} {text : List Char} {pieces : List (Slot × Int)} {c : Char}
      (rest : Filled parts text pieces) : Filled (.fixed c :: parts) (c :: text) pieces
  | digit {parts : List OperandPart} {text : List Char} {pieces : List (Slot × Int)}
      {letter : Letter} {c : Char} {value : Fin 16} (read : Text.hexDigit? c = some value)
      (rest : Filled parts text pieces) :
      Filled (.digit letter :: parts) (c :: text) ((.field letter, value.val) :: pieces)
  | number {parts : List OperandPart} {text : List Char} {pieces : List (Slot × Int)} {slot : Slot}
      {low high value : Int} {numeral : String} (read : Text.number? numeral = some value)
      (bounds : low ≤ value ∧ value ≤ high) (rest : Filled parts text pieces) :
      Filled (.number slot low high :: parts) (numeral.toList ++ text) ((slot, value) :: pieces)

variable {parts : List OperandPart} {text : List Char} {pieces : List (Slot × Int)}

theorem filled_nil_iff : Filled [] text pieces ↔ text = [] ∧ pieces = [] := by
  constructor
  · rintro ⟨⟩
    exact ⟨rfl, rfl⟩
  · rintro ⟨rfl, rfl⟩
    exact .done

theorem filled_fixed_iff {c : Char} :
    Filled (.fixed c :: parts) text pieces ↔
      ∃ rest, text = c :: rest ∧ Filled parts rest pieces := by
  constructor
  · rintro (_ | rest)
    exact ⟨_, rfl, rest⟩
  · rintro ⟨rest, rfl, filled⟩
    exact .fixed filled

theorem filled_digit_iff {letter : Letter} :
    Filled (.digit letter :: parts) text pieces ↔
      ∃ c value rest others, Text.hexDigit? c = some value ∧ text = c :: rest ∧
        pieces = (.field letter, (value.val : Int)) :: others ∧ Filled parts rest others := by
  constructor
  · rintro (_ | _ | ⟨read, rest⟩)
    exact ⟨_, _, _, _, read, rfl, rfl, rest⟩
  · rintro ⟨c, value, rest, others, read, rfl, rfl, filled⟩
    exact .digit read filled

theorem filled_number_iff {slot : Slot} {low high : Int} :
    Filled (.number slot low high :: parts) text pieces ↔
      ∃ numeral value rest others, Text.number? numeral = some value ∧
        (low ≤ value ∧ value ≤ high) ∧ text = numeral.toList ++ rest ∧
        pieces = (slot, value) :: others ∧ Filled parts rest others := by
  constructor
  · rintro (_ | _ | _ | ⟨read, bounds, rest⟩)
    exact ⟨_, _, _, _, read, bounds, rfl, rfl, rest⟩
  · rintro ⟨numeral, value, rest, others, read, bounds, rfl, rfl, filled⟩
    exact .number read bounds filled

end OperandPart

namespace Operand

/-- The spelling of the operand, taken apart. -/
def parts : Operand → List OperandPart
  | immediate letter => [.number (.field letter) (-127) 255]
  | address => [.number .address 0 0xFFFF]
  | indirectAddress => [.fixed '[', .number .address 0 0xFFFF, .fixed ']']
  | register bank letter => [.fixed bank.char, .digit letter]
  | selected bank letter =>
      [.fixed bank.char, .fixed '(', .fixed 'N', .digit letter, .fixed ')']
  | stackPointer => [.fixed 'S', .fixed 'P']
  | soundTimer => [.fixed 'S', .fixed 'T']
  | delayTimer => [.fixed 'D', .fixed 'T']
  | indexed letter => [.fixed '[', .fixed 'I', .digit letter, .fixed ']']
  | indexedOffset letter =>
      [.fixed '[', .fixed 'I', .digit letter, .fixed '+', .number (.field .n) (-128) 127,
        .fixed ']']
  | indexedSum letter addendLetter =>
      [.fixed '[', .fixed 'I', .digit letter, .fixed '+', .fixed 'B', .digit addendLetter,
        .fixed '+', .number (.field .n) 0 15, .fixed ']']

/-- The operand as a format writes it. -/
def token (operand : Operand) : String :=
  String.ofList (operand.parts.flatMap OperandPart.placeholder)

end Operand

/-! ## Formats -/

theorem Bank.ofChar?_eq_some_iff {c : Char} {bank : Bank} :
    Bank.ofChar? c = some bank ↔ c = bank.char := by
  constructor
  · intro found
    unfold Bank.ofChar? at found
    split at found <;> cases found <;> rfl
  · rintro rfl
    cases bank <;> rfl

namespace Operand

variable {operand : Operand}

/-- An operand in brackets is written with its index register first. -/
theorem toList_token_of_ofIndexed? {index : Letter} {rest : List Char}
    (read : ofIndexed? index rest = some operand) :
    operand.token.toList = '[' :: 'I' :: index.char :: rest := by
  unfold ofIndexed? at read
  split at read
  · cases read
    exact String.toList_ofList
  · cases read
    exact String.toList_ofList
  · obtain ⟨addend, known, rfl⟩ := Option.map_eq_some_iff.mp read
    rw [Letter.ofChar?_eq_some_iff.mp known]
    exact String.toList_ofList
  · cases read

theorem toList_token_of_ofLettered? {text : List Char} (read : ofLettered? text = some operand) :
    operand.token.toList = text := by
  unfold ofLettered? at read
  split at read
  · obtain ⟨letter, known, rfl⟩ := Option.map_eq_some_iff.mp read
    rw [Letter.ofChar?_eq_some_iff.mp known]
    exact String.toList_ofList
  · obtain ⟨bank, initial, more⟩ := Option.bind_eq_some_iff.mp read
    obtain ⟨letter, known, same⟩ := Option.bind_eq_some_iff.mp more
    cases same
    rw [Bank.ofChar?_eq_some_iff.mp initial, Letter.ofChar?_eq_some_iff.mp known]
    exact String.toList_ofList
  · obtain ⟨letter, known, rfl⟩ := Option.map_eq_some_iff.mp read
    rw [Letter.ofChar?_eq_some_iff.mp known]
    exact String.toList_ofList
  · obtain ⟨letter, known, rfl⟩ := Option.map_eq_some_iff.mp read
    rw [Letter.ofChar?_eq_some_iff.mp known]
    exact String.toList_ofList
  · obtain ⟨letter, known, more⟩ := Option.bind_eq_some_iff.mp read
    rw [Letter.ofChar?_eq_some_iff.mp known]
    exact toList_token_of_ofIndexed? more
  · cases read

theorem token_of_plainOperands : ∀ entry ∈ plainOperands, entry.1 = entry.2.token := by decide

/-- A format writes an operand in one way only. -/
theorem token_of_classify {text : String} (read : classify text = .ok operand) :
    text = operand.token := by
  unfold classify at read
  split at read
  · cases read
  · split at read
    · next known =>
        cases read
        unfold ofText? at known
        split at known
        · next plain =>
            cases known
            obtain ⟨before, after, listed, -⟩ := List.lookup_eq_some_iff.mp plain
            exact token_of_plainOperands (text, operand) (by simp [listed])
        · exact String.toList_inj.mp (toList_token_of_ofLettered? known).symm
    · cases read

end Operand

namespace Format

/-- The operands that a text lists, as they are written. -/
def tokens (text : List Char) : List String :=
  if text.isEmpty then []
  else (text.splitOn ',').map fun operand => String.ofList (Text.trim operand)

/-- The operands of a format are what is written there. -/
theorem map_token_of_operands {text : List Char} {found : List Operand}
    (read : operands text = .ok found) : found.map Operand.token = tokens text := by
  unfold operands at read
  unfold tokens
  split at read
  · next empty =>
      cases read
      rw [if_pos empty]
      rfl
  · next written =>
      rw [if_neg written]
      have classified := (mapM_eq_ok_iff.mp read).imp
        fun _ _ known => Operand.token_of_classify known
      have same := List.forall₂_map_left_iff.mpr (List.forall₂_map_right_iff.mpr classified)
      exact (List.forall₂_eq_eq_eq ▸ same).symm

end Format

/-! ## Arguments -/

namespace Argument

variable {numeral : String} {value : Int}

theorem toList_ne_nil_of_number? (read : Text.number? numeral = some value) :
    numeral.toList ≠ [] := by
  intro empty
  rw [Text.number?, empty] at read
  cases read

/-- A numeral is no register. -/
theorem addend?_of_number? (read : Text.number? numeral = some value) :
    addend? numeral.toList = none := by
  cases spelled : numeral.toList with
  | nil => rfl
  | cons c rest =>
      have other : c ≠ 'B' := by
        rintro rfl
        rw [Text.number?_eq_none (c := 'B') (by rw [spelled]; rfl) (by decide) (by decide)] at read
        cases read
      unfold addend?
      split
      · next same => exact absurd (List.cons.inj same).1 other
      · next same => exact absurd (List.cons.inj same).1 other
      · rfl

theorem indexed?_offset {c : Char} {index : Fin 16} (known : Text.hexDigit? c = some index)
    (read : Text.number? numeral = some value) :
    indexed? (String.ofList ('[' :: 'I' :: c :: '+' :: (numeral.toList ++ [']']))) =
      some ⟨index, none, some numeral⟩ := by
  have alone : ¬BeginsAsRegister numeral.toList :=
    addend?_eq_none_iff.mp (addend?_of_number? read)
  have added := added?_text (.offset numeral.toList (toList_ne_nil_of_number? read) alone)
  exact indexed?_eq_some_iff.mpr ⟨c, _, _, rfl, known, added, by simp [Addition.offset?]⟩

theorem indexed?_sum {c d : Char} {index addend : Fin 16} (known : Text.hexDigit? c = some index)
    (knownAddend : Text.hexDigit? d = some addend) (read : Text.number? numeral = some value) :
    indexed? (String.ofList
        ('[' :: 'I' :: c :: '+' :: 'B' :: d :: '+' :: (numeral.toList ++ [']']))) =
      some ⟨index, some addend, some numeral⟩ := by
  have digit : Text.IsDigit 16 d addend := Text.hexDigit?_eq_some_iff.mp knownAddend
  have added := added?_text
    (.registerOffset ⟨d, addend, digit⟩ numeral.toList (toList_ne_nil_of_number? read))
  exact indexed?_eq_some_iff.mpr ⟨c, _, _, rfl, known, added, by simp [Addition.offset?]⟩

theorem offsetValue_of_number? {low high : Int} (read : Text.number? numeral = some value)
    (bounds : low ≤ value ∧ value ≤ high) : offsetValue low high (some numeral) = .ok value := by
  simp only [offsetValue, read]
  exact inRange_eq_ok_iff.mpr ⟨rfl, bounds⟩

theorem addressValue_of_number? (read : Text.number? numeral = some value)
    (bounds : 0 ≤ value ∧ value ≤ 0xFFFF) (symbols : SymbolTable) :
    addressValue symbols numeral = .ok value := by
  rw [addressValue_eq_ok_iff, address?, read]
  exact ⟨rfl, bounds⟩

theorem isAddress_of_number? (read : Text.number? numeral = some value) :
    isAddress numeral = true := by
  rw [isAddress, Text.isNumber, read]
  rfl

end Argument

namespace Operand

/-- The operand accepts the argument, and the encoder reads these numbers from it whatever the
labels are. -/
def Reads (operand : Operand) (argument : String) (pieces : List (Slot × Int)) : Prop :=
  operand.kind.accepts argument = true ∧
    ∀ symbols mismatch, operand.evaluate symbols mismatch argument = .ok pieces

section

variable {numeral : String} {value : Int} {letter : Letter} {c : Char} {digit : Fin 16}

theorem reads_immediate (read : Text.number? numeral = some value)
    (bounds : -127 ≤ value ∧ value ≤ 255) :
    (immediate letter).Reads numeral [(.field letter, value)] := by
  constructor
  · rw [kind, OperandKind.accepts, read]
    exact Bool.and_eq_true_iff.mpr ⟨decide_eq_true bounds.1, decide_eq_true bounds.2⟩
  · intro symbols mismatch
    exact evaluate_immediate read bounds

theorem reads_address (read : Text.number? numeral = some value)
    (bounds : 0 ≤ value ∧ value ≤ 0xFFFF) : address.Reads numeral [(.address, value)] := by
  refine ⟨Argument.isAddress_of_number? read, fun symbols mismatch => ?_⟩
  rw [evaluate, Argument.addressValue_of_number? read bounds]
  rfl

theorem reads_indirectAddress (read : Text.number? numeral = some value)
    (bounds : 0 ≤ value ∧ value ≤ 0xFFFF) :
    indirectAddress.Reads (String.ofList ('[' :: (numeral.toList ++ [']'])))
      [(.address, value)] := by
  have enclosed : Argument.bracketed? (String.ofList ('[' :: (numeral.toList ++ [']']))) =
      some numeral := by
    rw [Argument.bracketed?, String.toList_ofList,
      Argument.bracketedText?_enclosed (Argument.toList_ne_nil_of_number? read), Option.map_some,
      String.ofList_toList]
  constructor
  · rw [kind, OperandKind.accepts, enclosed]
    exact Argument.isAddress_of_number? read
  · intro symbols mismatch
    rw [evaluate, enclosed, demand, ok_bind, Argument.addressValue_of_number? read bounds]
    rfl

theorem reads_register {bank : Bank} (known : Text.hexDigit? c = some digit) :
    (register bank letter).Reads (String.ofList [bank.char, c]) [(.field letter, digit.val)] := by
  have read : Argument.registerDigit? bank (String.ofList [bank.char, c]) = some digit :=
    Argument.registerDigit?_eq_some_iff.mpr ⟨c, rfl, known⟩
  exact ⟨Option.isSome_iff_exists.mpr ⟨digit, read⟩, fun _ _ => evaluate_register read⟩

theorem reads_selected {bank : Bank} (known : Text.hexDigit? c = some digit) :
    (selected bank letter).Reads (String.ofList [bank.char, '(', 'N', c, ')'])
      [(.field letter, digit.val)] := by
  have read : Argument.selectedDigit? bank (String.ofList [bank.char, '(', 'N', c, ')']) =
      some digit := by
    simp [Argument.selectedDigit?, known]
  exact ⟨Option.isSome_iff_exists.mpr ⟨digit, read⟩, fun _ _ => evaluate_selected read⟩

theorem reads_indexed (known : Text.hexDigit? c = some digit) :
    (indexed letter).Reads (String.ofList ['[', 'I', c, ']']) [(.field letter, digit.val)] := by
  have read := Argument.indexed?_index known
  constructor
  · rw [kind, OperandKind.accepts, read]
    rfl
  · intro symbols mismatch
    exact evaluate_indexed read

theorem reads_indexedOffset (known : Text.hexDigit? c = some digit)
    (read : Text.number? numeral = some value) (bounds : -128 ≤ value ∧ value ≤ 127) :
    (indexedOffset letter).Reads
      (String.ofList ('[' :: 'I' :: c :: '+' :: (numeral.toList ++ [']'])))
      [(.field letter, digit.val), (.field .n, value)] := by
  have apart := Argument.indexed?_offset known read
  constructor
  · rw [kind, OperandKind.accepts, apart]
    rfl
  · intro symbols mismatch
    rw [evaluate, apart, demand, ok_bind, Argument.offsetValue_of_number? read bounds]
    rfl

theorem reads_indexedSum {d : Char} {addend : Fin 16} {addendLetter : Letter}
    (known : Text.hexDigit? c = some digit) (knownAddend : Text.hexDigit? d = some addend)
    (read : Text.number? numeral = some value) (bounds : 0 ≤ value ∧ value ≤ 15) :
    (indexedSum letter addendLetter).Reads
      (String.ofList ('[' :: 'I' :: c :: '+' :: 'B' :: d :: '+' :: (numeral.toList ++ [']'])))
      [(.field letter, digit.val), (.field addendLetter, addend.val), (.field .n, value)] := by
  have apart := Argument.indexed?_sum known knownAddend read
  constructor
  · rw [kind, OperandKind.accepts, apart]
    rfl
  · intro symbols mismatch
    rw [evaluate, apart, demand, ok_bind, demand, ok_bind,
      Argument.offsetValue_of_number? read bounds]
    rfl

end

variable {operand : Operand} {argument : String} {pieces : List (Slot × Int)}

open OperandPart in
/-- An operand accepts its template filled in and reads from it the numbers that were filled
in. -/
theorem reads_of_filled (filled : OperandPart.Filled operand.parts argument.toList pieces) :
    operand.Reads argument pieces := by
  obtain ⟨text, rfl⟩ : ∃ text, argument = String.ofList text :=
    ⟨argument.toList, String.ofList_toList.symm⟩
  rw [String.toList_ofList] at filled
  -- What is filled in is read off part by part, in the order of the spelling.
  cases operand with
  | immediate letter =>
      simp only [parts, filled_number_iff, filled_nil_iff] at filled
      obtain ⟨numeral, value, _, _, read, bounds, rfl, rfl, rfl, rfl⟩ := filled
      rw [List.append_nil, String.ofList_toList]
      exact reads_immediate read bounds
  | address =>
      simp only [parts, filled_number_iff, filled_nil_iff] at filled
      obtain ⟨numeral, value, _, _, read, bounds, rfl, rfl, rfl, rfl⟩ := filled
      rw [List.append_nil, String.ofList_toList]
      exact reads_address read bounds
  | indirectAddress =>
      simp only [parts, filled_fixed_iff, filled_number_iff, filled_nil_iff] at filled
      obtain ⟨_, rfl, numeral, value, _, _, read, bounds, rfl, rfl, _, rfl, rfl, rfl⟩ := filled
      exact reads_indirectAddress read bounds
  | register bank letter =>
      simp only [parts, filled_fixed_iff, filled_digit_iff, filled_nil_iff] at filled
      obtain ⟨_, rfl, c, digit, _, _, known, rfl, rfl, rfl, rfl⟩ := filled
      exact reads_register known
  | selected bank letter =>
      simp only [parts, filled_fixed_iff, filled_digit_iff, filled_nil_iff] at filled
      obtain ⟨_, rfl, _, rfl, _, rfl, c, digit, _, _, known, rfl, rfl, _, rfl, rfl, rfl⟩ := filled
      exact reads_selected known
  | indexed letter =>
      simp only [parts, filled_fixed_iff, filled_digit_iff, filled_nil_iff] at filled
      obtain ⟨_, rfl, _, rfl, c, digit, _, _, known, rfl, rfl, _, rfl, rfl, rfl⟩ := filled
      exact reads_indexed known
  | indexedOffset letter =>
      simp only [parts, filled_fixed_iff, filled_digit_iff, filled_number_iff,
        filled_nil_iff] at filled
      obtain ⟨_, rfl, _, rfl, c, digit, _, _, known, rfl, rfl, _, rfl,
        numeral, value, _, _, read, bounds, rfl, rfl, _, rfl, rfl, rfl⟩ := filled
      exact reads_indexedOffset known read bounds
  | indexedSum letter addendLetter =>
      simp only [parts, filled_fixed_iff, filled_digit_iff, filled_number_iff,
        filled_nil_iff] at filled
      obtain ⟨_, rfl, _, rfl, c, digit, _, _, known, rfl, rfl, _, rfl, _, rfl,
        d, addend, _, _, knownAddend, rfl, rfl, _, rfl,
        numeral, value, _, _, read, bounds, rfl, rfl, _, rfl, rfl, rfl⟩ := filled
      exact reads_indexedSum known knownAddend read bounds
  | _ =>
      simp only [parts, filled_fixed_iff, filled_nil_iff] at filled
      obtain ⟨_, rfl, _, rfl, rfl, rfl⟩ := filled
      exact ⟨rfl, fun _ _ => rfl⟩

end Operand

/-- Each operand reads the argument at its position. -/
def Operand.ReadsEach (operands : List Operand) (fillings : List (String × List (Slot × Int))) :
    Prop :=
  List.Forall₂ (fun operand filling => operand.Reads filling.1 filling.2) operands fillings

namespace Operand.ReadsEach

variable {operands : List Operand} {opcode : Opcode} {fillings : List (String × List (Slot × Int))}

theorem mapM_evaluate (reads : ReadsEach operands fillings) (symbols : SymbolTable)
    (mismatch : Fault) :
    (operands.zip (fillings.map Prod.fst)).mapM
      (fun pair => pair.1.evaluate symbols mismatch pair.2) = .ok (fillings.map Prod.snd) := by
  induction reads with
  | nil => rfl
  | cons read _ ih =>
      rw [List.map_cons, List.zip_cons_cons, List.mapM_cons, read.2, ok_bind, ih]
      rfl

/-- There is one number for each place of each operand. -/
theorem map_slots (reads : ReadsEach operands fillings) :
    (fillings.flatMap Prod.snd).map Prod.fst = operands.flatMap Operand.slots := by
  induction reads with
  | nil => rfl
  | cons read _ ih =>
      have places := (Operand.supplies_of_evaluate (read.2 {} (.unrecognized ""))).places
      rw [List.flatMap_cons, List.flatMap_cons, List.map_append, places, ih]

theorem normalize_eq (reads : ReadsEach opcode.operands fillings) :
    opcode.normalize (fillings.map Prod.fst) = fillings.map Prod.fst :=
  Opcode.normalize_of_length (by rw [List.length_map, reads.length_eq])

theorem accepts_eq_true (reads : ReadsEach opcode.operands fillings) (place : Place) :
    opcode.accepts ⟨opcode.mnemonic, fillings.map Prod.fst, place⟩ = true := by
  rw [Opcode.accepts_iff_forall₂, reads.normalize_eq, List.forall₂_map_right_iff]
  exact ⟨rfl, reads.imp fun _ _ read => read.1⟩

theorem compose_eq_ok (reads : ReadsEach opcode.operands fillings) (symbols : SymbolTable)
    (place : Place) :
    opcode.compose symbols ⟨opcode.mnemonic, fillings.map Prod.fst, place⟩ =
      .ok (opcode.combine opcode.base (fillings.flatMap Prod.snd)) := by
  refine Opcode.compose_eq_ok_iff.mpr ⟨?_, fillings.map Prod.snd, ?_, by rw [List.flatMap_def]⟩
  · rw [reads.normalize_eq, List.length_map, reads.length_eq]
  · rw [Opcode.evaluate, reads.normalize_eq]
    exact reads.mapM_evaluate symbols _

end Operand.ReadsEach

namespace Opcode

/-- In a defined opcode, the places of its operands are fields, except for addresses. -/
theorem exists_field_of_mem_slots {pattern format : String} {opcode : Opcode}
    (defined : Opcode.define pattern format = .ok opcode) {letter : Letter}
    (member : .field letter ∈ opcode.operands.flatMap Operand.slots) :
    ∃ field, opcode.field? letter = some field := by
  obtain ⟨operand, taken, place⟩ := List.mem_flatMap.mp member
  refine (laidOut_of_define defined).exists_field operand taken letter ?_
  cases operand with
  | address => cases List.mem_singleton.mp place
  | indirectAddress => cases List.mem_singleton.mp place
  | _ => simpa [Operand.slots] using place

/-- A definition that is accepted reads its own format. Its operands are those that the format
writes. Filled in, with digits for the letters of registers and numbers within bounds for
the others, they are the arguments of an instruction that the opcode accepts. The word that is
composed is the base with every number in its place: in the field of its letter, or in the low
bits for an address. If no address has a bit that the opcode fixes to zero, then this is the
word of the instruction, and otherwise the assertion about it fails. -/
theorem definition_reads_own_format (pattern format : String) (opcode : Opcode)
    (defined : Opcode.define pattern format = .ok opcode) :
    opcode.mnemonic = String.ofList (Format.split format).1 ∧
    opcode.operands.map Operand.token = Format.tokens (Format.split format).2 ∧
    ∀ fillings : List (String × List (Slot × Int)),
      List.Forall₂
        (fun operand filling => OperandPart.Filled operand.parts filling.1.toList filling.2)
        opcode.operands fillings →
      ∀ (symbols : SymbolTable) (place : Place),
        let instruction : Instruction := ⟨opcode.mnemonic, fillings.map Prod.fst, place⟩
        let pieces := fillings.flatMap Prod.snd
        opcode.accepts instruction = true ∧
        ((∀ value, (Slot.address, value) ∈ pieces →
            BitVec.ofInt 32 value &&& opcode.zeros = 0#32) →
          opcode.encode symbols instruction = .ok (opcode.combine opcode.base pieces)) ∧
        ((∃ value, (Slot.address, value) ∈ pieces ∧
            BitVec.ofInt 32 value &&& opcode.zeros ≠ 0#32) →
          opcode.encode symbols instruction = .error .assertion) ∧
        pieces.map Prod.fst = opcode.operands.flatMap Operand.slots ∧
        (∀ letter value, (Slot.field letter, value) ∈ pieces → ∃ field,
          opcode.field? letter = some field ∧
          opcode.putIn (.field letter) value = field.pack value) ∧
        ∀ value, (Slot.address, value) ∈ pieces →
          opcode.putIn .address value = BitVec.ofInt 32 value := by
  obtain ⟨cells, operands, -, -, -, -, read, -, made⟩ := exists_of_define defined
  refine ⟨by rw [made], by rw [made]; exact Format.map_token_of_operands read, ?_⟩
  intro fillings filled symbols place instruction pieces
  have reads : Operand.ReadsEach opcode.operands fillings :=
    filled.imp fun _ _ here => Operand.reads_of_filled here
  have composed := reads.compose_eq_ok symbols place
  refine ⟨reads.accepts_eq_true place, ?_, ?_, reads.map_slots, ?_, fun _ _ => rfl⟩
  · intro kept
    exact encode_eq_ok_iff.mpr ⟨composed, (matchesWord_combine_iff_addresses defined).mpr kept⟩
  · rintro ⟨value, member, overlaps⟩
    refine encode_eq_assertion_iff.mpr ⟨_, composed, ?_⟩
    rw [← Bool.not_eq_true, matchesWord_combine_iff_addresses defined]
    exact fun kept => overlaps (kept value member)
  · intro letter value member
    have among : .field letter ∈ opcode.operands.flatMap Operand.slots := by
      rw [← reads.map_slots]
      exact List.mem_map_of_mem member
    obtain ⟨field, found⟩ := exists_field_of_mem_slots defined among
    exact ⟨field, found, by rw [putIn, put, found]⟩

/-- A store with a sum of registers, filled in with digits in both cases and an offset in
hexadecimal. -/
theorem store_reads_own_format :
    let instruction : Instruction := ⟨"LD", ["[Ic+B2+0xF]", "NA"], default⟩
    ∃ opcode, Opcode.define "B3xyzn" "LD [Iy+Bz+n], Nx" = .ok opcode ∧
      opcode.operands.map Operand.token = ["[Iy+Bz+n]", "Nx"] ∧
      opcode.accepts instruction = true ∧
      opcode.encode {} instruction = .ok 0xB3AC2F#32 := by
  intro instruction
  have facts : (Opcode.define "B3xyzn" "LD [Iy+Bz+n], Nx").toOption.any (fun opcode =>
      decide (opcode.mnemonic = "LD" ∧ opcode.operands = [.indexedSum .y .z, .register .n .x] ∧
        opcode.combine opcode.base [(.field .y, 12), (.field .z, 2), (.field .n, 15),
          (.field .x, 10)] = 0xB3AC2F#32)) = true := by
    decide +kernel
  obtain ⟨opcode, given, holds⟩ := (Option.any_eq_true _ _).mp facts
  obtain ⟨mnemonic, operands, word⟩ := of_decide_eq_true holds
  have defined := toOption_eq_some_iff.mp given
  obtain ⟨-, tokens, reads⟩ := definition_reads_own_format _ _ opcode defined
  have filled : List.Forall₂
      (fun operand filling => OperandPart.Filled operand.parts filling.1.toList filling.2)
      opcode.operands [("[Ic+B2+0xF]", [(.field .y, 12), (.field .z, 2), (.field .n, 15)]),
        ("NA", [(.field .x, 10)])] := by
    rw [operands]
    refine .cons ?_ (.cons ?_ .nil)
    · have index : Text.hexDigit? 'c' = some 12 := by decide
      have addend : Text.hexDigit? '2' = some 2 := by decide
      have offset : Text.number? "0xF" = some 15 := by decide
      exact .fixed (.fixed (.digit index (.fixed (.fixed (.digit addend (.fixed
        (.number offset (by decide) (.fixed .done))))))))
    · have digit : Text.hexDigit? 'A' = some 10 := by decide
      exact .fixed (.digit digit .done)
  obtain ⟨accepted, encodes, -⟩ := reads _ filled {} default
  have encoded := encodes (by simp)
  rw [mnemonic] at accepted encoded
  refine ⟨opcode, defined, ?_, accepted, encoded.trans (congrArg Except.ok word)⟩
  rw [tokens]
  decide +kernel

/-- A jump whose format is filled in with an address that overlaps the fixed last nibble. It is
accepted and has no word. -/
theorem jump_fails_on_own_format :
    let instruction : Instruction := ⟨"JMP", ["0x1234"], default⟩
    ∃ opcode, Opcode.define "10___0" "JMP addr" = .ok opcode ∧
      opcode.operands.map Operand.token = ["addr"] ∧
      List.Forall₂
        (fun operand filling => OperandPart.Filled operand.parts filling.1.toList filling.2)
        opcode.operands [("0x1234", [(Slot.address, 0x1234)])] ∧
      opcode.accepts instruction = true ∧
      opcode.combine opcode.base [(.address, 0x1234)] = 0x101234#32 ∧
      opcode.encode {} instruction ≠ .ok 0x101234#32 ∧
      opcode.encode {} instruction = .error .assertion := by
  intro instruction
  have facts : (Opcode.define "10___0" "JMP addr").toOption.any (fun opcode =>
      decide (opcode.operands = [.address] ∧ opcode.accepts instruction = true ∧
        opcode.combine opcode.base [(.address, 0x1234)] = 0x101234#32) &&
      decide (opcode.encode {} instruction = .error .assertion)) = true := by
    decide +kernel
  obtain ⟨opcode, given, holds⟩ := (Option.any_eq_true _ _).mp facts
  obtain ⟨shape, failure⟩ := Bool.and_eq_true_iff.mp holds
  obtain ⟨operands, accepted, word⟩ := of_decide_eq_true shape
  have failed := of_decide_eq_true failure
  refine ⟨opcode, toOption_eq_some_iff.mp given, ?_, ?_, accepted, word, ?_, failed⟩
  · rw [operands]
    rfl
  · rw [operands]
    have address : Text.number? "0x1234" = some 0x1234 := by decide
    exact .cons (.number address (by decide) .done) .nil
  · rw [failed]
    exact nofun

end Opcode

end ChipAsm
