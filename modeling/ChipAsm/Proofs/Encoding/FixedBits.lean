/-
# The fixed bits of words

Words of a defined opcode have 24 bits. The numbers of registers, bytes and offsets go into
the fields of the opcode, which do not meet its fixed nibbles, so they leave these as they
are. Addresses do not go into a field: they are added to the low 16 bits, whatever the
pattern has there. A word that is composed thus has the fixed nibbles of its opcode exactly if
no address of the instruction has a bit that the opcode fixes to zero. Otherwise the assertion
of the encoder fails.

It follows which definitions are safe, in that the assertion holds for every accepted
instruction: those without an address, and those that fix none of the four low nibbles to a
digit other than `F`.
-/

import ChipAsm.Proofs.Encoding.Acceptance
import ChipAsm.Proofs.Encoding.Reading
import ChipAsm.Proofs.Opcode.Layout
import Mathlib.Algebra.Group.Nat.Defs

namespace ChipAsm

/-! ## Words bit by bit -/

namespace Word

/-- What is added to the fixed bits leaves them as they are exactly if it has no bit that is
fixed to zero. -/
theorem or_and_eq_left_iff {base mask : Word} (inside : base &&& ~~~mask = 0#32) (other : Word) :
    (base ||| other) &&& mask = base ↔ other &&& (mask &&& ~~~base) = 0#32 := by
  have bitwise : ∀ b m o : Bool, (b && !m) = false →
      (((b || o) && m) = b ↔ (o && (m && !b)) = false) := by decide
  rw [BitVec.eq_of_getLsbD_eq_iff, BitVec.eq_of_getLsbD_eq_iff]
  apply forall₂_congr
  intro index within
  have bit := congrArg (·.getLsbD index) inside
  simp only [BitVec.getLsbD_and, BitVec.getLsbD_or, BitVec.getLsbD_not, BitVec.getLsbD_zero,
    decide_eq_true within, Bool.true_and] at bit ⊢
  exact bitwise _ _ _ bit

/-- An address that is in range has 16 bits. -/
theorem toNat_address_lt {address : Int} (bounds : 0 ≤ address ∧ address ≤ 0xFFFF) :
    (BitVec.ofInt 32 address).toNat < 2 ^ 16 := by
  rw [BitVec.toNat_ofInt]
  omega

/-- Addresses have no bit in common with a word whose low 16 bits are not set. -/
theorem address_and_eq_zero {word : Word} (unset : ∀ bit < 16, word.getLsbD bit = false)
    {address : Int} (bounds : 0 ≤ address ∧ address ≤ 0xFFFF) :
    BitVec.ofInt 32 address &&& word = 0#32 := by
  rw [BitVec.eq_of_getLsbD_eq_iff]
  intro bit _
  rw [BitVec.getLsbD_and, BitVec.getLsbD_zero]
  by_cases low : bit < 16
  · rw [unset bit low, Bool.and_false]
  · have small : (BitVec.ofInt 32 address).toNat < 2 ^ bit :=
      Nat.lt_of_lt_of_le (toNat_address_lt bounds)
        (Nat.pow_le_pow_right (by decide) (Nat.not_lt.mp low))
    rw [BitVec.getLsbD, Nat.testBit_lt_two_pow small, Bool.false_and]

/-- The greatest address tells whether any of the low 16 bits is set. -/
theorem unset_of_address_and_eq_zero {word : Word}
    (blank : BitVec.ofInt 32 0xFFFF &&& word = 0#32) : ∀ bit < 16, word.getLsbD bit = false := by
  intro bit low
  have set : ∀ bit < 16, (BitVec.ofInt 32 0xFFFF).getLsbD bit = true := by decide
  have unset := congrArg (·.getLsbD bit) blank
  simpa only [BitVec.getLsbD_and, set bit low, Bool.true_and, BitVec.getLsbD_zero] using unset

end Word

/-! ## The pieces of a word -/

namespace Opcode

variable {opcode : Opcode} {symbols : SymbolTable} {instruction : Instruction} {word : Word}
  {pieces : List (Slot × Int)}

/-- A word is composed of what the arguments supply. -/
theorem exists_fills_of_compose (given : opcode.compose symbols instruction = .ok word) :
    ∃ pieces, opcode.evaluate symbols instruction = .ok pieces ∧ opcode.Fills pieces.flatten ∧
      opcode.combine opcode.base pieces.flatten = word := by
  obtain ⟨count, pieces, evaluated, composed⟩ := compose_eq_ok_iff.mp given
  have supplied := (mapM_eq_ok_iff.mp evaluated).imp fun _ _ => Operand.supplies_of_evaluate
  have covered := List.map_fst_zip (Nat.le_of_eq count.symm)
  exact ⟨pieces, evaluated, fills_of_supplies supplied covered, composed⟩

/-- A composed word has no more bits than the word and the pieces. -/
theorem toNat_combine_lt {width : Nat} (small : word.toNat < 2 ^ width)
    (each : ∀ piece ∈ pieces, (opcode.putIn piece.1 piece.2).toNat < 2 ^ width) :
    (opcode.combine word pieces).toNat < 2 ^ width := by
  induction pieces generalizing word with
  | nil => exact small
  | cons piece rest ih =>
      obtain ⟨first, others⟩ := List.forall_mem_cons.mp each
      rw [combine_cons]
      apply ih _ others
      rw [BitVec.toNat_or]
      exact Nat.or_lt_two_pow small first

/-- A mask selects nothing of a composed word exactly if it selects nothing of the word and
of the pieces. -/
theorem combine_and_eq_zero_iff {mask : Word} :
    opcode.combine word pieces &&& mask = 0#32 ↔
      word &&& mask = 0#32 ∧ ∀ piece ∈ pieces, opcode.putIn piece.1 piece.2 &&& mask = 0#32 := by
  induction pieces generalizing word with
  | nil => simp
  | cons piece rest ih =>
      rw [combine_cons, ih, List.forall_mem_cons, ← and_assoc, BitVec.and_or_distrib_right,
        BitVec.or_eq_zero_iff]

/-- The bits that the opcode fixes to zero. -/
def zeros (opcode : Opcode) : Word :=
  opcode.mask &&& ~~~opcode.base

/-- A composed word has the fixed bits exactly if no piece has a bit that is fixed to zero. -/
theorem matchesWord_combine_iff (inside : opcode.base &&& ~~~opcode.mask = 0#32) :
    opcode.matchesWord (opcode.combine opcode.base pieces) = true ↔
      ∀ piece ∈ pieces, opcode.putIn piece.1 piece.2 &&& opcode.zeros = 0#32 := by
  have added : opcode.combine opcode.base pieces = opcode.base ||| opcode.combine 0#32 pieces := by
    rw [or_combine, BitVec.or_zero]
  rw [matchesWord, beq_iff_eq, added, Word.or_and_eq_left_iff inside, ← zeros,
    combine_and_eq_zero_iff, BitVec.zero_and]
  exact and_iff_right rfl

/-- A number that goes into a field has at most 24 bits, and none that are fixed. -/
theorem putIn_field_of_define {pattern format : String}
    (defined : Opcode.define pattern format = .ok opcode) (letter : Letter) (value : Int) :
    (opcode.putIn (.field letter) value).toNat < 2 ^ 24 ∧
      opcode.putIn (.field letter) value &&& opcode.mask = 0#32 := by
  rw [putIn, put]
  cases found : opcode.field? letter with
  | none => exact ⟨Nat.two_pow_pos 24, BitVec.zero_and⟩
  | some field =>
      have member : field ∈ opcode.fields := List.mem_of_find?_eq_some found
      exact ⟨(fits_of_define defined member).toNat_pack_lt value,
        (laidOut_of_define defined).pack_and_mask field member value⟩

/-- A composed word of a defined opcode has the fixed bits exactly if no address among the
pieces has a bit that is fixed to zero. -/
theorem matchesWord_combine_iff_addresses {pattern format : String}
    (defined : Opcode.define pattern format = .ok opcode) :
    opcode.matchesWord (opcode.combine opcode.base pieces) = true ↔
      ∀ value, (Slot.address, value) ∈ pieces →
        BitVec.ofInt 32 value &&& opcode.zeros = 0#32 := by
  rw [matchesWord_combine_iff (laidOut_of_define defined).base_and_not_mask]
  constructor
  · intro kept value member
    exact kept (.address, value) member
  · rintro kept ⟨slot, value⟩ member
    cases slot with
    | field letter =>
        rw [zeros, ← BitVec.and_assoc, (putIn_field_of_define defined letter value).2,
          BitVec.zero_and]
    | address => exact kept value member

/-- The words that a defined opcode composes have 24 bits. -/
theorem toNat_lt_of_compose {pattern format : String}
    (defined : Opcode.define pattern format = .ok opcode)
    (composed : opcode.compose symbols instruction = .ok word) : word.toNat < 2 ^ 24 := by
  obtain ⟨pieces, -, fills, rfl⟩ := exists_fills_of_compose composed
  apply toNat_combine_lt (laidOut_of_define defined).base_lt
  rintro ⟨slot, value⟩ member
  cases slot with
  | field letter => exact (putIn_field_of_define defined letter value).1
  | address =>
      exact Nat.lt_trans (Word.toNat_address_lt (fills.bounded value member)) (by decide)

/-- A definition that is accepted makes an opcode that is laid out as its pattern says: one
field for each letter, in the nibbles marked with it, apart from each other and from the
fixed nibbles, so that packing a number changes no other part of a word. All words that it
composes have 24 bits, whether or not the assertion about them holds. -/
theorem definition_gives_layout (pattern format : String) (opcode : Opcode)
    (defined : Opcode.define pattern format = .ok opcode) :
    opcode.LaidOut pattern ∧
      (∀ symbols instruction word, opcode.compose symbols instruction = .ok word →
        word.toNat < 2 ^ 24) ∧
      ∀ symbols instruction word, opcode.encode symbols instruction = .ok word →
        word.toNat < 2 ^ 24 := by
  refine ⟨laidOut_of_define defined, fun _ _ _ => toNat_lt_of_compose defined, ?_⟩
  intro symbols instruction word encoded
  exact toNat_lt_of_compose defined (encode_eq_ok_iff.mp encoded).1

/-- A field of three nibbles in which a negative number sets every bit. -/
theorem layout_of_wide_field :
    ∃ opcode, Opcode.define "F0xnnn" "LD Nx, n" = .ok opcode ∧ opcode.LaidOut "F0xnnn" ∧
      opcode.encode {} ⟨"LD", ["N3", "-1"], default⟩ = .ok 0xF03FFF#32 ∧
      (0xF03FFF#32 : Word).toNat < 2 ^ 24 := by
  have facts : (Opcode.define "F0xnnn" "LD Nx, n").toOption.any (fun opcode =>
      decide ((opcode.encode {} ⟨"LD", ["N3", "-1"], default⟩).toOption = some 0xF03FFF#32)) =
        true := by
    decide +kernel
  obtain ⟨opcode, given, holds⟩ := (Option.any_eq_true _ _).mp facts
  have defined := toOption_eq_some_iff.mp given
  have encoded := toOption_eq_some_iff.mp (of_decide_eq_true holds)
  obtain ⟨laidOut, -, small⟩ := definition_gives_layout "F0xnnn" "LD Nx, n" opcode defined
  exact ⟨opcode, defined, laidOut, encoded, small {} _ _ encoded⟩

end Opcode

/-! ## Addresses -/

namespace Operand

/-- Whether the operand takes an address. -/
def isAddress (operand : Operand) : Bool :=
  operand.slots.contains .address

/-- The address that an argument has for the operand, if it takes one. -/
def address? (symbols : SymbolTable) : Operand → String → Option Int
  | address, argument => Argument.address? symbols argument
  | indirectAddress, argument => (Argument.bracketed? argument).bind (Argument.address? symbols)
  | _, _ => none

/-- The addresses that an argument supplies are those it has. -/
theorem address_mem_iff {symbols : SymbolTable} {mismatch : Fault} {operand : Operand}
    {argument : String} {pieces : List (Slot × Int)}
    (evaluated : operand.evaluate symbols mismatch argument = .ok pieces) (value : Int) :
    (Slot.address, value) ∈ pieces ↔ operand.address? symbols argument = some value := by
  have places := (supplies_of_evaluate evaluated).places
  cases operand with
  | address =>
      obtain ⟨number, found, ⟨⟩⟩ := bind_eq_ok_iff.mp evaluated
      rw [address?, (Argument.addressValue_eq_ok_iff.mp found).1]
      simp [eq_comm]
  | indirectAddress =>
      obtain ⟨inner, between, checked⟩ := bind_eq_ok_iff.mp evaluated
      obtain ⟨number, found, ⟨⟩⟩ := bind_eq_ok_iff.mp checked
      rw [address?, demand_eq_ok_iff.mp between, Option.bind_some,
        (Argument.addressValue_eq_ok_iff.mp found).1]
      simp [eq_comm]
  | _ =>
      -- The places of all other operands are fields.
      have absent : (Slot.address, value) ∉ pieces := by
        intro member
        have among := List.mem_map_of_mem (f := Prod.fst) member
        rw [places] at among
        simp [slots] at among
      simp [address?, absent]

end Operand

namespace Opcode

/-- The addresses of an instruction. -/
def addresses (opcode : Opcode) (symbols : SymbolTable) (instruction : Instruction) : List Int :=
  (opcode.pairs instruction).filterMap fun pair => pair.1.address? symbols pair.2

variable {opcode : Opcode} {symbols : SymbolTable} {instruction : Instruction} {word : Word}

/-- The addresses among the pieces of a word are those of the instruction. -/
theorem address_mem_flatten_iff {pieces : List (List (Slot × Int))}
    (evaluated : opcode.evaluate symbols instruction = .ok pieces) (value : Int) :
    (Slot.address, value) ∈ pieces.flatten ↔ value ∈ opcode.addresses symbols instruction := by
  rw [evaluate, mapM_eq_ok_iff] at evaluated
  rw [addresses, pairs]
  generalize opcode.operands.zip _ = pairs at evaluated
  induction evaluated with
  | nil => simp
  | cons first _ ih =>
      rw [List.flatten_cons, List.mem_append, Operand.address_mem_iff first, ih,
        List.mem_filterMap, List.mem_filterMap, List.exists_mem_cons_iff]

/-- The addresses of an instruction that can be read are in range, and there are none without
an operand that takes one. -/
theorem of_mem_addresses (composed : opcode.compose symbols instruction = .ok word) {address : Int}
    (member : address ∈ opcode.addresses symbols instruction) :
    (0 ≤ address ∧ address ≤ 0xFFFF) ∧ ∃ operand ∈ opcode.operands, operand.isAddress = true := by
  obtain ⟨pieces, evaluated, fills, -⟩ := exists_fills_of_compose composed
  have among := (address_mem_flatten_iff evaluated address).mpr member
  refine ⟨fills.bounded address among, ?_⟩
  have place : Slot.address ∈ opcode.slots := by
    rw [← fills.places]
    exact List.mem_map_of_mem among
  obtain ⟨operand, isOperand, takes⟩ := List.mem_flatMap.mp place
  exact ⟨operand, isOperand, List.contains_iff_mem.mpr takes⟩

/-- A word that a defined opcode composes has the fixed bits exactly if no address of the
instruction has a bit that is fixed to zero. -/
theorem matchesWord_iff_addresses {pattern format : String}
    (defined : Opcode.define pattern format = .ok opcode)
    (composed : opcode.compose symbols instruction = .ok word) :
    opcode.matchesWord word = true ↔
      ∀ address ∈ opcode.addresses symbols instruction,
        BitVec.ofInt 32 address &&& opcode.zeros = 0#32 := by
  obtain ⟨pieces, evaluated, -, rfl⟩ := exists_fills_of_compose composed
  rw [matchesWord_combine_iff_addresses defined]
  exact forall_congr' fun value => imp_congr_left (address_mem_flatten_iff evaluated value)

/-- The assertion fails for an accepted instruction exactly if no operand refuses its argument
and some address has a bit that is fixed to zero. -/
theorem encode_eq_assertion_iff_addresses {pattern format : String}
    (defined : Opcode.define pattern format = .ok opcode)
    (accepted : opcode.accepts instruction = true) :
    opcode.encode symbols instruction = .error .assertion ↔
      (∀ pair ∈ opcode.pairs instruction, ∀ fault, ¬ pair.1.Refuses symbols pair.2 fault) ∧
      ∃ address ∈ opcode.addresses symbols instruction,
        BitVec.ofInt 32 address &&& opcode.zeros ≠ 0#32 := by
  rw [encode_eq_assertion_iff]
  cases outcome : opcode.compose symbols instruction with
  | error fault =>
      obtain ⟨pair, member, reason, refuses⟩ :=
        (exists_compose_eq_error_iff accepted).mp ⟨fault, outcome⟩
      apply iff_of_false
      · rintro ⟨word, ⟨⟩, -⟩
      · rintro ⟨harmless, -⟩
        exact harmless pair member reason refuses
  | ok word =>
      have harmless : ∀ pair ∈ opcode.pairs instruction, ∀ fault,
          ¬ pair.1.Refuses symbols pair.2 fault := by
        intro pair member fault refuses
        obtain ⟨reason, refused⟩ :=
          (exists_compose_eq_error_iff accepted).mpr ⟨pair, member, fault, refuses⟩
        cases refused.symm.trans outcome
      have lost : opcode.matchesWord word = false ↔
          ∃ address ∈ opcode.addresses symbols instruction,
            BitVec.ofInt 32 address &&& opcode.zeros ≠ 0#32 := by
        rw [← Bool.not_eq_true, matchesWord_iff_addresses defined outcome]
        simp only [not_forall, exists_prop, ne_eq]
      rw [and_iff_right harmless, ← lost]
      simp

end Opcode

/-! ## Definitions that keep the fixed bits -/

/-- The pattern fixes none of the four low nibbles to a digit other than `F`. -/
def Pattern.AdmitsAddresses (pattern : String) : Prop :=
  ∀ index < 4, ∀ c digit, mark? pattern index = some c → Text.hexDigit? c = some digit →
    digit.val = 15

/-- An argument that suits the operands of the kind and is never refused. An address has all
its bits set. -/
def OperandKind.sample : OperandKind → String
  | immediate => "0"
  | address => "0xFFFF"
  | indirectAddress => "[0xFFFF]"
  | register bank => String.ofList [bank.char, '0']
  | selected bank => String.ofList [bank.char, '(', 'N', '0', ')']
  | stackPointer => "SP"
  | indexed => "[I0]"
  | indexedOffset => "[I0]"
  | indexedSum => "[I0+B0]"
  | soundTimer => "ST"
  | delayTimer => "DT"

theorem OperandKind.accepts_sample (kind : OperandKind) : kind.accepts kind.sample = true := by
  cases kind with
  | register bank => cases bank <;> decide +kernel
  | selected bank => cases bank <;> decide +kernel
  | _ => decide +kernel

namespace Operand

theorem number?_sample : Text.number? "0xFFFF" = some 0xFFFF := by decide +kernel

theorem bracketed?_sample : Argument.bracketed? "[0xFFFF]" = some "0xFFFF" := by decide +kernel

theorem not_refuses_sample (symbols : SymbolTable) (operand : Operand) (fault : Fault) :
    ¬ operand.Refuses symbols operand.kind.sample fault := by
  have harmless : ¬ Argument.AddressFault symbols "0xFFFF" fault := by
    rintro (⟨noNumber, _⟩ | ⟨same, far⟩)
    · cases noNumber.symm.trans number?_sample
    · cases same.symm.trans number?_sample
      exact far (by decide)
  intro refuses
  cases refuses with
  | address refused => exact harmless refused
  | indirectAddress enclosed refused =>
      cases enclosed.symm.trans bracketed?_sample
      exact harmless refused
  | indexedOffset spelled written refused =>
      have plain : Argument.indexed? "[I0]" = some ⟨0, none, none⟩ := by decide +kernel
      cases spelled.symm.trans plain
      cases written
  | indexedSum spelled written refused =>
      have sum : Argument.indexed? "[I0+B0]" = some ⟨0, some 0, none⟩ := by decide +kernel
      cases spelled.symm.trans sum
      cases written

theorem address?_sample (symbols : SymbolTable) {operand : Operand}
    (takes : operand.isAddress = true) :
    operand.address? symbols operand.kind.sample = some 0xFFFF := by
  cases operand with
  | address =>
      show Argument.address? symbols "0xFFFF" = some 0xFFFF
      rw [Argument.address?, number?_sample]
  | indirectAddress =>
      show (Argument.bracketed? "[0xFFFF]").bind (Argument.address? symbols) = some 0xFFFF
      rw [bracketed?_sample, Option.bind_some, Argument.address?, number?_sample]
  | _ => simp [isAddress, slots] at takes

end Operand

namespace Opcode

variable {opcode : Opcode}

/-- The instruction of the opcode that has the samples for arguments. -/
def sample (opcode : Opcode) : Instruction :=
  ⟨opcode.mnemonic, opcode.operands.map fun operand => operand.kind.sample, default⟩

theorem normalize_of_length {arguments : List String}
    (count : arguments.length = opcode.operands.length) :
    opcode.normalize arguments = arguments := by
  unfold normalize
  split
  · next first second =>
      rw [if_neg]
      intro three
      rw [three] at count
      cases count
  · rfl

theorem pairs_sample (opcode : Opcode) :
    opcode.pairs opcode.sample =
      opcode.operands.map fun operand => (operand, operand.kind.sample) := by
  rw [pairs, sample, normalize_of_length (List.length_map ..), List.map_prod_left_eq_zip]

theorem accepts_sample (opcode : Opcode) : opcode.accepts opcode.sample = true := by
  have count : opcode.sample.arguments.length = opcode.operands.length := List.length_map ..
  rw [accepts_iff, normalize_of_length count, pairs_sample]
  refine ⟨rfl, count, ?_⟩
  intro pair member
  obtain ⟨operand, -, rfl⟩ := List.mem_map.mp member
  exact operand.kind.accepts_sample

/-- No operand refuses its sample. -/
theorem not_refuses_of_mem_pairs_sample (opcode : Opcode) (symbols : SymbolTable) :
    ∀ pair ∈ opcode.pairs opcode.sample, ∀ fault, ¬ pair.1.Refuses symbols pair.2 fault := by
  rw [pairs_sample]
  intro pair member fault
  obtain ⟨operand, -, rfl⟩ := List.mem_map.mp member
  exact operand.not_refuses_sample symbols fault

/-- An opcode that takes an address has the address of the sample. -/
theorem mem_addresses_sample (opcode : Opcode) (symbols : SymbolTable) {operand : Operand}
    (member : operand ∈ opcode.operands) (takes : operand.isAddress = true) :
    0xFFFF ∈ opcode.addresses symbols opcode.sample := by
  rw [addresses, pairs_sample, List.mem_filterMap]
  exact ⟨_, List.mem_map_of_mem member, Operand.address?_sample symbols takes⟩

/-- A pattern admits addresses exactly if it fixes none of the low 16 bits to zero. -/
theorem LaidOut.admitsAddresses_iff {pattern : String} (laidOut : opcode.LaidOut pattern) :
    Pattern.AdmitsAddresses pattern ↔ ∀ bit < 16, opcode.zeros.getLsbD bit = false := by
  have zeros_bit : ∀ bit < 16, opcode.zeros.getLsbD bit =
      (opcode.mask.getLsbD bit && !opcode.base.getLsbD bit) := by
    intro bit low
    rw [zeros, BitVec.getLsbD_and, BitVec.getLsbD_not, decide_eq_true (by omega : bit < 32),
      Bool.true_and]
  constructor
  · intro admits bit low
    rw [zeros_bit bit low, Word.getLsbD_eq_testBit_nibble opcode.base,
      Word.getLsbD_eq_testBit_nibble opcode.mask]
    rcases Pattern.digit_or_none pattern (bit / 4) with ⟨c, digit, mark, known⟩ | unmarked
    · obtain rfl : digit = 15 := Fin.ext (admits (bit / 4) (by omega) c digit mark known)
      obtain ⟨ones, isDigit⟩ := laidOut.fixed _ c 15 mark known
      have set : Nat.testBit 15 (bit % 4) = true :=
        Word.testBit_fifteen (Nat.mod_lt bit (by decide))
      rw [ones, isDigit]
      exact set.symm ▸ rfl
    · rw [laidOut.free _ unmarked, Nat.zero_testBit, Bool.false_and]
  · intro unset index low c digit mark known
    have ones : ∀ digit : Fin 16, (∀ bit < 4, digit.val.testBit bit = true) → digit.val = 15 := by
      decide
    apply ones
    intro bit within
    obtain ⟨fixed, isDigit⟩ := laidOut.fixed index c digit mark known
    have zero := unset (4 * index + bit) (by omega)
    have maskBit := Word.testBit_nibble opcode.mask index bit
    have baseBit := Word.testBit_nibble opcode.base index bit
    rw [fixed, Word.testBit_fifteen within, decide_eq_true within, Bool.true_and] at maskBit
    rw [isDigit, decide_eq_true within, Bool.true_and] at baseBit
    rw [zeros_bit _ (by omega), ← maskBit, ← baseBit, Bool.true_and] at zero
    simpa using zero

/-- The assertion holds for all accepted instructions exactly if the opcode takes no address or
its pattern admits addresses. -/
theorem asserted_iff_admits {pattern format : String}
    (defined : Opcode.define pattern format = .ok opcode) :
    (∀ symbols instruction, opcode.accepts instruction = true →
        opcode.encode symbols instruction ≠ .error .assertion) ↔
      (∀ operand ∈ opcode.operands, operand.isAddress = false) ∨
        Pattern.AdmitsAddresses pattern := by
  have laidOut := laidOut_of_define defined
  constructor
  · intro asserted
    by_cases plain : ∀ operand ∈ opcode.operands, operand.isAddress = false
    · exact .inl plain
    · right
      simp only [not_forall, Bool.not_eq_false] at plain
      obtain ⟨operand, member, takes⟩ := plain
      -- The sample has the address whose bits are all set, so nothing fixed to zero escapes it.
      have sampled := opcode.mem_addresses_sample {} member takes
      have safe : BitVec.ofInt 32 0xFFFF &&& opcode.zeros = 0#32 := by
        by_contra lost
        exact asserted {} opcode.sample opcode.accepts_sample
          ((encode_eq_assertion_iff_addresses defined opcode.accepts_sample).mpr
            ⟨opcode.not_refuses_of_mem_pairs_sample {}, 0xFFFF, sampled, lost⟩)
      exact laidOut.admitsAddresses_iff.mpr (Word.unset_of_address_and_eq_zero safe)
  · rintro harmless symbols instruction - failed
    obtain ⟨word, composed, lost⟩ := encode_eq_assertion_iff.mp failed
    refine Bool.noConfusion (lost.symm.trans ((matchesWord_iff_addresses defined composed).mpr ?_))
    intro address member
    obtain ⟨bounds, operand, isOperand, takes⟩ := of_mem_addresses composed member
    rcases harmless with plain | admits
    · cases takes.symm.trans (plain operand isOperand)
    · exact Word.address_and_eq_zero (laidOut.admitsAddresses_iff.mp admits) bounds

/-- A word that is returned has the fixed bits of its opcode, for the encoder asserts it. The
assertion fails for an accepted instruction exactly if no operand refuses its argument and some
address has a bit that the opcode fixes to zero. So it holds for all accepted instructions
exactly if the opcode takes no address, or fixes none of the four low nibbles to a digit other
than `F`. -/
theorem fixed_bits_kept_iff (pattern format : String) (opcode : Opcode)
    (defined : Opcode.define pattern format = .ok opcode) :
    (∀ symbols instruction word, opcode.encode symbols instruction = .ok word →
      opcode.matchesWord word = true) ∧
    (∀ symbols instruction, opcode.accepts instruction = true →
      (opcode.encode symbols instruction = .error .assertion ↔
        (∀ pair ∈ opcode.pairs instruction, ∀ fault, ¬ pair.1.Refuses symbols pair.2 fault) ∧
        ∃ address ∈ opcode.addresses symbols instruction,
          BitVec.ofInt 32 address &&& opcode.zeros ≠ 0#32)) ∧
    ((∀ symbols instruction, opcode.accepts instruction = true →
        opcode.encode symbols instruction ≠ .error .assertion) ↔
      (∀ operand ∈ opcode.operands, operand.isAddress = false) ∨
        Pattern.AdmitsAddresses pattern) := by
  refine ⟨?_, ?_, asserted_iff_admits defined⟩
  · intro symbols instruction word encoded
    exact (encode_eq_ok_iff.mp encoded).2
  · intro symbols instruction accepted
    exact encode_eq_assertion_iff_addresses defined accepted

/-- Addresses in a nibble that is fixed to `8`: one that has just this bit there, and one that
has another. -/
theorem fixed_bits_kept_in_nibble :
    let fitting : Instruction := ⟨"LD", ["N3", "0x1238"], default⟩
    let other : Instruction := ⟨"LD", ["N3", "0x1234"], default⟩
    ∃ opcode, Opcode.define "1x___8" "LD Nx, addr" = .ok opcode ∧
      opcode.encode {} fitting = .ok 0x131238#32 ∧ opcode.matchesWord 0x131238#32 = true ∧
      opcode.accepts other = true ∧ opcode.encode {} other = .error .assertion ∧
      ∃ address ∈ opcode.addresses {} other, BitVec.ofInt 32 address &&& opcode.zeros ≠ 0#32 := by
  intro fitting other
  have facts : (Opcode.define "1x___8" "LD Nx, addr").toOption.any (fun opcode =>
      decide (opcode.encode {} fitting = .ok 0x131238#32) &&
        decide (opcode.accepts other = true ∧ opcode.encode {} other = .error .assertion)) =
          true := by
    decide +kernel
  obtain ⟨opcode, given, holds⟩ := (Option.any_eq_true _ _).mp facts
  obtain ⟨word, more⟩ := Bool.and_eq_true_iff.mp holds
  obtain ⟨accepted, failed⟩ := of_decide_eq_true more
  have defined := toOption_eq_some_iff.mp given
  have encoded := of_decide_eq_true word
  obtain ⟨kept, fails, -⟩ := fixed_bits_kept_iff _ _ opcode defined
  exact ⟨opcode, defined, encoded, kept {} _ _ encoded, accepted, failed,
    ((fails {} other accepted).mp failed).2⟩

/-- A definition whose last nibble is fixed to zero, and an accepted instruction that sets a
bit of it: the assertion fails. -/
theorem address_overwrites_fixed_nibble :
    ∃ opcode, Opcode.define "10___0" "JMP addr" = .ok opcode ∧
      opcode.accepts ⟨"JMP", ["0x1234"], default⟩ = true ∧
      opcode.compose {} ⟨"JMP", ["0x1234"], default⟩ = .ok 0x101234#32 ∧
      opcode.matchesWord 0x101234#32 = false ∧
      opcode.encode {} ⟨"JMP", ["0x1234"], default⟩ = .error .assertion := by
  have facts : (Opcode.define "10___0" "JMP addr").toOption.any (fun opcode =>
      decide ((opcode.compose {} ⟨"JMP", ["0x1234"], default⟩).toOption = some 0x101234#32) &&
      decide (opcode.accepts ⟨"JMP", ["0x1234"], default⟩ = true ∧
        opcode.matchesWord 0x101234#32 = false)) = true := by
    decide +kernel
  obtain ⟨opcode, given, holds⟩ := (Option.any_eq_true _ _).mp facts
  obtain ⟨word, more⟩ := Bool.and_eq_true_iff.mp holds
  obtain ⟨accepted, unmatched⟩ := of_decide_eq_true more
  have composed := toOption_eq_some_iff.mp (of_decide_eq_true word)
  exact ⟨opcode, toOption_eq_some_iff.mp given, accepted, composed, unmatched,
    encode_eq_assertion_iff.mpr ⟨_, composed, unmatched⟩⟩

end Opcode

end ChipAsm
