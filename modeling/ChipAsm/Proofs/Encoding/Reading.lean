/-
# Reading words

The pattern of an opcode says where in a word the numbers of the arguments are to be
found: in the nibbles that it marks with a letter, or for an address in the lowest four.
The encoder does not look at the pattern but at the fields made from it, and composes the
word by placing numbers in their spans.

The word can be taken apart again if the spans are where the pattern says, do not meet each
other or the fixed bits, and are wide enough for what the operands mean; an opcode like that
is called legible. Whether it is can be decided from its definition.

In a table of legible opcodes any two of which differ in a bit that both fix, the word
also tells which opcode encoded it. The assertion of the encoder holds throughout.
-/

import ChipAsm.Proofs.Encoding.Meaning
import ChipAsm.Proofs.Opcode.Span
import Mathlib.Tactic.MkIffOfInductiveProp

namespace ChipAsm

/-- The indices of the nibbles that the pattern marks with the letter. -/
def Pattern.nibblesOf (pattern : String) (letter : Letter) : List Nat :=
  (pattern.toList.zip [5, 4, 3, 2, 1, 0]).filterMap fun (mark, index) =>
    if mark = letter.char then some index else none

namespace Opcode

/-- The nibbles that a word of the opcode has for a place. -/
def nibbles (opcode : Opcode) : Slot → List Nat
  | .field letter => Pattern.nibblesOf opcode.pattern letter
  | .address => [3, 2, 1, 0]

/-- The numbers that a word has at the places of an operand. -/
def valuesIn (opcode : Opcode) (word : Word) (operand : Operand) : List Int :=
  operand.slots.map fun slot => (Word.numberAt word (opcode.nibbles slot) : Int)

/-- The bits of a place; there are none if the opcode has no field for it. -/
def span (opcode : Opcode) : Slot → Span
  | .field letter => ((opcode.field? letter).map Field.span).getD ⟨0, 0⟩
  | .address => ⟨0, 16⟩

/-- The places of all numbers of the opcode. -/
def slots (opcode : Opcode) : List Slot :=
  opcode.operands.flatMap Operand.slots

/-- Words of the opcode can be read. -/
@[mk_iff]
structure Legible (opcode : Opcode) : Prop where
  /-- The base has no bits outside the mask. -/
  fixed : opcode.base &&& opcode.mask = opcode.base
  /-- The values of a field are as wide as its nibbles. -/
  wide : ∀ field ∈ opcode.fields, 4 * field.nibbles ≤ min field.bits 32
  /-- The places are where the pattern has them. -/
  marked : ∀ slot ∈ opcode.slots, opcode.nibbles slot = (opcode.span slot).nibbles
  /-- The places can tell apart what they have to. -/
  capacities : ∀ operand ∈ opcode.operands,
    operand.slots.map (fun slot => (opcode.span slot).capacity) = operand.capacities
  /-- The places lie inside the word. -/
  inside : ∀ slot ∈ opcode.slots, (opcode.span slot).low + (opcode.span slot).width ≤ 32
  /-- The places do not meet the fixed bits. -/
  free : ∀ slot ∈ opcode.slots, (opcode.span slot).read opcode.mask = 0
  /-- The places do not meet each other. -/
  apart : opcode.slots.Pairwise fun first second => (opcode.span first).Apart (opcode.span second)

instance (opcode : Opcode) : Decidable opcode.Legible :=
  decidable_of_iff _ (legible_iff opcode).symm

theorem aligned_span (opcode : Opcode) (slot : Slot) : (opcode.span slot).Aligned := by
  cases slot with
  | field letter =>
      rw [span]
      cases opcode.field? letter with
      | none => exact ⟨Nat.dvd_zero _, Nat.dvd_zero _⟩
      | some field => exact field.aligned_span
  | address => exact ⟨Nat.dvd_zero 4, Nat.dvd_mul_right 4 4⟩

/-- Reading the nibbles of a place is reading its span. -/
theorem Legible.numberAt_nibbles {opcode : Opcode} (legible : opcode.Legible) {slot : Slot}
    (member : slot ∈ opcode.slots) (word : Word) :
    Word.numberAt word (opcode.nibbles slot) = (opcode.span slot).read word := by
  rw [legible.marked slot member]
  exact Span.numberAt_nibbles (opcode.aligned_span slot) word

/-- A number goes into the span of its place. -/
theorem putIn_eq_place {opcode : Opcode}
    (wide : ∀ field ∈ opcode.fields, 4 * field.nibbles ≤ min field.bits 32) {slot : Slot}
    {value : Int} (bounded : slot = .address → 0 ≤ value ∧ value ≤ 0xFFFF) :
    opcode.putIn slot value = (opcode.span slot).place value := by
  cases slot with
  | field letter =>
      rw [putIn, put, span]
      cases found : opcode.field? letter with
      | none => simp [Span.place, Span.capacity]
      | some field =>
          have member : field ∈ opcode.fields := List.mem_of_find?_eq_some found
          exact Field.pack_eq_place (wide field member) value
  | address =>
      have bounds := bounded rfl
      have cut : value % Span.capacity ⟨0, 16⟩ = value := address_emod bounds
      rw [putIn, span, Span.place, cut, Nat.shiftLeft_zero]
      obtain ⟨number, rfl⟩ := Int.eq_ofNat_of_zero_le bounds.1
      rw [BitVec.ofInt_natCast, Int.toNat_natCast]

section

variable {opcode : Opcode} {pieces : List (Slot × Int)}

/-- Pieces that a span does not see do not change what is read from it. -/
theorem read_combine_of_unseen {span : Span}
    (unseen : ∀ piece ∈ pieces, span.read (opcode.putIn piece.1 piece.2) = 0) (word : Word) :
    span.read (opcode.combine word pieces) = span.read word := by
  induction pieces generalizing word with
  | nil => rfl
  | cons piece rest ih =>
      obtain ⟨first, others⟩ := List.forall_mem_cons.mp unseen
      rw [combine_cons, ih others, Span.read_or, first, Nat.or_zero]

/-- Pieces that a mask does not select do not change what it selects. -/
theorem combine_and_of_unselected {mask : Word}
    (unselected : ∀ piece ∈ pieces, opcode.putIn piece.1 piece.2 &&& mask = 0#32) (word : Word) :
    opcode.combine word pieces &&& mask = word &&& mask := by
  induction pieces generalizing word with
  | nil => rfl
  | cons piece rest ih =>
      obtain ⟨first, others⟩ := List.forall_mem_cons.mp unselected
      rw [combine_cons, ih others, BitVec.and_comm, BitVec.and_or_distrib_left,
        BitVec.and_comm mask (opcode.putIn _ _), first, BitVec.or_zero, BitVec.and_comm]

end

/-- The pieces are what arguments can supply for the places of the opcode. -/
structure Fills (opcode : Opcode) (pieces : List (Slot × Int)) : Prop where
  places : pieces.map Prod.fst = opcode.slots
  bounded : ∀ value, (Slot.address, value) ∈ pieces → 0 ≤ value ∧ value ≤ 0xFFFF

namespace Legible

variable {opcode : Opcode} {pieces : List (Slot × Int)}

theorem putIn_eq (legible : opcode.Legible) (fills : opcode.Fills pieces) {piece : Slot × Int}
    (member : piece ∈ pieces) :
    opcode.putIn piece.1 piece.2 = (opcode.span piece.1).place piece.2 := by
  apply putIn_eq_place legible.wide
  intro isAddress
  exact fills.bounded piece.2 (isAddress ▸ member)

theorem mem_slots (fills : opcode.Fills pieces) {piece : Slot × Int} (member : piece ∈ pieces) :
    piece.1 ∈ opcode.slots :=
  fills.places ▸ List.mem_map_of_mem member

/-- The fixed bits of a composed word are those of the opcode. -/
theorem combine_and_mask (legible : opcode.Legible) (fills : opcode.Fills pieces) :
    opcode.combine opcode.base pieces &&& opcode.mask = opcode.base := by
  rw [combine_and_of_unselected ?_ opcode.base]
  · exact legible.fixed
  · intro piece member
    rw [legible.putIn_eq fills member]
    exact Span.place_and_eq_zero (legible.free _ (mem_slots fills member)) piece.2

/-- Every number is read back from the nibbles of its place, at the capacity of the place. -/
theorem numberAt_combine (legible : opcode.Legible) (fills : opcode.Fills pieces)
    {piece : Slot × Int} (member : piece ∈ pieces) :
    (Word.numberAt (opcode.combine opcode.base pieces) (opcode.nibbles piece.1) : Int) =
      piece.2 % (opcode.span piece.1).capacity := by
  rw [legible.numberAt_nibbles (mem_slots fills member)]
  have inside := legible.inside _ (mem_slots fills member)
  have free := legible.free _ (mem_slots fills member)
  obtain ⟨before, after, rfl⟩ := List.append_of_mem member
  -- The other pieces are at other places, which lie apart.
  have apart := legible.apart
  rw [← fills.places, List.pairwise_map, List.pairwise_append, List.pairwise_cons] at apart
  obtain ⟨-, ⟨later, -⟩, earlier⟩ := apart
  have unseen : ∀ other ∈ before ++ after,
      (opcode.span piece.1).read (opcode.putIn other.1 other.2) = 0 := by
    intro other among
    have whole : other ∈ before ++ piece :: after := by
      rw [List.mem_append] at among
      rw [List.mem_append, List.mem_cons]
      exact among.imp_right .inr
    rw [legible.putIn_eq fills whole]
    apply Span.read_place_of_apart
    rcases List.mem_append.mp among with inBefore | inAfter
    · exact (earlier other inBefore piece (List.mem_cons_self ..)).symm
    · exact later other inAfter
  obtain ⟨unseenBefore, unseenAfter⟩ := List.forall_mem_append.mp unseen
  have blank : (opcode.span piece.1).read opcode.base = 0 := by
    rw [← legible.fixed, Span.read_and, free, Nat.and_zero]
  rw [combine_append, combine_cons, read_combine_of_unseen unseenAfter, Span.read_or,
    read_combine_of_unseen unseenBefore, blank, Nat.zero_or, legible.putIn_eq fills member,
    Span.read_place inside]
  have positive := (opcode.span piece.1).capacity_pos
  exact Int.toNat_of_nonneg (Int.emod_nonneg _ (by omega))

end Legible

/-- What the arguments of an instruction mean, operand by operand. -/
def meanings (opcode : Opcode) (symbols : SymbolTable) (instruction : Instruction) :
    List (Option (List Int)) :=
  (opcode.operands.zip (opcode.normalize instruction.arguments)).map fun pair =>
    pair.1.meaning? symbols pair.2

section

variable {opcode : Opcode} {symbols : SymbolTable} {word : Word}

/-- If all numbers of an argument can be read from a word at the capacity of their places,
and this is the capacity that the operand needs, then the word tells what the argument
means. -/
theorem meaning?_eq_valuesIn {operand : Operand} {argument : String} {pieces : List (Slot × Int)}
    (supplies : operand.Supplies symbols argument pieces)
    (capacities : operand.slots.map (fun slot => (opcode.span slot).capacity) = operand.capacities)
    (reads : ∀ piece ∈ pieces,
      (Word.numberAt word (opcode.nibbles piece.1) : Int) =
        piece.2 % (opcode.span piece.1).capacity) :
    operand.meaning? symbols argument = some (opcode.valuesIn word operand) := by
  rw [supplies.meaning, valuesIn, ← capacities, ← supplies.places, List.map_map, List.map_map,
    List.zipWith_map_right, List.zipWith_self]
  congr 1
  apply List.map_congr_left
  intro piece member
  exact (reads piece member).symm

/-- The word tells what all arguments mean if all their numbers can be read from it. -/
theorem map_meaning?_eq {pairs : List (Operand × String)} {pieces : List (List (Slot × Int))}
    (supplied : List.Forall₂ (fun pair pieces => pair.1.Supplies symbols pair.2 pieces)
      pairs pieces)
    (capacities : ∀ pair ∈ pairs,
      pair.1.slots.map (fun slot => (opcode.span slot).capacity) = pair.1.capacities)
    (reads : ∀ piece ∈ pieces.flatten,
      (Word.numberAt word (opcode.nibbles piece.1) : Int) =
        piece.2 % (opcode.span piece.1).capacity) :
    pairs.map (fun pair => pair.1.meaning? symbols pair.2) =
      pairs.map fun pair => some (opcode.valuesIn word pair.1) := by
  induction supplied with
  | nil => rfl
  | cons first _ ih =>
      obtain ⟨firstCapacities, otherCapacities⟩ := List.forall_mem_cons.mp capacities
      rw [List.flatten_cons, List.forall_mem_append] at reads
      rw [List.map_cons, List.map_cons, ih otherCapacities reads.2,
        meaning?_eq_valuesIn first firstCapacities reads.1]

/-- The numbers of all arguments together fill the places of their operands. -/
theorem fills_of_supplies {pairs : List (Operand × String)} {pieces : List (List (Slot × Int))}
    (supplied : List.Forall₂ (fun pair pieces => pair.1.Supplies symbols pair.2 pieces)
      pairs pieces) (covered : pairs.map Prod.fst = opcode.operands) :
    opcode.Fills pieces.flatten := by
  constructor
  · rw [slots, ← covered, List.flatMap_map]
    clear covered
    induction supplied with
    | nil => rfl
    | cons first _ ih =>
        rw [List.flatten_cons, List.map_append, List.flatMap_cons, first.places, ih]
  · clear covered
    intro value member
    induction supplied with
    | nil => cases member
    | cons first _ ih =>
        rw [List.flatten_cons, List.mem_append] at member
        exact member.elim (first.bounded value) ih

/-- The word composed for an instruction has the fixed bits of its opcode, and tells what the
arguments mean. -/
theorem Legible.reads_back (legible : opcode.Legible) {instruction : Instruction}
    (composed : opcode.compose symbols instruction = .ok word) :
    opcode.matchesWord word = true ∧
      opcode.meanings symbols instruction =
        opcode.operands.map fun operand => some (opcode.valuesIn word operand) := by
  obtain ⟨count, pieces, evaluated, rfl⟩ := compose_eq_ok_iff.mp composed
  have supplied := (mapM_eq_ok_iff.mp evaluated).imp fun _ _ => Operand.supplies_of_evaluate
  have covered := List.map_fst_zip (Nat.le_of_eq count.symm)
  have fills : opcode.Fills pieces.flatten := fills_of_supplies supplied covered
  refine ⟨beq_iff_eq.mpr (legible.combine_and_mask fills), ?_⟩
  have capacities : ∀ pair ∈ opcode.operands.zip (opcode.normalize instruction.arguments),
      pair.1.slots.map (fun slot => (opcode.span slot).capacity) = pair.1.capacities :=
    fun pair member => legible.capacities pair.1 (covered ▸ List.mem_map_of_mem member)
  let told (operand : Operand) :=
    opcode.valuesIn (opcode.combine opcode.base pieces.flatten) operand
  calc opcode.meanings symbols instruction
    _ = (opcode.operands.zip (opcode.normalize instruction.arguments)).map
          fun pair => some (told pair.1) :=
        map_meaning?_eq supplied capacities fun _ => legible.numberAt_combine fills
    _ = ((opcode.operands.zip (opcode.normalize instruction.arguments)).map Prod.fst).map
          fun operand => some (told operand) := by rw [List.map_map]; rfl
    _ = opcode.operands.map fun operand => some (told operand) := by rw [covered]

/-- Where words can be read, the assertion about them holds. -/
theorem Legible.encode_ne_assertion (legible : opcode.Legible) (symbols : SymbolTable)
    (instruction : Instruction) : opcode.encode symbols instruction ≠ .error .assertion := by
  intro failed
  obtain ⟨word, composed, lost⟩ := encode_eq_assertion_iff.mp failed
  exact Bool.noConfusion ((legible.reads_back composed).1.symm.trans lost)

end

/-- There is a bit that both opcodes fix, to different values. -/
def Differs (first second : Opcode) : Prop :=
  (first.base ^^^ second.base) &&& first.mask &&& second.mask ≠ 0#32

instance (first second : Opcode) : Decidable (first.Differs second) :=
  inferInstanceAs (Decidable (_ ≠ _))

/-- No word matches two opcodes that differ. -/
theorem Differs.not_both {first second : Opcode} (differs : first.Differs second) {word : Word}
    (matchesFirst : first.matchesWord word = true) :
    second.matchesWord word = false := by
  by_contra matchesSecond
  rw [Bool.not_eq_false] at matchesSecond
  apply differs
  rw [← beq_iff_eq.mp matchesFirst, ← beq_iff_eq.mp matchesSecond]
  apply BitVec.eq_of_getLsbD_eq
  intro index _
  simp only [BitVec.getLsbD_and, BitVec.getLsbD_xor, BitVec.getLsbD_zero]
  cases word.getLsbD index <;> cases first.mask.getLsbD index <;>
    cases second.mask.getLsbD index <;> rfl

end Opcode

namespace OpcodeTable

/-- Words of the table can be read, and tell which opcode they belong to. -/
@[mk_iff]
structure Legible (table : OpcodeTable) : Prop where
  each : ∀ opcode ∈ table.opcodes, opcode.Legible
  differ : table.opcodes.Pairwise Opcode.Differs

instance (table : OpcodeTable) : Decidable table.Legible :=
  decidable_of_iff _ (legible_iff table).symm

variable {table : OpcodeTable} {symbols : SymbolTable} {instruction : Instruction} {word : Word}

/-- A table encodes an instruction as the first opcode does that accepts it. -/
theorem encode_eq_ok_iff :
    table.encode symbols instruction = .ok word ↔
      ∃ opcode, table.find? instruction = some opcode ∧
        opcode.encode symbols instruction = .ok word := by
  rw [encode]
  cases table.find? instruction with
  | none => simp
  | some opcode => simp

/-- A word that matches an opcode of a legible table matches no other. -/
theorem Legible.filter_matchesWord (legible : table.Legible) {opcode : Opcode}
    (member : opcode ∈ table.opcodes) (matching : opcode.matchesWord word = true) :
    table.opcodes.filter (·.matchesWord word) = [opcode] := by
  have differ := legible.differ
  obtain ⟨before, after, split⟩ := List.append_of_mem member
  rw [split, List.pairwise_append, List.pairwise_cons] at differ
  obtain ⟨-, ⟨later, -⟩, earlier⟩ := differ
  have noneBefore : before.filter (·.matchesWord word) = [] := by
    rw [List.filter_eq_nil_iff]
    intro other inBefore matchesOther
    have missed := (earlier other inBefore opcode (List.mem_cons_self ..)).not_both matchesOther
    exact Bool.noConfusion (missed.symm.trans matching)
  have noneAfter : after.filter (·.matchesWord word) = [] := by
    rw [List.filter_eq_nil_iff]
    intro other inAfter matchesOther
    exact Bool.noConfusion (((later other inAfter).not_both matching).symm.trans matchesOther)
  rw [split, List.filter_append, List.filter_cons, if_pos matching, noneBefore, noneAfter,
    List.nil_append]

/-- The word of an instruction matches the opcode that accepted it and no other, and tells
what the arguments mean. -/
theorem Legible.reads_back (legible : table.Legible)
    (encoded : table.encode symbols instruction = .ok word) :
    ∃ opcode, table.find? instruction = some opcode ∧
      table.opcodes.filter (·.matchesWord word) = [opcode] ∧
      opcode.meanings symbols instruction =
        opcode.operands.map fun operand => some (opcode.valuesIn word operand) := by
  obtain ⟨opcode, found, encodedHere⟩ := encode_eq_ok_iff.mp encoded
  have member : opcode ∈ table.opcodes := List.mem_of_find?_eq_some found
  have composed := (Opcode.encode_eq_ok_iff.mp encodedHere).1
  obtain ⟨matching, told⟩ := (legible.each opcode member).reads_back composed
  exact ⟨opcode, found, legible.filter_matchesWord member matching, told⟩

/-- The assertion holds for all words of a legible table. -/
theorem Legible.encode_ne_assertion (legible : table.Legible) (symbols : SymbolTable)
    (instruction : Instruction) : table.encode symbols instruction ≠ .error .assertion := by
  rw [encode]
  cases found : table.find? instruction with
  | none => simp
  | some opcode =>
      exact (legible.each opcode (List.mem_of_find?_eq_some found)).encode_ne_assertion symbols
        instruction

end OpcodeTable

end ChipAsm
