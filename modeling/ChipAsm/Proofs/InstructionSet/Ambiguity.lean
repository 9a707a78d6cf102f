/-
# Instructions with several readings

An instruction is read by the first opcode that accepts it, so the order of a table matters
where several opcodes accept one instruction. An overlap describes such instructions by
their mnemonic and the shapes of their arguments. Whether a list of overlaps is complete for
a table is decided opcode by opcode, and what is covered by none of them has at most one
reading, whatever the order of the table.

For the machine, the list is short. Several readings come from register names that are also
names of labels, and from an index in brackets that can have an offset; the reading as
registers comes first.
-/

import ChipAsm.Proofs.Encoding.Overlap
import ChipAsm.Proofs.InstructionSet

namespace ChipAsm

/-- Instructions that several opcodes accept. -/
structure Overlap where
  mnemonic : String
  /-- The shapes of the arguments. -/
  shapes : List Shape
  /-- The formats of the opcodes in the order in which they are tried. -/
  formats : List String

namespace Overlap

/-- The instruction has the mnemonic and the shapes of the overlap. -/
def Covers (overlap : Overlap) (instruction : Instruction) : Prop :=
  instruction.mnemonic = overlap.mnemonic ∧
    List.Forall₂ Shape.Fits overlap.shapes instruction.arguments

/-- The opcodes that accept what the overlap covers. -/
def opcodes (overlap : Overlap) (table : OpcodeTable) : List Opcode :=
  table.opcodes.filter fun opcode =>
    overlap.mnemonic = opcode.mnemonic ∧ opcode.Suits overlap.shapes

theorem Covers.filter_accepts {overlap : Overlap} {instruction : Instruction}
    (covers : overlap.Covers instruction) (table : OpcodeTable) :
    table.opcodes.filter (·.accepts instruction) = overlap.opcodes table := by
  obtain ⟨mnemonic, fits⟩ := covers
  refine List.filter_congr fun opcode _ => ?_
  rw [Bool.eq_iff_iff, Opcode.accepts_iff_suits fits, mnemonic, decide_eq_true_eq]

end Overlap

namespace OpcodeTable

variable {table : OpcodeTable} {overlaps : List Overlap} {instruction : Instruction}

/-- Where two opcodes accept the same, they have the same number of operands, and one of the
overlaps says so. -/
def CoveredBy (table : OpcodeTable) (overlaps : List Overlap) : Prop :=
  table.opcodes.Pairwise fun first second => ∀ shapes ∈ first.shared second,
    first.operands.length = second.operands.length ∧
    ∃ overlap ∈ overlaps, overlap.mnemonic = first.mnemonic ∧ overlap.shapes = shapes

instance (table : OpcodeTable) (overlaps : List Overlap) : Decidable (table.CoveredBy overlaps) :=
  inferInstanceAs (Decidable (List.Pairwise _ _))

/-- Two opcodes that accept the same instruction have the same number of operands, and an
overlap covers the instruction. -/
theorem CoveredBy.exists_covers (covered : table.CoveredBy overlaps) (instruction : Instruction) :
    table.opcodes.Pairwise fun first second =>
      first.accepts instruction = true → second.accepts instruction = true →
      first.operands.length = second.operands.length ∧
      ∃ overlap ∈ overlaps, overlap.Covers instruction := by
  obtain ⟨shapes, fits⟩ := Shape.exists_forall₂_fits instruction.arguments
  refine covered.imp fun {first second} known accepted also => ?_
  obtain ⟨count, overlap, listed, mnemonic, rfl⟩ :=
    known shapes (Opcode.mem_shared fits accepted also)
  have same := ((Opcode.accepts_iff_suits fits).mp accepted).1
  exact ⟨count, overlap, listed, same.trans mnemonic.symm, fits⟩

/-- What no overlap covers is accepted by at most one opcode. -/
theorem CoveredBy.length_filter_accepts (covered : table.CoveredBy overlaps)
    (uncovered : ∀ overlap ∈ overlaps, ¬ overlap.Covers instruction) :
    (table.opcodes.filter (·.accepts instruction)).length ≤ 1 := by
  have apart := (covered.exists_covers instruction).filter (·.accepts instruction)
  have accepted : ∀ opcode ∈ table.opcodes.filter (·.accepts instruction),
      opcode.accepts instruction = true := fun _ member => (List.mem_filter.mp member).2
  cases readings : table.opcodes.filter (·.accepts instruction) with
  | nil => exact Nat.zero_le 1
  | cons first others =>
      rw [readings] at apart accepted
      cases others with
      | nil => exact Nat.le_refl 1
      | cons second rest =>
          have also : second ∈ second :: rest := List.mem_cons_self ..
          obtain ⟨-, overlap, listed, covers⟩ := (List.pairwise_cons.mp apart).1 second also
            (accepted first (List.mem_cons_self ..)) (accepted second (List.mem_cons_of_mem _ also))
          exact absurd covers (uncovered overlap listed)

theorem find?_eq_head? (table : OpcodeTable) (instruction : Instruction) :
    table.find? instruction = (table.opcodes.filter (·.accepts instruction)).head? :=
  List.head?_filter.symm

/-- The order of a table does not matter for an instruction that at most one opcode accepts. -/
theorem encode_eq_of_perm {other : OpcodeTable} (reordered : other.opcodes.Perm table.opcodes)
    (single : (table.opcodes.filter (·.accepts instruction)).length ≤ 1) (symbols : SymbolTable) :
    other.encode symbols instruction = table.encode symbols instruction := by
  have readings := reordered.filter (·.accepts instruction)
  have same : other.opcodes.filter (·.accepts instruction) =
      table.opcodes.filter (·.accepts instruction) := by
    rcases Nat.le_one_iff_eq_zero_or_eq_one.mp single with none | one
    · rw [List.length_eq_zero_iff.mp none] at readings ⊢
      exact readings.eq_nil
    · obtain ⟨opcode, only⟩ := List.length_eq_one_iff.mp one
      rw [only] at readings ⊢
      exact List.perm_singleton.mp readings
  rw [encode, encode, find?_eq_head?, find?_eq_head?, same]

end OpcodeTable

namespace InstructionSet

/-- The overlaps of the machine's opcodes. -/
def overlaps : List Overlap :=
  [⟨"JMP", [.register .i], ["JMP Ix", "JMP addr"]⟩,
    ⟨"LD", [.register .i, .register .i], ["LD Ix, Iy", "LD Ix, addr"]⟩,
    ⟨"LD", [.register .i, .register .b], ["LD Ix, By", "LD Ix, addr"]⟩,
    ⟨"LD", [.register .n, .index], ["LD Nx, [Iy]", "LD Nx, [Iy+n]", "LD Nx, [addr]"]⟩,
    ⟨"LD", [.index, .register .n], ["LD [Iy], Nx", "LD [Iy+n], Nx", "LD [addr], Nx"]⟩]

/-- The overlaps are all there are, and each has the opcodes that it names. -/
theorem any_coveredBy :
    InstructionSet.table.toOption.any (fun table =>
      decide (table.CoveredBy overlaps) &&
        overlaps.all fun overlap =>
          decide ((overlap.opcodes table).map Opcode.format = overlap.formats)) = true := by
  decide +kernel

variable {table : OpcodeTable}

theorem coveredBy_of_table (built : InstructionSet.table = .ok table) :
    table.CoveredBy overlaps := by
  have checked := any_coveredBy
  rw [built] at checked
  exact of_decide_eq_true (Bool.and_eq_true_iff.mp checked).1

theorem formats_of_table (built : InstructionSet.table = .ok table) {overlap : Overlap}
    (listed : overlap ∈ overlaps) :
    (overlap.opcodes table).map Opcode.format = overlap.formats := by
  have checked := any_coveredBy
  rw [built] at checked
  exact of_decide_eq_true (List.all_eq_true.mp (Bool.and_eq_true_iff.mp checked).2 overlap listed)

/-- The spellings that have several readings, with the formats that read them. -/
inductive Ambiguous : String → List String → List String → Prop
  | jump {h : Char} (hex : (Text.hexDigit? h).isSome) :
      Ambiguous "JMP" [String.ofList ['I', h]] ["JMP Ix", "JMP addr"]
  | loadIndex {h h' : Char} (hex : (Text.hexDigit? h).isSome) (hex' : (Text.hexDigit? h').isSome) :
      Ambiguous "LD" [String.ofList ['I', h], String.ofList ['I', h']] ["LD Ix, Iy", "LD Ix, addr"]
  | loadPair {h h' : Char} (hex : (Text.hexDigit? h).isSome) (hex' : (Text.hexDigit? h').isSome) :
      Ambiguous "LD" [String.ofList ['I', h], String.ofList ['B', h']] ["LD Ix, By", "LD Ix, addr"]
  | fetch {h h' : Char} (hex : (Text.hexDigit? h).isSome) (hex' : (Text.hexDigit? h').isSome) :
      Ambiguous "LD" [String.ofList ['N', h], String.ofList ['[', 'I', h', ']']]
        ["LD Nx, [Iy]", "LD Nx, [Iy+n]", "LD Nx, [addr]"]
  | store {h h' : Char} (hex : (Text.hexDigit? h).isSome) (hex' : (Text.hexDigit? h').isSome) :
      Ambiguous "LD" [String.ofList ['[', 'I', h', ']'], String.ofList ['N', h]]
        ["LD [Iy], Nx", "LD [Iy+n], Nx", "LD [addr], Nx"]

/-- These spellings are what the overlaps cover. -/
theorem ambiguous_iff {instruction : Instruction} {formats : List String} :
    Ambiguous instruction.mnemonic instruction.arguments formats ↔
      ∃ overlap ∈ overlaps, overlap.Covers instruction ∧ overlap.formats = formats := by
  obtain ⟨mnemonic, arguments, place⟩ := instruction
  have register {bank : Bank} {h : Char} (hex : (Text.hexDigit? h).isSome) :
      (Shape.register bank).Fits (String.ofList [bank.char, h]) :=
    Shape.fits_register_iff.mpr ⟨h, hex, rfl⟩
  have index {h : Char} (hex : (Text.hexDigit? h).isSome) :
      Shape.index.Fits (String.ofList ['[', 'I', h, ']']) :=
    Shape.fits_index_iff.mpr ⟨h, hex, rfl⟩
  constructor
  · intro ambiguous
    cases ambiguous with
    | jump hex =>
        exact ⟨_, .head _, ⟨rfl, .cons (register hex) .nil⟩, rfl⟩
    | loadIndex hex hex' =>
        exact ⟨_, .tail _ (.head _), ⟨rfl, .cons (register hex) (.cons (register hex') .nil)⟩, rfl⟩
    | loadPair hex hex' =>
        exact ⟨_, .tail _ (.tail _ (.head _)),
          ⟨rfl, .cons (register hex) (.cons (register hex') .nil)⟩, rfl⟩
    | fetch hex hex' =>
        exact ⟨_, .tail _ (.tail _ (.tail _ (.head _))),
          ⟨rfl, .cons (register hex) (.cons (index hex') .nil)⟩, rfl⟩
    | store hex hex' =>
        exact ⟨_, .tail _ (.tail _ (.tail _ (.tail _ (.head _)))),
          ⟨rfl, .cons (index hex') (.cons (register hex) .nil)⟩, rfl⟩
  · rintro ⟨overlap, listed, ⟨same, fits⟩, rfl⟩
    dsimp only at same fits
    subst same
    simp only [overlaps, List.mem_cons, List.not_mem_nil, or_false] at listed
    rcases listed with rfl | rfl | rfl | rfl | rfl
    · obtain _ | ⟨first, _ | _⟩ := fits
      obtain ⟨h, hex, rfl⟩ := Shape.fits_register_iff.mp first
      exact .jump hex
    · obtain _ | ⟨first, _ | ⟨second, _ | _⟩⟩ := fits
      obtain ⟨h, hex, rfl⟩ := Shape.fits_register_iff.mp first
      obtain ⟨h', hex', rfl⟩ := Shape.fits_register_iff.mp second
      exact .loadIndex hex hex'
    · obtain _ | ⟨first, _ | ⟨second, _ | _⟩⟩ := fits
      obtain ⟨h, hex, rfl⟩ := Shape.fits_register_iff.mp first
      obtain ⟨h', hex', rfl⟩ := Shape.fits_register_iff.mp second
      exact .loadPair hex hex'
    · obtain _ | ⟨first, _ | ⟨second, _ | _⟩⟩ := fits
      obtain ⟨h, hex, rfl⟩ := Shape.fits_register_iff.mp first
      obtain ⟨h', hex', rfl⟩ := Shape.fits_index_iff.mp second
      exact .fetch hex hex'
    · obtain _ | ⟨first, _ | ⟨second, _ | _⟩⟩ := fits
      obtain ⟨h', hex', rfl⟩ := Shape.fits_index_iff.mp first
      obtain ⟨h, hex, rfl⟩ := Shape.fits_register_iff.mp second
      exact .store hex hex'

/-- The instructions that more than one opcode of the machine accepts are those that spell
registers in one of five ways. All their readings are listed, and the one that counts is the
first. Any other instruction has at most one reading, and then the order of the table does
not matter. -/
theorem only_register_spellings_overlap (table : OpcodeTable)
    (built : InstructionSet.table = .ok table) (instruction : Instruction) :
    (∀ formats, Ambiguous instruction.mnemonic instruction.arguments formats →
      (table.opcodes.filter (·.accepts instruction)).map Opcode.format = formats ∧
      (table.find? instruction).map Opcode.format = formats.head?) ∧
    ((∀ formats, ¬ Ambiguous instruction.mnemonic instruction.arguments formats) →
      (table.opcodes.filter (·.accepts instruction)).length ≤ 1 ∧
      ∀ other : OpcodeTable, other.opcodes.Perm table.opcodes → ∀ symbols,
        other.encode symbols instruction = table.encode symbols instruction) := by
  constructor
  · intro formats ambiguous
    obtain ⟨overlap, listed, covers, rfl⟩ := ambiguous_iff.mp ambiguous
    have readings : (table.opcodes.filter (·.accepts instruction)).map Opcode.format =
        overlap.formats := by
      rw [covers.filter_accepts, formats_of_table built listed]
    refine ⟨readings, ?_⟩
    rw [table.find?_eq_head?, ← List.head?_map, readings]
  · intro unambiguous
    have uncovered : ∀ overlap ∈ overlaps, ¬ overlap.Covers instruction :=
      fun overlap listed covers => unambiguous _ (ambiguous_iff.mpr ⟨overlap, listed, covers, rfl⟩)
    have single := (coveredBy_of_table built).length_filter_accepts uncovered
    exact ⟨single, fun other reordered => OpcodeTable.encode_eq_of_perm reordered single⟩

/-- A load through an index, which three opcodes accept, and a load of a label, which has one
reading although `I` begins the names of registers. -/
theorem only_register_spellings_overlap_in_loads :
    ∃ table, InstructionSet.table = .ok table ∧
      (table.opcodes.filter (·.accepts ⟨"LD", ["N3", "[Ic]"], default⟩)).map Opcode.format =
        ["LD Nx, [Iy]", "LD Nx, [Iy+n]", "LD Nx, [addr]"] ∧
      (table.find? ⟨"LD", ["N3", "[Ic]"], default⟩).map Opcode.format = some "LD Nx, [Iy]" ∧
      (table.opcodes.filter (·.accepts ⟨"LD", ["I3", "Ix"], default⟩)).length ≤ 1 ∧
      ∀ symbols, (OpcodeTable.mk table.opcodes.reverse).encode symbols
        ⟨"LD", ["I3", "Ix"], default⟩ = table.encode symbols ⟨"LD", ["I3", "Ix"], default⟩ := by
  obtain ⟨table, built⟩ := exists_table
  obtain ⟨readings, found⟩ :=
    (only_register_spellings_overlap table built ⟨"LD", ["N3", "[Ic]"], default⟩).1 _
      (@Ambiguous.fetch '3' 'c' (by decide) (by decide))
  have unambiguous : ∀ formats, ¬ Ambiguous "LD" ["I3", "Ix"] formats := by
    intro formats ambiguous
    generalize named : "LD" = mnemonic at ambiguous
    generalize given : ["I3", "Ix"] = arguments at ambiguous
    cases ambiguous with
    | jump => simp at named
    | loadIndex hex hex' =>
        obtain ⟨-, rfl⟩ : _ ∧ 'x' = _ := by simpa [← String.toList_inj] using given
        cases hex'
    | _ => simp [← String.toList_inj] at given
  obtain ⟨single, kept⟩ :=
    (only_register_spellings_overlap table built ⟨"LD", ["I3", "Ix"], default⟩).2 unambiguous
  exact ⟨table, built, readings, found, single, kept _ (List.reverse_perm _)⟩

end InstructionSet

end ChipAsm
