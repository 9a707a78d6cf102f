/-
# What arguments mean

The numbers that an argument means for its operand are defined here without regard to
words: the digits of its registers, its address, and its byte or offset. Bytes and the
offsets of `[I+n]` count modulo 256, since a byte may be written signed or unsigned.

An argument that the encoder reads has a meaning, and what the encoder puts into the word
is that meaning up to the width of its place.
-/

import ChipAsm.Proofs.Encoding.Pieces

namespace ChipAsm

theorem demand_eq_ok_iff {α : Type} {fault : Fault} {wanted : Option α} {value : α} :
    demand fault wanted = .ok value ↔ wanted = some value := by
  cases wanted with
  | none => simp [demand]
  | some found => simp [demand]

theorem inRange_eq_ok_iff {quantity : Quantity} {low high value result : Int} :
    inRange quantity low high value = .ok result ↔
      value = result ∧ low ≤ result ∧ result ≤ high := by
  unfold inRange
  constructor
  · intro success
    split at success
    · next bounds =>
        cases success
        exact ⟨rfl, bounds⟩
    · cases success
  · rintro ⟨rfl, bounds⟩
    rw [if_pos bounds]

namespace Argument

theorem addressValue_eq_ok_iff {symbols : SymbolTable} {text : String} {value : Int} :
    addressValue symbols text = .ok value ↔
      address? symbols text = some value ∧ 0 ≤ value ∧ value ≤ 0xFFFF := by
  rw [addressValue_eq]
  cases address? symbols text with
  | none => simp
  | some number =>
      rw [Option.some_inj]
      exact inRange_eq_ok_iff

/-- The offset of an indexed argument, whether or not it is in range: zero if none is
written. -/
def offset? : Option String → Option Int
  | none => some 0
  | some text => Text.number? text

theorem offset?_of_offsetValue {low high value : Int} {text : Option String}
    (zero : low ≤ 0 ∧ 0 ≤ high) (success : offsetValue low high text = .ok value) :
    offset? text = some value ∧ low ≤ value ∧ value ≤ high := by
  cases text with
  | none =>
      cases success
      exact ⟨rfl, zero⟩
  | some written =>
      rw [offsetValue] at success
      rw [offset?]
      cases number : Text.number? written with
      | none => simp [number] at success
      | some offset =>
          simp only [number] at success
          obtain ⟨rfl, bounds⟩ := inRange_eq_ok_iff.mp success
          exact ⟨rfl, bounds⟩

end Argument

namespace Operand

/-- The numbers that an argument means for the operand, in the order of the letters. -/
def meaning? (symbols : SymbolTable) (operand : Operand) (argument : String) :
    Option (List Int) :=
  match operand with
  | immediate _ => (Text.number? argument).map fun value => [value % 256]
  | address => (Argument.address? symbols argument).map fun value => [value]
  | indirectAddress => do
      let inner ← Argument.bracketed? argument
      (Argument.address? symbols inner).map fun value => [value]
  | register bank _ => (Argument.registerDigit? bank argument).map fun digit => [(digit.val : Int)]
  | selected bank _ => (Argument.selectedDigit? bank argument).map fun digit => [(digit.val : Int)]
  | stackPointer => some []
  | soundTimer => some []
  | delayTimer => some []
  | indexed _ => (Argument.indexed? argument).map fun parts => [(parts.index.val : Int)]
  | indexedOffset _ => do
      let parts ← Argument.indexed? argument
      let offset ← Argument.offset? parts.offset
      some [(parts.index.val : Int), offset % 256]
  | indexedSum _ _ => do
      let parts ← Argument.indexed? argument
      let addend ← parts.addend
      let offset ← Argument.offset? parts.offset
      some [(parts.index.val : Int), (addend.val : Int), offset]

/-- The number of values that each place of the operand has to tell apart. -/
def capacities : Operand → List Nat
  | immediate _ => [256]
  | address => [65536]
  | indirectAddress => [65536]
  | register _ _ => [16]
  | selected _ _ => [16]
  | stackPointer => []
  | soundTimer => []
  | delayTimer => []
  | indexed _ => [16]
  | indexedOffset _ => [16, 256]
  | indexedSum _ _ => [16, 16, 16]

/-- The pieces are what an argument can supply for the operand: numbers for its places,
which at the capacity of these are what the argument means. An address is in range. -/
structure Supplies (symbols : SymbolTable) (operand : Operand) (argument : String)
    (pieces : List (Slot × Int)) : Prop where
  places : pieces.map Prod.fst = operand.slots
  meaning : operand.meaning? symbols argument =
    some (List.zipWith (fun piece (capacity : Nat) => piece.2 % (capacity : Int)) pieces
      operand.capacities)
  bounded : ∀ value, (Slot.address, value) ∈ pieces → 0 ≤ value ∧ value ≤ 0xFFFF

end Operand

/-- Cutting a digit to a nibble does not change it. -/
theorem digit_emod (digit : Fin 16) : (digit.val : Int) % (16 : Nat) = digit.val :=
  Int.emod_eq_of_lt (Int.natCast_nonneg _) (Int.ofNat_lt.mpr digit.isLt)

/-- Cutting an address that is in range to 16 bits does not change it. -/
theorem address_emod {value : Int} (bounds : 0 ≤ value ∧ value ≤ 0xFFFF) :
    value % (65536 : Nat) = value :=
  Int.emod_eq_of_lt bounds.1 (by omega)

namespace Operand

variable {symbols : SymbolTable} {operand : Operand} {argument : String}

/-- An operand with one register supplies its digit. -/
theorem supplies_digit {letter : Letter} {digit : Fin 16} (place : operand.slots = [.field letter])
    (capacity : operand.capacities = [16])
    (meaning : operand.meaning? symbols argument = some [(digit.val : Int)]) :
    operand.Supplies symbols argument [(.field letter, digit.val)] where
  places := place.symm
  meaning := by
    rw [meaning, capacity, List.zipWith_cons_cons, List.zipWith_nil_left, digit_emod]
  bounded := by simp

/-- An operand with an address supplies it if it is in range. -/
theorem supplies_address {value : Int} (place : operand.slots = [.address])
    (capacity : operand.capacities = [65536])
    (meaning : operand.meaning? symbols argument = some [value])
    (bounds : 0 ≤ value ∧ value ≤ 0xFFFF) :
    operand.Supplies symbols argument [(.address, value)] where
  places := place.symm
  meaning := by
    rw [meaning, capacity, List.zipWith_cons_cons, List.zipWith_nil_left, address_emod bounds]
  bounded := by simpa using bounds

/-- What the encoder reads from an argument is what the argument means. -/
theorem supplies_of_evaluate {mismatch : Fault} {pieces : List (Slot × Int)}
    (success : operand.evaluate symbols mismatch argument = .ok pieces) :
    operand.Supplies symbols argument pieces := by
  cases operand with
  | immediate letter =>
      obtain ⟨number, found, checked⟩ := bind_eq_ok_iff.mp success
      obtain ⟨value, within, ⟨⟩⟩ := bind_eq_ok_iff.mp checked
      obtain ⟨rfl, -⟩ := inRange_eq_ok_iff.mp within
      refine ⟨rfl, ?_, by simp⟩
      rw [meaning?, demand_eq_ok_iff.mp found]
      rfl
  | address =>
      obtain ⟨value, found, ⟨⟩⟩ := bind_eq_ok_iff.mp success
      obtain ⟨known, bounds⟩ := Argument.addressValue_eq_ok_iff.mp found
      exact supplies_address rfl rfl (by rw [meaning?, known, Option.map_some]) bounds
  | indirectAddress =>
      obtain ⟨inner, between, checked⟩ := bind_eq_ok_iff.mp success
      obtain ⟨value, found, ⟨⟩⟩ := bind_eq_ok_iff.mp checked
      obtain ⟨known, bounds⟩ := Argument.addressValue_eq_ok_iff.mp found
      refine supplies_address rfl rfl ?_ bounds
      rw [meaning?, demand_eq_ok_iff.mp between, Option.bind_eq_bind, Option.bind_some, known,
        Option.map_some]
  | register bank letter =>
      obtain ⟨digit, found, ⟨⟩⟩ := bind_eq_ok_iff.mp success
      exact supplies_digit rfl rfl (by rw [meaning?, demand_eq_ok_iff.mp found, Option.map_some])
  | selected bank letter =>
      obtain ⟨digit, found, ⟨⟩⟩ := bind_eq_ok_iff.mp success
      exact supplies_digit rfl rfl (by rw [meaning?, demand_eq_ok_iff.mp found, Option.map_some])
  | stackPointer =>
      cases success
      exact ⟨rfl, rfl, by simp⟩
  | soundTimer =>
      cases success
      exact ⟨rfl, rfl, by simp⟩
  | delayTimer =>
      cases success
      exact ⟨rfl, rfl, by simp⟩
  | indexed letter =>
      obtain ⟨parts, found, ⟨⟩⟩ := bind_eq_ok_iff.mp success
      exact supplies_digit rfl rfl (by rw [meaning?, demand_eq_ok_iff.mp found, Option.map_some])
  | indexedOffset letter =>
      obtain ⟨parts, found, checked⟩ := bind_eq_ok_iff.mp success
      obtain ⟨offset, within, ⟨⟩⟩ := bind_eq_ok_iff.mp checked
      obtain ⟨known, -⟩ := Argument.offset?_of_offsetValue (by decide) within
      refine ⟨rfl, ?_, by simp⟩
      simp only [meaning?, demand_eq_ok_iff.mp found, Option.bind_eq_bind, Option.bind_some, known,
        capacities, List.zipWith_cons_cons, List.zipWith_nil_left, digit_emod]
      rfl
  | indexedSum letter addendLetter =>
      obtain ⟨parts, found, added⟩ := bind_eq_ok_iff.mp success
      obtain ⟨addend, second, checked⟩ := bind_eq_ok_iff.mp added
      obtain ⟨offset, within, ⟨⟩⟩ := bind_eq_ok_iff.mp checked
      obtain ⟨known, bounds⟩ := Argument.offset?_of_offsetValue (by decide) within
      -- The offset of this form is a nibble, so nothing of it is cut off.
      have small : offset % (16 : Nat) = offset := Int.emod_eq_of_lt bounds.1 (by omega)
      refine ⟨rfl, ?_, by simp⟩
      simp only [meaning?, demand_eq_ok_iff.mp found, demand_eq_ok_iff.mp second,
        Option.bind_eq_bind, Option.bind_some, known, capacities, List.zipWith_cons_cons,
        List.zipWith_nil_left, digit_emod, small]

end Operand

end ChipAsm
