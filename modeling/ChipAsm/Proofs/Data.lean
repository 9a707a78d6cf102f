/-
# Numbers as data

A directive that inserts numbers reads its arguments one after the other. It succeeds exactly if
each of them is a number of the right size, with a sign or without, and inserts the numbers
modulo two to the number of bits, the least significant byte first. Otherwise the first argument
that is no such number is blamed.

So the bytes tell the numbers apart up to the modulus: two lists of arguments give the same bytes
exactly if they agree number by number.
-/

import ChipAsm.Data
import ChipAsm.Proofs.Except
import Mathlib.Data.List.Forall2
import Mathlib.Data.Nat.Digits.Lemmas
import Mathlib.Tactic.Ring

namespace ChipAsm

namespace Data

/-! ## Bytes of one number -/

/-- The number can be given in so many bytes, with a sign or without. -/
def Fits (size : Nat) (value : Int) : Prop :=
  -2 ^ (8 * size - 1) ≤ value ∧ value ≤ 2 ^ (8 * size) - 1

instance (size : Nat) (value : Int) : Decidable (Fits size value) :=
  inferInstanceAs (Decidable (_ ∧ _))

/-- The number that the bytes stand for, the least significant first. -/
def ofBytes (bytes : List UInt8) : Nat :=
  Nat.ofDigits 256 (bytes.map UInt8.toNat)

theorem ofBytes_cons (byte : UInt8) (rest : List UInt8) :
    ofBytes (byte :: rest) = byte.toNat + 256 * ofBytes rest := by
  rw [ofBytes, List.map_cons, Nat.ofDigits_cons]
  rfl

theorem low_eq (size : Nat) : low size = -2 ^ (8 * size - 1) := by
  rw [low, Nat.one_shiftLeft]
  norm_cast

theorem high_eq (size : Nat) : high size = 2 ^ (8 * size) - 1 := by
  rw [high, Nat.one_shiftLeft]
  norm_cast

theorem low_le_and_le_high_iff {size : Nat} {value : Int} :
    low size ≤ value ∧ value ≤ high size ↔ Fits size value := by
  rw [low_eq, high_eq]
  rfl

@[simp]
theorem length_littleEndian (size : Nat) (value : Int) :
    (littleEndian size value).length = size := by
  induction size generalizing value with
  | zero => rfl
  | succ size ih => rw [littleEndian, List.length_cons, ih]

/-- The lowest byte and the rest of the bytes. -/
theorem emod_add_mul_emod (value : Int) (size : Nat) :
    value % 256 + 256 * (value / 256 % 2 ^ (8 * size)) = value % 2 ^ (8 * (size + 1)) := by
  have nested : value / 2 ^ (8 * (size + 1)) = value / 256 / 2 ^ (8 * size) := by
    rw [Nat.mul_succ, Nat.add_comm, pow_add, Int.ediv_ediv_of_nonneg (by norm_num)]
    norm_num
  rw [Int.emod_def value 256, Int.emod_def (value / 256), Int.emod_def value (2 ^ _), nested,
    Nat.mul_succ, pow_add]
  ring

/-- The bytes of a number stand for it up to the modulus. -/
theorem ofBytes_littleEndian (size : Nat) (value : Int) :
    (ofBytes (littleEndian size value) : Int) = value % 2 ^ (8 * size) := by
  induction size generalizing value with
  | zero => simp [littleEndian, ofBytes]
  | succ size ih =>
      have byte : ((UInt8.ofNat (value % 256).toNat).toNat : Int) = value % 256 := by
        rw [UInt8.toNat_ofNat']
        omega
      rw [← emod_add_mul_emod, ← ih, littleEndian, ofBytes_cons]
      push_cast
      rw [byte]

/-- Equally many bytes that stand for one number are the same. -/
theorem eq_of_ofBytes_eq {first second : List UInt8} (length : first.length = second.length)
    (same : ofBytes first = ofBytes second) : first = second := by
  have small (bytes : List UInt8) : ∀ digit ∈ bytes.map UInt8.toNat, digit < 256 := by
    intro digit member
    obtain ⟨byte, -, rfl⟩ := List.mem_map.mp member
    exact byte.toNat_lt
  have digits := Nat.ofDigits_inj_of_len_eq (by decide) (by simpa using length) (small first)
    (small second) same
  exact List.map_injective_iff.mpr (fun _ _ => UInt8.toNat_inj.mp) digits

/-- The bytes of a number tell it up to the modulus. -/
theorem littleEndian_eq_iff {size : Nat} {first second : Int} :
    littleEndian size first = littleEndian size second ↔
      first % 2 ^ (8 * size) = second % 2 ^ (8 * size) := by
  rw [← ofBytes_littleEndian, ← ofBytes_littleEndian, Int.ofNat_inj]
  constructor
  · exact congrArg ofBytes
  · exact eq_of_ofBytes_eq (by simp)

/-! ## Pieces of one length -/

theorem length_flatten_of_forall {size : Nat} {pieces : List (List UInt8)}
    (each : ∀ piece ∈ pieces, piece.length = size) :
    pieces.flatten.length = size * pieces.length := by
  rw [List.length_flatten, List.map_eq_replicate_iff.mpr each, List.sum_replicate_nat,
    Nat.mul_comm]

/-- A piece is found at its index times the length. -/
theorem take_drop_flatten {size : Nat} {pieces : List (List UInt8)}
    (each : ∀ piece ∈ pieces, piece.length = size) {index : Nat} {piece : List UInt8}
    (here : pieces[index]? = some piece) :
    (pieces.flatten.drop (index * size)).take size = piece := by
  induction pieces generalizing index with
  | nil => cases here
  | cons first rest ih =>
      obtain ⟨length, others⟩ := List.forall_mem_cons.mp each
      rw [List.flatten_cons]
      cases index with
      | zero =>
          obtain rfl : first = piece := Option.some.inj here
          rw [Nat.zero_mul, List.drop_zero, ← length, List.take_left]
      | succ index =>
          rw [Nat.succ_mul, Nat.add_comm, ← List.drop_drop, ← length, List.drop_left, length]
          exact ih others here

/-- Bytes cut into pieces of one length are the same exactly if the pieces are. -/
theorem flatten_inj {size : Nat} (positive : 0 < size) {first second : List (List UInt8)}
    (eachFirst : ∀ piece ∈ first, piece.length = size)
    (eachSecond : ∀ piece ∈ second, piece.length = size) :
    first.flatten = second.flatten ↔ first = second := by
  constructor
  · intro same
    have lengths : size * first.length = size * second.length := by
      rw [← length_flatten_of_forall eachFirst, same, length_flatten_of_forall eachSecond]
    rw [List.eq_iff_flatten_eq, List.map_eq_replicate_iff.mpr eachFirst,
      List.map_eq_replicate_iff.mpr eachSecond, Nat.eq_of_mul_eq_mul_left positive lengths]
    exact ⟨same, rfl⟩
  · exact congrArg List.flatten

/-! ## What arguments give -/

/-- The mnemonics of the directives that insert numbers, with the sizes of the numbers. -/
def numberSizes : List (String × Nat) :=
  [("DB", 1), ("DW", 2), ("DD", 4)]

/-- The argument is a numeral for a number that fits in so many bytes. -/
def Gives (size : Nat) (argument : String) (value : Int) : Prop :=
  Text.number? argument = some value ∧ Fits size value

/-- The bytes are those of the number that the argument gives. -/
def Encodes (size : Nat) (argument : String) (bytes : List UInt8) : Prop :=
  ∃ value, Gives size argument value ∧ littleEndian size value = bytes

/-- The two arguments are numerals for numbers that agree in so many bytes. -/
def Agree (size : Nat) (first second : String) : Prop :=
  ∃ value other, Text.number? first = some value ∧ Text.number? second = some other ∧
    value % 2 ^ (8 * size) = other % 2 ^ (8 * size)

/-- The same bytes are those of numbers that agree. -/
theorem Encodes.eq_iff_agree {size : Nat} {first second : String} {bytes others : List UInt8}
    (encodes : Encodes size first bytes) (encodesOther : Encodes size second others) :
    bytes = others ↔ Agree size first second := by
  obtain ⟨value, ⟨read, -⟩, rfl⟩ := encodes
  obtain ⟨other, ⟨readOther, -⟩, rfl⟩ := encodesOther
  rw [littleEndian_eq_iff, Agree, read, readOther]
  simp

theorem pieces_eq_iff_agree {size : Nat} {first second : List String}
    {pieces others : List (List UInt8)}
    (encodes : List.Forall₂ (Encodes size) first pieces)
    (encodesOther : List.Forall₂ (Encodes size) second others) :
    pieces = others ↔ List.Forall₂ (Agree size) first second := by
  induction encodes generalizing second others with
  | nil => cases encodesOther <;> simp
  | cons here rest ih =>
      cases encodesOther with
      | nil => simp
      | cons hereOther restOther =>
          rw [List.cons.injEq, List.forall₂_cons, here.eq_iff_agree hereOther, ih restOther]

theorem length_of_mem_pieces {size : Nat} {arguments : List String}
    {pieces : List (List UInt8)}
    (encodes : List.Forall₂ (Encodes size) arguments pieces) :
    ∀ piece ∈ pieces, piece.length = size := by
  induction encodes with
  | nil => simp
  | cons here rest ih =>
      obtain ⟨value, -, rfl⟩ := here
      exact List.forall_mem_cons.mpr ⟨length_littleEndian size value, ih⟩

end Data

/-! ## Bytes of all arguments -/

namespace Instruction

open Data

variable {instruction : Instruction} {size : Nat}

theorem numberBytes_eq_ok_iff {argument : String} {index : Nat} {bytes : List UInt8} :
    instruction.numberBytes size argument index = .ok bytes ↔ Encodes size argument bytes := by
  unfold numberBytes Encodes Gives
  cases Text.number? argument with
  | none => simp
  | some value =>
      simp only [low_le_and_le_high_iff]
      by_cases fits : Fits size value <;> simp [fits]

/-- An argument is refused if it is no numeral or if its number does not fit. -/
theorem numberBytes_eq_error_iff {argument : String} {index : Nat} {diagnostic : Diagnostic} :
    instruction.numberBytes size argument index = .error diagnostic ↔
      (Text.number? argument = none ∧
        diagnostic = instruction.malformed (.notNumber index)) ∨
      ∃ value, Text.number? argument = some value ∧ ¬Fits size value ∧
        diagnostic = instruction.diagnostic (.outOfRange (.dataValue instruction.mnemonic) value
          (-2 ^ (8 * size - 1)) (2 ^ (8 * size) - 1)) := by
  unfold numberBytes
  cases Text.number? argument with
  | none => simp [eq_comm]
  | some value =>
      rw [← low_eq, ← high_eq]
      simp only [low_le_and_le_high_iff]
      by_cases fits : Fits size value <;> simp [fits, eq_comm]

theorem numbersBytes_eq_ok_iff {bytes : List UInt8} :
    instruction.numbersBytes size = .ok bytes ↔
      ∃ pieces, List.Forall₂ (Encodes size) instruction.arguments pieces ∧
        pieces.flatten = bytes := by
  unfold numbersBytes
  simp only [bind_eq_ok_iff, mapM_eq_ok_iff, numberBytes_eq_ok_iff, pure_eq_ok_iff]
  simp only [← List.forall₂_map_left_iff (f := Prod.fst), List.zipIdx_map_fst]

/-- The first argument that is refused is blamed, with its index. -/
theorem numbersBytes_eq_error_iff {diagnostic : Diagnostic} :
    instruction.numbersBytes size = .error diagnostic ↔
      ∃ before argument after, instruction.arguments = before ++ argument :: after ∧
        (∀ earlier ∈ before, ∃ value, Gives size earlier value) ∧
        instruction.numberBytes size argument before.length = .error diagnostic := by
  have accepted (argument : String) (index : Nat) :
      (∃ bytes, instruction.numberBytes size argument index = .ok bytes) ↔
        ∃ value, Gives size argument value := by
    simp [numberBytes_eq_ok_iff, Encodes]
  unfold numbersBytes
  rw [bind_eq_error_iff, mapM_eq_error_iff]
  simp only [accepted]
  constructor
  · rintro (⟨before, ⟨argument, index⟩, after, split, succeeded, refused⟩ | ⟨_, _, ⟨⟩⟩)
    obtain ⟨earlier, later, spelled, rfl, rest⟩ := List.zipIdx_eq_append_iff.mp split
    obtain ⟨_, remaining, rfl, same, -⟩ := List.zipIdx_eq_cons_iff.mp rest.symm
    obtain ⟨rfl, rfl⟩ := Prod.mk.inj same
    refine ⟨earlier, argument, remaining, spelled, ?_, by simpa using refused⟩
    intro argument member
    rw [← List.zipIdx_map_fst 0 earlier] at member
    obtain ⟨pair, paired, rfl⟩ := List.mem_map.mp member
    exact succeeded pair paired
  · rintro ⟨before, argument, after, split, succeeded, refused⟩
    refine .inl ⟨before.zipIdx, (argument, before.length), after.zipIdx (before.length + 1), ?_, ?_,
      refused⟩
    · rw [split, List.zipIdx_append, List.zipIdx_cons, Nat.zero_add]
    · intro pair paired
      exact succeeded pair.1 (List.fst_mem_of_mem_zipIdx paired)

/-- The directive succeeds exactly if every argument gives a number. -/
theorem exists_numbersBytes_iff :
    (∃ bytes, instruction.numbersBytes size = .ok bytes) ↔
      ∀ argument ∈ instruction.arguments, ∃ value, Gives size argument value := by
  constructor
  · rintro ⟨bytes, success⟩ argument member
    obtain ⟨pieces, encodes, -⟩ := numbersBytes_eq_ok_iff.mp success
    obtain ⟨index, inside, rfl⟩ := List.mem_iff_getElem.mp member
    obtain ⟨value, gives, -⟩ := encodes.get inside (encodes.length_eq ▸ inside)
    exact ⟨value, gives⟩
  · intro gives
    cases result : instruction.numbersBytes size with
    | ok bytes => exact ⟨bytes, rfl⟩
    | error diagnostic =>
        obtain ⟨before, argument, after, split, -, refused⟩ := numbersBytes_eq_error_iff.mp result
        obtain ⟨value, given⟩ := gives argument (by simp [split])
        rw [numberBytes_eq_ok_iff.mpr ⟨value, given, rfl⟩] at refused
        cases refused

/-- The bytes of an argument stand at its index. -/
theorem ofBytes_of_numbersBytes {bytes : List UInt8}
    (success : instruction.numbersBytes size = .ok bytes) {index : Nat} {argument : String}
    {value : Int} (here : instruction.arguments[index]? = some argument)
    (read : Text.number? argument = some value) :
    (ofBytes ((bytes.drop (index * size)).take size) : Int) = value % 2 ^ (8 * size) := by
  obtain ⟨pieces, encodes, rfl⟩ := numbersBytes_eq_ok_iff.mp success
  obtain ⟨inside, rfl⟩ := List.getElem?_eq_some_iff.mp here
  have insidePieces : index < pieces.length := encodes.length_eq ▸ inside
  obtain ⟨other, ⟨readOther, -⟩, spelled⟩ := encodes.get inside insidePieces
  have same : value = other := Option.some.inj (read.symm.trans readOther)
  rw [take_drop_flatten (length_of_mem_pieces encodes) (List.getElem?_eq_getElem insidePieces),
    same, ← ofBytes_littleEndian, spelled]
  rfl

theorem dataBytes_eq_numbersBytes (sized : (instruction.mnemonic, size) ∈ numberSizes) :
    instruction.dataBytes = instruction.numbersBytes size := by
  simp only [numberSizes, List.mem_cons, Prod.mk.injEq, List.not_mem_nil, or_false] at sized
  rcases sized with ⟨mnemonic, rfl⟩ | ⟨mnemonic, rfl⟩ | ⟨mnemonic, rfl⟩
  all_goals
    rw [dataBytes, mnemonic]
    rfl

/-- Numbers are inserted exactly, or the first argument that is no number of the size is blamed.
The directive succeeds if and only if every argument is a numeral for a number that fits. Then
each number takes its bytes, which stand for it modulo two to the number of bits. Otherwise the
blame is on the first argument that is no numeral or whose number does not fit. Two lists of
arguments that are accepted give the same bytes if and only if they agree number by number. -/
theorem numbers_inserted_exactly (sized : (instruction.mnemonic, size) ∈ numberSizes) :
    ((∃ bytes, instruction.dataBytes = .ok bytes) ↔
        ∀ argument ∈ instruction.arguments,
          ∃ value, Text.number? argument = some value ∧ Fits size value) ∧
      (∀ bytes, instruction.dataBytes = .ok bytes →
        bytes.length = size * instruction.arguments.length ∧
          ∀ index argument value, instruction.arguments[index]? = some argument →
            Text.number? argument = some value →
              (ofBytes ((bytes.drop (index * size)).take size) : Int) =
                value % 2 ^ (8 * size)) ∧
      (∀ diagnostic, instruction.dataBytes = .error diagnostic ↔
        ∃ before argument after, instruction.arguments = before ++ argument :: after ∧
          (∀ earlier ∈ before,
            ∃ value, Text.number? earlier = some value ∧ Fits size value) ∧
          ((Text.number? argument = none ∧ diagnostic = instruction.diagnostic
              (.malformedDirective instruction.mnemonic (.notNumber before.length))) ∨
            ∃ value, Text.number? argument = some value ∧ ¬Fits size value ∧
              diagnostic = instruction.diagnostic
                (.outOfRange (.dataValue instruction.mnemonic) value
                  (-2 ^ (8 * size - 1)) (2 ^ (8 * size) - 1)))) ∧
      ∀ (other : Instruction) (bytes otherBytes : List UInt8),
        other.mnemonic = instruction.mnemonic → instruction.dataBytes = .ok bytes →
          other.dataBytes = .ok otherBytes →
            (bytes = otherBytes ↔
              List.Forall₂ (Agree size) instruction.arguments other.arguments) := by
  rw [dataBytes_eq_numbersBytes sized]
  refine ⟨exists_numbersBytes_iff, ?_, ?_, ?_⟩
  · intro bytes success
    refine ⟨?_, fun index argument value => ofBytes_of_numbersBytes success⟩
    obtain ⟨pieces, encodes, rfl⟩ := numbersBytes_eq_ok_iff.mp success
    rw [length_flatten_of_forall (length_of_mem_pieces encodes), encodes.length_eq]
  · intro diagnostic
    simp only [numbersBytes_eq_error_iff, numberBytes_eq_error_iff]
    rfl
  · intro other bytes otherBytes mnemonic success otherSuccess
    rw [dataBytes_eq_numbersBytes (mnemonic ▸ sized)] at otherSuccess
    obtain ⟨pieces, encodes, rfl⟩ := numbersBytes_eq_ok_iff.mp success
    obtain ⟨others, encodesOther, rfl⟩ := numbersBytes_eq_ok_iff.mp otherSuccess
    have positive : 0 < size := by
      simp only [numberSizes, List.mem_cons, Prod.mk.injEq, List.not_mem_nil, or_false] at sized
      omega
    rw [flatten_inj positive (length_of_mem_pieces encodes) (length_of_mem_pieces encodesOther)]
    exact pieces_eq_iff_agree encodes encodesOther

/-- A negative number is inserted as the unsigned number that agrees with it, and a number that
does not fit is blamed before a later argument that is no numeral. -/
theorem numbers_inserted_with_and_without_sign :
    let place : Place := { file := .ofText "data.asm", line := 5 }
    let signed : Instruction := { mnemonic := "DW", arguments := ["0x1234", "-2"], place }
    let unsigned : Instruction := { mnemonic := "DW", arguments := ["4660", "0xFFFE"], place }
    let wide : Instruction := { mnemonic := "DW", arguments := ["1", "65536", "x"], place }
    (signed.mnemonic, 2) ∈ numberSizes ∧ signed.dataBytes = .ok [0x34, 0x12, 0xFE, 0xFF] ∧
      List.Forall₂ (Agree 2) signed.arguments unsigned.arguments ∧
      (wide.mnemonic, 2) ∈ numberSizes ∧
      wide.dataBytes =
        .error (wide.diagnostic (.outOfRange (.dataValue "DW") 65536 (-32768) 65535)) := by
  intro place signed unsigned wide
  have sized : (signed.mnemonic, 2) ∈ numberSizes := by decide
  have sizedWide : (wide.mnemonic, 2) ∈ numberSizes := by decide
  have bytes : signed.dataBytes = .ok [0x34, 0x12, 0xFE, 0xFF] := by decide +kernel
  have otherBytes : unsigned.dataBytes = .ok [0x34, 0x12, 0xFE, 0xFF] := by decide +kernel
  have agree := ((numbers_inserted_exactly sized).2.2.2 unsigned _ _ rfl bytes otherBytes).mp rfl
  refine ⟨sized, bytes, agree, sizedWide, ?_⟩
  apply ((numbers_inserted_exactly sizedWide).2.2.1 _).mpr
  refine ⟨["1"], "65536", ["x"], rfl, ?_, .inr ⟨65536, by decide +kernel, by decide, rfl⟩⟩
  intro earlier member
  rw [List.mem_singleton.mp member]
  exact ⟨1, by decide +kernel, by decide⟩

end Instruction

end ChipAsm
