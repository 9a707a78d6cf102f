/-
# Spans of a word

A field occupies neighbouring bits of a word. What is placed in a span can be read back
from it, cut to its width, and is not seen by any other span; since words are composed by
`|||`, and reading goes through `|||`, this is all that is needed to read a composed word
part by part.
-/

import ChipAsm.Opcode

namespace ChipAsm

/-- Neighbouring bits of a word. -/
structure Span where
  /-- The index of the least significant bit. -/
  low : Nat
  /-- The number of bits. -/
  width : Nat
  deriving DecidableEq, Repr

namespace Span

/-- The number of values that fit into the span. -/
def capacity (span : Span) : Nat := 1 <<< span.width

/-- The number that stands in the span. -/
def read (span : Span) (word : Word) : Nat :=
  (word.toNat >>> span.low) % span.capacity

/-- A number, cut to the width of the span, as what it adds to a word. -/
def place (span : Span) (value : Int) : Word :=
  BitVec.ofNat 32 ((value % span.capacity).toNat <<< span.low)

/-- The spans have no bit in common. -/
def Apart (first second : Span) : Prop :=
  first.low + first.width ≤ second.low ∨ second.low + second.width ≤ first.low

instance (first second : Span) : Decidable (first.Apart second) :=
  inferInstanceAs (Decidable (_ ∨ _))

theorem Apart.symm {first second : Span} (apart : first.Apart second) : second.Apart first :=
  Or.symm apart

theorem capacity_pos (span : Span) : 0 < span.capacity := by
  rw [capacity, Nat.one_shiftLeft]
  exact Nat.two_pow_pos _

/-- Cutting to the width leaves a number that fits. -/
theorem toNat_emod_lt_capacity (span : Span) (value : Int) :
    (value % span.capacity).toNat < span.capacity := by
  have positive := span.capacity_pos
  have bounded := Int.emod_lt_of_pos value (Int.natCast_pos.mpr positive)
  omega

/-- Numbers that fit have no bits outside the span. -/
theorem testBit_of_lt_capacity {span : Span} {value index : Nat} (fits : value < span.capacity)
    (outside : span.width ≤ index) : value.testBit index = false := by
  rw [capacity, Nat.one_shiftLeft] at fits
  exact Nat.testBit_lt_two_pow (Nat.lt_of_lt_of_le fits (Nat.pow_le_pow_right (by decide) outside))

theorem testBit_read (span : Span) (word : Word) (index : Nat) :
    (span.read word).testBit index =
      (decide (index < span.width) && word.getLsbD (span.low + index)) := by
  rw [read, capacity, Nat.one_shiftLeft, Nat.testBit_mod_two_pow, Nat.testBit_shiftRight]
  rfl

theorem getLsbD_place (span : Span) (value : Int) (index : Nat) :
    (span.place value).getLsbD index = (decide (index < 32) && (decide (span.low ≤ index) &&
      (value % span.capacity).toNat.testBit (index - span.low))) := by
  rw [place, BitVec.getLsbD_ofNat, Nat.testBit_shiftLeft]

/-- Nothing is placed outside of the span. -/
theorem getLsbD_place_outside {span : Span} {index : Nat}
    (outside : index < span.low ∨ span.low + span.width ≤ index) (value : Int) :
    (span.place value).getLsbD index = false := by
  rw [getLsbD_place]
  rcases outside with below | above
  · rw [decide_eq_false (Nat.not_le.mpr below), Bool.false_and, Bool.and_false]
  · rw [testBit_of_lt_capacity (span.toNat_emod_lt_capacity value) (by omega), Bool.and_false,
      Bool.and_false]

theorem read_or (span : Span) (first second : Word) :
    span.read (first ||| second) = span.read first ||| span.read second := by
  apply Nat.eq_of_testBit_eq
  intro index
  rw [Nat.testBit_or, testBit_read, testBit_read, testBit_read, BitVec.getLsbD_or,
    Bool.and_or_distrib_left]

theorem read_and (span : Span) (first second : Word) :
    span.read (first &&& second) = span.read first &&& span.read second := by
  apply Nat.eq_of_testBit_eq
  intro index
  rw [Nat.testBit_and, testBit_read, testBit_read, testBit_read, BitVec.getLsbD_and]
  cases decide (index < span.width) with
  | false => rfl
  | true => rfl

/-- What is placed in a span of the word is read back, cut to the width of the span. -/
theorem read_place {span : Span} (inside : span.low + span.width ≤ 32) (value : Int) :
    span.read (span.place value) = (value % span.capacity).toNat := by
  apply Nat.eq_of_testBit_eq
  intro index
  rw [testBit_read, getLsbD_place, Nat.add_sub_cancel_left]
  by_cases within : index < span.width
  · rw [decide_eq_true within, decide_eq_true (by omega : span.low + index < 32),
      decide_eq_true (Nat.le_add_right _ _), Bool.true_and, Bool.true_and, Bool.true_and]
  · rw [decide_eq_false within, Bool.false_and]
    exact (testBit_of_lt_capacity (span.toNat_emod_lt_capacity value) (Nat.not_lt.mp within)).symm

/-- What is placed in a span is not seen by a span apart from it. -/
theorem read_place_of_apart {first second : Span} (apart : first.Apart second) (value : Int) :
    first.read (second.place value) = 0 := by
  apply Nat.eq_of_testBit_eq
  intro index
  rw [testBit_read, Nat.zero_testBit]
  by_cases within : index < first.width
  · rw [getLsbD_place_outside ?_ value, Bool.and_false]
    rcases apart with before | after
    · left; omega
    · right; omega
  · rw [decide_eq_false within, Bool.false_and]

/-- What is placed where a mask is blank is not selected by the mask. -/
theorem place_and_eq_zero {span : Span} {mask : Word} (blank : span.read mask = 0)
    (value : Int) : span.place value &&& mask = 0#32 := by
  apply BitVec.eq_of_getLsbD_eq
  intro index _
  rw [BitVec.getLsbD_and, BitVec.getLsbD_zero]
  by_cases outside : index < span.low ∨ span.low + span.width ≤ index
  · rw [getLsbD_place_outside outside, Bool.false_and]
  · have unset := span.testBit_read mask (index - span.low)
    rw [blank, Nat.zero_testBit, decide_eq_true (by omega), Bool.true_and,
      Nat.add_sub_cancel' (by omega)] at unset
    rw [← unset, Bool.and_false]

end Span

/-- A nibble of a word; the least significant has index zero. -/
def Word.nibble (word : Word) (index : Nat) : Nat :=
  (word.toNat >>> (4 * index)) % 16

/-- The number that the nibbles with the given indices write, the most significant first. -/
def Word.numberAt (word : Word) (indices : List Nat) : Nat :=
  indices.foldl (fun number index => 16 * number + Word.nibble word index) 0

namespace Span

/-- The indices of the nibbles of a span, the most significant first. -/
def nibbles (span : Span) : List Nat :=
  (List.range (span.width / 4)).reverse.map (span.low / 4 + ·)

/-- The bounds of the span are bounds of nibbles. -/
def Aligned (span : Span) : Prop :=
  4 ∣ span.low ∧ 4 ∣ span.width

/-- Reading a span of whole nibbles is reading its nibbles one after the other. -/
theorem numberAt_nibbles {span : Span} (aligned : span.Aligned) (word : Word) :
    Word.numberAt word span.nibbles = span.read word := by
  obtain ⟨low, width⟩ := span
  obtain ⟨⟨first, rfl⟩, ⟨count, rfl⟩⟩ := aligned
  have four : 0 < 4 := by decide
  rw [nibbles, Nat.mul_div_cancel_left _ four, Nat.mul_div_cancel_left _ four, read, capacity,
    Word.numberAt, List.foldl_map]
  -- The digits read so far count sixteen times for every nibble that is still to come.
  suffices general : ∀ number, (List.range count).reverse.foldl
      (fun number index => 16 * number + Word.nibble word (first + index)) number =
      number * 1 <<< (4 * count) + word.toNat >>> (4 * first) % 1 <<< (4 * count) by
    rw [general 0, Nat.zero_mul, Nat.zero_add]
  induction count with
  | zero =>
      intro number
      rw [Nat.mul_zero, Nat.shiftLeft_zero, Nat.mod_one, Nat.mul_one]
      rfl
  | succ count ih =>
      intro number
      have grown : 1 <<< (4 * (count + 1)) = 1 <<< (4 * count) * 16 := by
        rw [Nat.mul_succ, Nat.shiftLeft_add, Nat.shiftLeft_eq _ 4]
      have digit : Word.nibble word (first + count) =
          word.toNat >>> (4 * first) / 1 <<< (4 * count) % 16 := by
        rw [Word.nibble, Nat.mul_add, Nat.shiftRight_add, Nat.one_shiftLeft,
          Nat.shiftRight_eq_div_pow _ (4 * count)]
      rw [List.range_succ, List.reverse_append, List.reverse_singleton, List.singleton_append,
        List.foldl_cons, ih, grown, Nat.mod_mul, digit]
      grind

end Span

/-- The bits that a field occupies. -/
def Field.span (field : Field) : Span where
  low := 4 * (field.offset + 1 - field.nibbles)
  width := 4 * field.nibbles

theorem Field.aligned_span (field : Field) : field.span.Aligned :=
  ⟨Nat.dvd_mul_right _ _, Nat.dvd_mul_right _ _⟩

/-- A field whose values are as wide as its nibbles packs them into its span. -/
theorem Field.pack_eq_place {field : Field} (wide : 4 * field.nibbles ≤ min field.bits 32)
    (value : Int) : field.pack value = field.span.place value := by
  rw [Field.pack, Span.place, Span.capacity, Field.width, Nat.min_eq_right wide]
  rfl

end ChipAsm
