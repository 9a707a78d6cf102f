/-
# Towers of repetitions

How far a tower of repetitions moves the counter. The instruction at the bottom inserts a
piece of some width, and the `DUP`s around it insert as many pieces as the product of their
counts says. The product is never computed: every repetition goes on until its count is
used up or the address space is left, so the closed form is about numbers that no run
reaches.

The outcome of inserting pieces one after the other is written down once, as
`Counter.filled`, and obeys a law of addition. A repetition then inserts the pieces of its
instruction as often as its count says, and a tower the product.
-/

import ChipAsm.Proofs.Placement.Repetition
import Mathlib.Algebra.BigOperators.Group.List.Defs
import Mathlib.Algebra.Group.Nat.Defs

namespace ChipAsm

open Outcome

/-! ## Pieces of one width -/

namespace Counter

/-- The first offset past the address space that is reached from `start` in steps of the
width. -/
def firstPast (width start : Nat) : Nat :=
  start + width * ((imageLimit - start) / width + 1)

/-- The outcome of inserting pieces of one width: they all fit, or the first that does not is
the last. -/
def filled (source : Place) (width start pieces : Nat) : Outcome (Halt Diagnostic) Counter :=
  if start + width * pieces ≤ imageLimit then .done ⟨start + width * pieces⟩
  else .stopped ⟨firstPast width start⟩
    (.fault (source.diagnostic
      (.outOfRange .outputOffset (signedOffset (firstPast width start)) 0 imageLimit)))

variable {source : Place} {width start first : Nat}

/-- The first offset past the address space is the same for all that comes before it. -/
theorem firstPast_add (fits : start + width * first ≤ imageLimit) :
    firstPast width (start + width * first) = firstPast width start := by
  rcases Nat.eq_zero_or_pos width with rfl | positive
  · simp [firstPast]
  · have quotient : (imageLimit - (start + width * first)) / width + first =
        (imageLimit - start) / width := by
      rw [← Nat.add_mul_div_left _ _ positive]
      congr 1
      omega
    rw [firstPast, firstPast, ← quotient]
    simp only [Nat.mul_add]
    omega

/-- A piece that does not fit ends at the first offset past the address space. -/
theorem firstPast_of_lt (inside : start ≤ imageLimit) (beyond : imageLimit < start + width) :
    firstPast width start = start + width := by
  rw [firstPast, Nat.div_eq_of_lt (by omega), Nat.zero_add, Nat.mul_one]

theorem filled_zero (inside : start ≤ imageLimit) :
    filled source width start 0 = done ⟨start⟩ := by
  rw [filled, Nat.mul_zero, Nat.add_zero, if_pos inside]

theorem offset_le_of_filled {pieces : Nat} {counter : Counter}
    (through : filled source width start pieces = done counter) : counter.offset ≤ imageLimit := by
  unfold filled at through
  split at through
  · next fits => exact done_inj.mp through ▸ fits
  · exact absurd through (stopped_ne_done _ _ _)

/-- Pieces can be inserted in two portions. -/
theorem filled_add (first second : Nat) :
    filled source width start (first + second) =
      (filled source width start first).andThen fun counter =>
        filled source width counter.offset second := by
  have total : start + width * (first + second) = start + width * first + width * second := by
    rw [Nat.mul_add, Nat.add_assoc]
  by_cases fits : start + width * first ≤ imageLimit
  · rw [filled, filled, if_pos fits, done_andThen, filled, firstPast_add fits, total]
  · rw [filled, filled, if_neg fits, if_neg (by omega), stopped_andThen]

end Counter

/-! ## Repeating a filling -/

namespace Instruction

variable {instruction : Instruction} {source : Place} {width pieces : Nat}

/-- An instruction that inserts pieces inserts them once for each time it is placed. -/
theorem performAll_replicate_eq_filled
    (fills : ∀ start ≤ imageLimit,
      instruction.perform (Counter.mk start) = Counter.filled source width start pieces)
    (count start : Nat) (inside : start ≤ imageLimit) :
    performAll (Counter.mk start) (List.replicate count instruction) =
      Counter.filled source width start (count * pieces) := by
  induction count generalizing start with
  | zero => rw [Nat.zero_mul, Counter.filled_zero inside]; rfl
  | succ count ih =>
      rw [List.replicate_succ, performAll, run_cons, fills start inside,
        Nat.succ_mul, Nat.add_comm, Counter.filled_add]
      cases outcome : Counter.filled source width start pieces with
      | stopped last diagnostic => rfl
      | done next => exact ih next.offset (Counter.offset_le_of_filled outcome)

/-- The number of bytes that an instruction which repeats nothing inserts: those of a machine
word, or those of its data. -/
inductive Inserts (instruction : Instruction) : Nat → Prop
  | word (ordinary : Directive.ofMnemonic? instruction.mnemonic = none) :
      Inserts instruction wordSize
  | data {bytes : List UInt8} (read : instruction.dataBytes = .ok bytes) :
      Inserts instruction bytes.length

/-- A data directive is no other directive. -/
theorem exists_kind_of_dataBytes {bytes : List UInt8} (read : instruction.dataBytes = .ok bytes) :
    ∃ kind, Directive.ofMnemonic? instruction.mnemonic = some (.data kind) ∧
      instruction.bytesOf kind = .ok bytes := by
  unfold dataBytes at read
  cases found : DataKind.ofMnemonic? instruction.mnemonic with
  | none => simp [found] at read
  | some kind =>
      simp only [found] at read
      refine ⟨kind, ?_, read⟩
      unfold Directive.ofMnemonic?
      rw [if_neg, if_neg, found, Option.map_some]
      · intro dup
        simp [dup, DataKind.ofMnemonic?] at found
      · intro seek
        simp [seek, DataKind.ofMnemonic?] at found

/-- What inserts bytes repeats nothing, and moves the counter by their number. -/
theorem Inserts.act (inserts : instruction.Inserts width) (counter : Counter) :
    instruction.repeats? = none ∧ instruction.act counter = done ⟨counter.offset + width⟩ := by
  cases inserts with
  | word ordinary => simp only [repeats?, Instruction.act, ordinary]; exact ⟨trivial, rfl⟩
  | data read =>
      obtain ⟨kind, directive, bytes⟩ := exists_kind_of_dataBytes read
      simp only [repeats?, Instruction.act, directive]
      exact ⟨trivial, Placement.insert_eq_done_iff.mpr ⟨_, bytes, rfl⟩⟩

/-- What inserts bytes inserts one piece. -/
theorem Inserts.perform_eq_filled (inserts : instruction.Inserts width) {start : Nat}
    (inside : start ≤ imageLimit) :
    instruction.perform (Counter.mk start) =
      Counter.filled instruction.place width start 1 := by
  obtain ⟨single, action⟩ := inserts.act (Counter.mk start)
  rw [perform_of_single single, action, done_andThen, Counter.filled, Nat.mul_one]
  by_cases fits : start + width ≤ imageLimit
  · rw [if_pos fits]
    exact Placement.checkLimit_of_le fits
  · have beyond := Nat.not_le.mp fits
    rw [if_neg fits, Counter.firstPast_of_lt inside beyond]
    exact if_pos beyond

end Instruction

/-! ## Towers -/

/-- A tower of repetitions: the leaf under one well-formed `DUP` for each of the counts, the
outermost first. -/
inductive Tower (leaf : Instruction) : List Nat → Instruction → Prop
  | leaf : Tower leaf [] leaf
  | dup {count : Nat} {counts : List Nat} {times inner : String} {arguments : List String}
      {source : Place} (counted : Text.number? times = some (count : Int))
      (below : Tower leaf counts ⟨Text.upper inner, arguments, source⟩) :
      Tower leaf (count :: counts) ⟨"DUP", times :: inner :: arguments, source⟩

/-- A `DUP` with a count repeats the instruction that it spells out. -/
theorem repeats?_dup {count : Nat} {times inner : String} {arguments : List String}
    {source : Place} (counted : Text.number? times = some (count : Int)) :
    (Instruction.mk "DUP" (times :: inner :: arguments) source).repeats? =
      some (count, ⟨Text.upper inner, arguments, source⟩) := by
  have natural : Text.natural? times = some count := by
    rw [Text.natural?, counted, Option.bind_some]
    rfl
  have directive : Directive.ofMnemonic? "DUP" = some .repetition := by decide
  simp only [Instruction.repeats?, directive, natural, Option.map_some]
  rfl

/-- A tower inserts the piece of its leaf as often as the product of its counts says. -/
theorem Tower.perform_eq_filled {leaf instruction : Instruction} {counts : List Nat}
    (tower : Tower leaf counts instruction) {width : Nat} (inserts : leaf.Inserts width)
    {start : Nat} (inside : start ≤ imageLimit) :
    instruction.perform (Counter.mk start) =
      Counter.filled instruction.place width start counts.prod := by
  induction tower generalizing start with
  | leaf => exact inserts.perform_eq_filled inside
  | dup counted below ih =>
      rw [Instruction.perform_eq_performAll (repeats?_dup counted) inside, List.prod_cons]
      exact Instruction.performAll_replicate_eq_filled (fun _ => ih) _ _ inside

/-- Offsets of 63 bits are carried as they are. -/
theorem signedOffset_of_lt {offset : Nat} (small : offset < 0x8000000000000000) :
    signedOffset offset = offset := by
  apply Int.bmod_eq_of_le
  · omega
  · omega

/-- A tower of `DUP`s around a machine instruction or data moves the counter by the width of
its leaf times the product of its counts, if that stays inside the address space. Otherwise
it stops at the first offset past it that is reached in steps of the width, and this offset
is the value of the fault, in 64 bits. -/
theorem tower_ends_exactly (leaf instruction : Instruction) (counts : List Nat)
    (tower : Tower leaf counts instruction) (width : Nat) (inserts : leaf.Inserts width)
    (start : Nat) (inside : start ≤ imageLimit) :
    let finish := start + width * counts.prod
    let past := start + width * ((imageLimit - start) / width + 1)
    (finish ≤ imageLimit → instruction.perform (Counter.mk start) = .done ⟨finish⟩) ∧
    (imageLimit < finish → instruction.perform (Counter.mk start) =
      .stopped ⟨past⟩ (.fault (instruction.diagnostic
        (.outOfRange .outputOffset (signedOffset past) 0 imageLimit)))) ∧
    (past < 0x8000000000000000 → signedOffset past = past) := by
  intro finish past
  rw [tower.perform_eq_filled inserts inside]
  refine ⟨fun fits => if_pos fits, fun beyond => ?_, signedOffset_of_lt⟩
  exact if_neg (Nat.not_le.mpr beyond)

/-- Two of the largest counts around three bytes, from offset 5: of the pieces that the product
calls for, all but 21844 are never tried. A count of zero further in makes the tower empty. -/
theorem tower_of_largest_counts_ends_exactly :
    let largest := "9223372036854775807"
    let full : Instruction := ⟨"DUP", [largest, "dup", largest, "ds", "\"abc\""], default⟩
    let empty : Instruction := ⟨"DUP", [largest, "dup", "0", "nop"], default⟩
    full.perform (Counter.mk 5) = .stopped ⟨65537⟩ (.fault (full.diagnostic
      (.outOfRange .outputOffset 65537 0 65536))) ∧
    empty.perform (Counter.mk 5) = .done ⟨5⟩ := by
  intro largest full empty
  have counted : Text.number? largest = some ((9223372036854775807 : Nat) : Int) := by
    decide +kernel
  have zero : Text.number? "0" = some ((0 : Nat) : Int) := by decide +kernel
  have dup : Text.upper "dup" = "DUP" := by decide +kernel
  have ds : Text.upper "ds" = "DS" := by decide +kernel
  have nop : Text.upper "nop" = "NOP" := by decide +kernel
  constructor
  · have tower : Tower ⟨"DS", ["\"abc\""], default⟩ [9223372036854775807, 9223372036854775807]
        full := by
      refine .dup counted ?_
      rw [dup]
      refine .dup counted ?_
      rw [ds]
      exact .leaf
    have read : (Instruction.mk "DS" ["\"abc\""] default).dataBytes = .ok [97, 98, 99] := by
      decide +kernel
    have inserts : (Instruction.mk "DS" ["\"abc\""] default).Inserts 3 := .data read
    obtain ⟨-, stops, same⟩ := tower_ends_exactly _ full _ tower 3 inserts 5 (by decide)
    rw [stops (by decide), same (by decide)]
    rfl
  · have tower : Tower ⟨"NOP", [], default⟩ [9223372036854775807, 0] empty := by
      refine .dup counted ?_
      rw [dup]
      refine .dup zero ?_
      rw [nop]
      exact .leaf
    exact (tower_ends_exactly _ empty _ tower 3 (.word (by decide)) 5 (by decide)).1 (by decide)

end ChipAsm
