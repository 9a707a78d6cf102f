/-
# What a pattern marks

A pattern marks every nibble of a word with a character: a digit for a nibble that is
fixed, a letter for one that belongs to the field of the letter, or `_`. The definition of
an opcode does not keep the marks. It keeps two words, the base and the mask, and for each
letter a first nibble and a number of nibbles.

Here the marks are recovered from what is kept. The nibbles of the base and of the mask are
read off the marks one by one, and a field occupies exactly the nibbles that are marked
with its letter. The latter rests on the check that no letter is split.
-/

import ChipAsm.Opcode.Definition
import ChipAsm.Proofs.Except
import ChipAsm.Proofs.Opcode.Span
import Mathlib.Algebra.Group.Nat.Defs
import Mathlib.Data.List.Induction

namespace ChipAsm

theorem Letter.ofChar?_eq_some_iff {c : Char} {letter : Letter} :
    Letter.ofChar? c = some letter ↔ c = letter.char := by
  constructor
  · intro found
    unfold Letter.ofChar? at found
    split at found <;> cases found <;> rfl
  · rintro rfl
    cases letter <;> rfl

theorem Letter.char_inj {first second : Letter} (same : first.char = second.char) :
    first = second := by
  apply Option.some.inj
  rw [← Letter.ofChar?_eq_some_iff.mpr same, Letter.ofChar?_eq_some_iff.mpr rfl]

namespace Cell

theorem ofChar?_eq_fixed_iff {c : Char} {digit : Fin 16} :
    ofChar? c = some (fixed digit) ↔ Text.hexDigit? c = some digit := by
  unfold ofChar?
  split
  · next value _ => simp_all
  · next => simp_all
  · next => split <;> simp_all

/-- No digit is a letter, so a letter is always read as one. -/
theorem ofChar?_eq_slot_iff {c : Char} {letter : Letter} :
    ofChar? c = some (slot letter) ↔ c = letter.char := by
  constructor
  · intro found
    apply Letter.ofChar?_eq_some_iff.mp
    unfold ofChar? at found
    split at found
    · cases found
    · next known => simpa [known] using found
    · split at found <;> cases found
  · rintro rfl
    cases letter <;> rfl

end Cell

/-! ## Nibbles of a word -/

namespace Word

theorem testBit_nibble (word : Word) (index bit : Nat) :
    (nibble word index).testBit bit = (decide (bit < 4) && word.getLsbD (4 * index + bit)) :=
  Span.testBit_read ⟨4 * index, 4⟩ word bit

/-- Every bit of a word is a bit of one of its nibbles. -/
theorem getLsbD_eq_testBit_nibble (word : Word) (index : Nat) :
    word.getLsbD index = (nibble word (index / 4)).testBit (index % 4) := by
  rw [testBit_nibble, decide_eq_true (Nat.mod_lt index (by decide)), Bool.true_and,
    Nat.div_add_mod]

/-- A word whose nibbles from the seventh on are zero has 24 bits. -/
theorem toNat_lt_of_nibble {word : Word} (blank : ∀ index, 6 ≤ index → nibble word index = 0) :
    word.toNat < 2 ^ 24 := by
  apply Nat.lt_pow_two_of_testBit
  intro index high
  have unset := getLsbD_eq_testBit_nibble word index
  rw [blank (index / 4) (by omega), Nat.zero_testBit] at unset
  exact unset

/-- All bits of the nibble `F` are set. -/
theorem testBit_fifteen {bit : Nat} (within : bit < 4) : Nat.testBit 15 bit = true := by
  rw [Nat.testBit_two_pow_sub_one 4]
  exact decide_eq_true within

end Word

namespace Pattern

/-- A digit has four bits. -/
theorem testBit_digit_of_le {digit bit : Nat} (small : digit < 16) (beyond : 4 ≤ bit) :
    digit.testBit bit = false :=
  Nat.testBit_lt_two_pow (Nat.lt_of_lt_of_le small
    (Nat.pow_le_pow_right (n := 2) (by decide) beyond : 2 ^ 4 ≤ 2 ^ bit))

theorem wordOf_concat (nibbles : List Nat) (last : Nat) :
    wordOf (nibbles ++ [last]) = wordOf nibbles <<< 4 ||| BitVec.ofNat 32 last :=
  List.foldl_append

theorem getLsbD_wordOf {nibbles : List Nat} (small : ∀ nibble ∈ nibbles, nibble < 16)
    {index : Nat} (inside : index < 32) :
    (wordOf nibbles).getLsbD index =
      (nibbles.reverse[index / 4]?.getD 0).testBit (index % 4) := by
  induction nibbles using List.reverseRecOn generalizing index with
  | nil => simp [wordOf]
  | append_singleton rest last ih =>
      obtain ⟨smallRest, smallLast⟩ := List.forall_mem_append.mp small
      have lastSmall : last < 16 := smallLast last (List.mem_singleton_self last)
      rw [wordOf_concat, BitVec.getLsbD_or, BitVec.getLsbD_shiftLeft, BitVec.getLsbD_ofNat,
        decide_eq_true inside, List.reverse_concat]
      -- The last nibble has the lowest four bits, the others have moved up.
      by_cases low : index < 4
      · rw [decide_eq_true low, Nat.div_eq_of_lt low, Nat.mod_eq_of_lt low]
        simp
      · rw [testBit_digit_of_le lastSmall (Nat.not_lt.mp low), decide_eq_false low]
        obtain ⟨above, rfl⟩ := Nat.exists_eq_add_of_le (Nat.not_lt.mp low)
        rw [Nat.add_sub_cancel_left, ih smallRest (by omega),
          Nat.add_div_left above (by decide : 0 < 4), Nat.add_mod_left]
        simp

/-- The nibbles of a word are those it was made from, in reversed order. -/
theorem nibble_wordOf {nibbles : List Nat} (small : ∀ nibble ∈ nibbles, nibble < 16)
    (short : nibbles.length ≤ 8) (index : Nat) :
    Word.nibble (wordOf nibbles) index = nibbles.reverse[index]?.getD 0 := by
  have digit : nibbles.reverse[index]?.getD 0 < 16 := by
    cases found : nibbles.reverse[index]? with
    | none => decide
    | some nibble => exact small nibble (List.mem_reverse.mp (List.mem_of_getElem? found))
  apply Nat.eq_of_testBit_eq
  intro bit
  rw [Word.testBit_nibble]
  by_cases within : bit < 4
  · rw [decide_eq_true within, Bool.true_and]
    by_cases inside : index < 8
    · rw [getLsbD_wordOf small (by omega), Nat.mul_add_div (by decide), Nat.div_eq_of_lt within,
        Nat.add_zero, Nat.mul_add_mod, Nat.mod_eq_of_lt within]
    · rw [BitVec.getLsbD_of_ge _ _ (by omega),
        List.getElem?_eq_none (by rw [List.length_reverse]; omega)]
      exact (Nat.zero_testBit bit).symm
  · rw [decide_eq_false within, Bool.false_and]
    exact (testBit_digit_of_le digit (Nat.not_lt.mp within)).symm

/-- Cells that are turned into nibbles can be looked up in the word of these. -/
theorem nibble_wordOf_map {cells : List Cell} (short : cells.length ≤ 8) {view : Cell → Nat}
    (small : ∀ cell, view cell < 16) (index : Nat) :
    Word.nibble (wordOf (cells.map view)) index = (cells.reverse[index]?.map view).getD 0 := by
  rw [nibble_wordOf, ← List.map_reverse, List.getElem?_map]
  · intro nibble member
    obtain ⟨cell, -, rfl⟩ := List.mem_map.mp member
    exact small cell
  · rwa [List.length_map]

/-- A nibble of the base is the digit of its cell. -/
theorem nibble_base {cells : List Cell} (short : cells.length ≤ 8) (index : Nat) :
    Word.nibble (base cells) index =
      match cells.reverse[index]? with
      | some (.fixed digit) => digit.val
      | _ => 0 := by
  rw [base, nibble_wordOf_map short]
  · rcases cells.reverse[index]? with _ | (_ | _ | _) <;> rfl
  · rintro (digit | _ | _)
    · exact digit.isLt
    · exact Nat.zero_lt_succ 15
    · exact Nat.zero_lt_succ 15

/-- A nibble of the mask tells whether its cell is fixed. -/
theorem nibble_mask {cells : List Cell} (short : cells.length ≤ 8) (index : Nat) :
    Word.nibble (mask cells) index =
      match cells.reverse[index]? with
      | some (.fixed _) => 15
      | _ => 0 := by
  rw [mask, nibble_wordOf_map short]
  · rcases cells.reverse[index]? with _ | (_ | _ | _) <;> rfl
  · rintro (_ | _ | _)
    · exact Nat.lt_succ_self 15
    · exact Nat.zero_lt_succ 15
    · exact Nat.zero_lt_succ 15

/-! ## Runs of a letter -/

/-- What a text begins with, if it does not occur again later, stands at the first places. -/
theorem getElem?_eq_some_iff_of_lead {c : Char} {text : List Char}
    (once : c ∉ text.dropWhile (· == c)) (index : Nat) :
    text[index]? = some c ↔ index < text.count c := by
  induction text generalizing index with
  | nil => simp
  | cons first rest ih =>
      by_cases same : first = c
      · subst same
        rw [List.dropWhile_cons, if_pos (beq_self_eq_true first)] at once
        rw [List.count_cons_self]
        cases index with
        | zero => simp
        | succ index => simpa using ih once index
      · rw [List.dropWhile_cons_of_neg (by simpa using same)] at once
        rw [List.count_eq_zero_of_not_mem once]
        constructor
        · intro found
          exact absurd (List.mem_of_getElem? found) once
        · intro impossible
          exact absurd impossible (Nat.not_lt_zero index)

/-- A character that is not split stands at neighbouring places. -/
theorem getElem?_eq_some_iff_of_unsplit {c : Char} {text : List Char}
    (unsplit : isSplit c text = false) (index : Nat) :
    text[index]? = some c ↔ text.idxOf c ≤ index ∧ index < text.idxOf c + text.count c := by
  induction text generalizing index with
  | nil => simp
  | cons first rest ih =>
      by_cases same : first = c
      · subst same
        have once : first ∉ (first :: rest).dropWhile (· == first) := by
          simpa [isSplit] using unsplit
        rw [getElem?_eq_some_iff_of_lead once, List.idxOf_cons_self, Nat.zero_add]
        exact (and_iff_right (Nat.zero_le index)).symm
      · have shorter : isSplit c rest = false := by
          rwa [isSplit, List.dropWhile_cons_of_pos (by simpa using same)] at unsplit
        rw [List.idxOf_cons_ne _ same, List.count_cons_of_ne same]
        cases index with
        | zero => simp [same]
        | succ index =>
            rw [List.getElem?_cons_succ, ih shorter]
            omega

/-! ## Cells and marks -/

/-- The character that marks the nibble with this index. -/
def mark? (pattern : String) (index : Nat) : Option Char :=
  pattern.toList.reverse[index]?

/-- A nibble is marked with a digit or it is not. -/
theorem digit_or_none (pattern : String) (index : Nat) :
    (∃ c digit, mark? pattern index = some c ∧ Text.hexDigit? c = some digit) ∨
      ∀ c, mark? pattern index = some c → Text.hexDigit? c = none := by
  cases mark : mark? pattern index with
  | none => exact .inr nofun
  | some c =>
      cases known : Text.hexDigit? c with
      | some digit => exact .inl ⟨c, digit, rfl, known⟩
      | none =>
          right
          rintro _ ⟨⟩
          exact known

/-- The cells are what the characters of the pattern write, and no letter is split. -/
structure Writes (pattern : String) (cells : List Cell) : Prop where
  length : pattern.toList.length = size
  each : pattern.toList.map Cell.ofChar? = cells.map some
  whole : ∀ letter, Cell.slot letter ∈ cells → isSplit letter.char pattern.toList = false

theorem ofChar?_of_cell {pattern : String} {c : Char} {found : Cell}
    (read : cell pattern c = .ok found) : Cell.ofChar? c = some found := by
  unfold cell at read
  split at read
  · cases read
  · next letter known =>
      split at read
      · cases read
      · cases read
        exact known
  · next known =>
      cases read
      exact known

theorem unsplit_of_cell {pattern : String} {letter : Letter} {found : Cell}
    (read : cell pattern letter.char = .ok found) :
    isSplit letter.char pattern.toList = false := by
  rw [cell, Cell.ofChar?_eq_slot_iff.mpr rfl] at read
  cases split : isSplit letter.char pattern.toList with
  | false => rfl
  | true => simp [split] at read

theorem writes_of_cells {pattern : String} {found : List Cell}
    (read : cells pattern = .ok found) : Writes pattern found := by
  unfold cells at read
  split at read
  · cases read
  · next length =>
      have each : pattern.toList.map Cell.ofChar? = found.map some := by
        rw [← List.forall₂_eq_eq_eq, List.forall₂_map_left_iff, List.forall₂_map_right_iff]
        exact (mapM_eq_ok_iff.mp read).imp fun _ _ => ofChar?_of_cell
      refine ⟨not_not.mp length, each, ?_⟩
      intro letter member
      have written : some (Cell.slot letter) ∈ pattern.toList.map Cell.ofChar? :=
        each ▸ List.mem_map_of_mem member
      obtain ⟨c, among, isSlot⟩ := List.mem_map.mp written
      obtain rfl := Cell.ofChar?_eq_slot_iff.mp isSlot
      obtain ⟨_, here⟩ := exists_eq_ok_of_mapM read letter.char among
      exact unsplit_of_cell here

namespace Writes

variable {pattern : String} {cells : List Cell} {letter : Letter}

theorem length_cells (writes : Writes pattern cells) : cells.length = size := by
  have lengths := congrArg List.length writes.each
  rw [List.length_map, List.length_map] at lengths
  exact lengths.symm.trans writes.length

/-- A cell is what the mark of its nibble writes. -/
theorem getElem?_cells (writes : Writes pattern cells) (index : Nat) :
    cells.reverse[index]? = (mark? pattern index).bind Cell.ofChar? := by
  have same := congrArg (fun list => list.reverse[index]?) writes.each
  simp only [← List.map_reverse, List.getElem?_map] at same
  rw [mark?]
  cases cell : cells.reverse[index]? <;> cases mark : pattern.toList.reverse[index]? <;>
    simp_all

/-- Looking for a letter among the cells is looking for it in the pattern. -/
theorem map_beq_slot (writes : Writes pattern cells) (letter : Letter) :
    cells.map (· == .slot letter) = pattern.toList.map (· == letter.char) := by
  have same := congrArg (List.map (· == some (Cell.slot letter))) writes.each
  rw [List.map_map, List.map_map] at same
  calc cells.map (· == .slot letter)
    _ = cells.map ((· == some (.slot letter)) ∘ some) := rfl
    _ = pattern.toList.map ((· == some (.slot letter)) ∘ Cell.ofChar?) := same.symm
    _ = pattern.toList.map (· == letter.char) := by
      apply List.map_congr_left
      intro c _
      rw [Bool.eq_iff_iff, beq_iff_eq, Function.comp_apply, beq_iff_eq]
      exact Cell.ofChar?_eq_slot_iff

theorem count_slot (writes : Writes pattern cells) (letter : Letter) :
    cells.count (.slot letter) = pattern.toList.count letter.char := by
  have same := congrArg (List.countP id) (writes.map_beq_slot letter)
  rwa [List.countP_map, List.countP_map] at same

theorem idxOf_slot (writes : Writes pattern cells) (letter : Letter) :
    cells.idxOf (.slot letter) = pattern.toList.idxOf letter.char := by
  have same := congrArg (List.findIdx id) (writes.map_beq_slot letter)
  rwa [List.findIdx_map, List.findIdx_map] at same

theorem mem_slot_iff (writes : Writes pattern cells) :
    Cell.slot letter ∈ cells ↔ letter.char ∈ pattern.toList := by
  rw [← List.count_pos_iff, writes.count_slot, List.count_pos_iff]

/-- The nibbles of a letter lie inside the pattern. -/
theorem idxOf_add_count_le (writes : Writes pattern cells) (present : Cell.slot letter ∈ cells) :
    cells.idxOf (.slot letter) + cells.count (.slot letter) ≤ size := by
  rw [writes.idxOf_slot, writes.count_slot]
  have some := List.count_pos_iff.mpr (writes.mem_slot_iff.mp present)
  have last := (getElem?_eq_some_iff_of_unsplit (writes.whole letter present)
    (pattern.toList.idxOf letter.char + pattern.toList.count letter.char - 1)).mpr (by omega)
  have inside := (List.getElem?_eq_some_iff.mp last).1
  rw [writes.length] at inside
  omega

end Writes

end Pattern

/-! ## Fields -/

/-- The nibble with this index belongs to the field. -/
def Field.Occupies (field : Field) (index : Nat) : Prop :=
  field.offset < index + field.nibbles ∧ index ≤ field.offset

namespace Pattern

variable {pattern : String} {cells : List Cell} {letter : Letter}

theorem mem_letters_iff : letter ∈ letters cells ↔ Cell.slot letter ∈ cells := by
  rw [letters, List.mem_eraseDups, List.mem_filterMap]
  constructor
  · rintro ⟨cell, member, isSlot⟩
    cases cell <;> cases isSlot
    exact member
  · intro member
    exact ⟨.slot letter, member, rfl⟩

/-- The field of a letter occupies the nibbles that are marked with the letter. -/
theorem Writes.occupies_iff (writes : Writes pattern cells) (present : Cell.slot letter ∈ cells)
    (index : Nat) :
    (field cells letter).Occupies index ↔ mark? pattern index = some letter.char := by
  have inside := writes.idxOf_add_count_le present
  have run := getElem?_eq_some_iff_of_unsplit (writes.whole letter present)
  rw [← writes.idxOf_slot, ← writes.count_slot] at run
  have length : pattern.toList.length = 6 := writes.length
  simp only [Field.Occupies, field, mark?, size] at inside ⊢
  by_cases within : index < 6
  · rw [List.getElem?_reverse (length ▸ within), run, length]
    omega
  · rw [List.getElem?_eq_none (by rw [List.length_reverse, length]; omega)]
    constructor
    · rintro ⟨-, low⟩
      omega
    · rintro ⟨⟩

end Pattern

end ChipAsm
