/-
# What opcodes accept in common

Whether an opcode accepts an instruction depends on the mnemonic and on the shapes of the
arguments, and the shapes that an opcode accepts can be listed. So it can be decided for two
opcodes whether there is an instruction that both accept, although there are infinitely many
instructions.

The list of an opcode with three operands contains the rows of two shapes as well that stand
for three, which is where opcodes with different numbers of operands can meet.
-/

import ChipAsm.Proofs.Encoding.Acceptance
import ChipAsm.Proofs.Operand.Shape
import Mathlib.Data.List.Sections

namespace ChipAsm

/-- A row of shapes for the arguments. -/
theorem Shape.exists_forall₂_fits (arguments : List String) :
    ∃ shapes : List Shape, List.Forall₂ Shape.Fits shapes arguments := by
  induction arguments with
  | nil => exact ⟨[], .nil⟩
  | cons argument rest ih =>
      obtain ⟨shape, fits⟩ := exists_fits argument
      obtain ⟨shapes, others⟩ := ih
      exact ⟨shape :: shapes, .cons fits others⟩

namespace Opcode

variable {opcode : Opcode}

/-- The items as the opcode counts them: of two items for three operands, the first counts
twice. -/
def spread {α : Type} (opcode : Opcode) (items : List α) : List α :=
  match items with
  | [first, second] => if opcode.operands.length = 3 then [first, first, second] else items
  | _ => items

theorem spread_pair {α : Type} (three : opcode.operands.length = 3) (first second : α) :
    opcode.spread [first, second] = [first, first, second] := if_pos three

theorem spread_eq_self {α : Type} {items : List α}
    (enough : ¬ (items.length = 2 ∧ opcode.operands.length = 3)) : opcode.spread items = items := by
  unfold spread
  split
  · exact if_neg fun three => enough ⟨rfl, three⟩
  · rfl

theorem normalize_eq_spread (arguments : List String) :
    opcode.normalize arguments = opcode.spread arguments := by
  match arguments with
  | [] => rfl
  | [_] => rfl
  | [_, _] => rfl
  | _ :: _ :: _ :: _ => rfl

theorem forall₂_spread {α β : Type} {related : α → β → Prop} {items : List α} {others : List β}
    (paired : List.Forall₂ related items others) :
    List.Forall₂ related (opcode.spread items) (opcode.spread others) := by
  match paired with
  | .nil => exact .nil
  | .cons first .nil => exact .cons first .nil
  | .cons first (.cons second (.cons third rest)) =>
      exact .cons first (.cons second (.cons third rest))
  | .cons first (.cons second .nil) =>
      simp only [spread]
      split
      · exact .cons first (.cons first (.cons second .nil))
      · exact .cons first (.cons second .nil)

/-- Each operand accepts arguments of its shape. -/
def Suits (opcode : Opcode) (shapes : List Shape) : Prop :=
  List.Forall₂ (fun (shape : Shape) operand => operand.kind ∈ shape.kinds) (opcode.spread shapes)
    opcode.operands

/-- Operands accept arguments exactly if they accept their shapes. -/
theorem forall₂_accepts_iff {shapes : List Shape} {arguments : List String}
    (fits : List.Forall₂ Shape.Fits shapes arguments) {operands : List Operand} :
    List.Forall₂ (fun operand argument => operand.kind.accepts argument = true) operands
        arguments ↔
      List.Forall₂ (fun (shape : Shape) operand => operand.kind ∈ shape.kinds) shapes operands := by
  induction fits generalizing operands with
  | nil => simp
  | cons fits _ ih =>
      cases operands with
      | nil => simp
      | cons operand rest => rw [List.forall₂_cons, List.forall₂_cons, ih, fits operand.kind]

/-- An opcode accepts an instruction exactly if it has the mnemonic and suits the shapes of the
arguments. -/
theorem accepts_iff_suits {instruction : Instruction} {shapes : List Shape}
    (fits : List.Forall₂ Shape.Fits shapes instruction.arguments) :
    opcode.accepts instruction = true ↔
      instruction.mnemonic = opcode.mnemonic ∧ opcode.Suits shapes := by
  rw [accepts_iff_forall₂, normalize_eq_spread, Suits,
    forall₂_accepts_iff (forall₂_spread fits)]

/-- The rows of shapes that the operands accept one by one. -/
def rows (opcode : Opcode) : List (List Shape) :=
  (opcode.operands.map fun operand =>
    Shape.all.filter fun shape => operand.kind ∈ shape.kinds).sections

/-- Two shapes that stand for the three of a row. -/
def shorten? : List Shape → Option (List Shape)
  | [first, again, second] => if first = again then some [first, second] else none
  | _ => none

/-- The rows of shapes that the opcode accepts. -/
def shapes (opcode : Opcode) : List (List Shape) :=
  opcode.rows ++ opcode.rows.filterMap shorten?

theorem mem_rows_iff {row : List Shape} :
    row ∈ opcode.rows ↔
      List.Forall₂ (fun (shape : Shape) operand => operand.kind ∈ shape.kinds) row
        opcode.operands := by
  rw [rows, List.mem_sections, List.forall₂_map_right_iff]
  simp only [List.mem_filter, Shape.mem_all, true_and, decide_eq_true_eq]

theorem shorten?_eq_some_iff {row shapes : List Shape} :
    shorten? row = some shapes ↔
      ∃ first second, row = [first, first, second] ∧ shapes = [first, second] := by
  constructor
  · intro short
    unfold shorten? at short
    split at short
    · next first again second =>
        split at short
        · next same =>
            cases short
            exact ⟨first, second, by rw [same], rfl⟩
        · cases short
    · cases short
  · rintro ⟨first, second, rfl, rfl⟩
    exact if_pos rfl

/-- The list of an opcode has the rows that it suits. -/
theorem mem_shapes_iff {row : List Shape} : row ∈ opcode.shapes ↔ opcode.Suits row := by
  rw [shapes, List.mem_append, List.mem_filterMap, Suits, ← mem_rows_iff]
  constructor
  · rintro (member | ⟨long, member, short⟩)
    · have same := (mem_rows_iff.mp member).length_eq
      rwa [spread_eq_self (by omega)]
    · obtain ⟨first, second, rfl, rfl⟩ := shorten?_eq_some_iff.mp short
      rwa [spread_pair (mem_rows_iff.mp member).length_eq.symm]
  · intro member
    by_cases short : row.length = 2 ∧ opcode.operands.length = 3
    · obtain ⟨two, three⟩ := short
      obtain ⟨first, second, rfl⟩ := List.length_eq_two.mp two
      rw [spread_pair three] at member
      exact .inr ⟨_, member, shorten?_eq_some_iff.mpr ⟨first, second, rfl, rfl⟩⟩
    · rw [spread_eq_self short] at member
      exact .inl member

instance (opcode : Opcode) (row : List Shape) : Decidable (opcode.Suits row) :=
  decidable_of_iff (row ∈ opcode.shapes) mem_shapes_iff

/-- The rows of shapes that two opcodes of one mnemonic both accept. -/
def shared (first second : Opcode) : List (List Shape) :=
  if first.mnemonic = second.mnemonic then first.shapes.filter (second.Suits ·) else []

/-- What two opcodes accept is in the list that they share. -/
theorem mem_shared {first second : Opcode} {instruction : Instruction} {shapes : List Shape}
    (fits : List.Forall₂ Shape.Fits shapes instruction.arguments)
    (accepted : first.accepts instruction = true) (also : second.accepts instruction = true) :
    shapes ∈ first.shared second := by
  obtain ⟨mnemonic, suits⟩ := (accepts_iff_suits fits).mp accepted
  obtain ⟨sameMnemonic, suitsAlso⟩ := (accepts_iff_suits fits).mp also
  rw [shared, if_pos (mnemonic.symm.trans sameMnemonic), List.mem_filter, mem_shapes_iff]
  exact ⟨suits, decide_eq_true suitsAlso⟩

end Opcode

end ChipAsm
