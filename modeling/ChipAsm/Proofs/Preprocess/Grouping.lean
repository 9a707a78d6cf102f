/-
# The grammar of conditional groups

Control lines that open, turn and close conditional groups are marks, and the marks of a file
are balanced if a small grammar generates them: nothing, or a group and what comes after it,
where a group has one branch or two and each branch is balanced in turn.

The grammar is compared with a machine that only knows, of each open group, whether it has
turned to its second branch. The machine takes the marks one by one and has to be left without
open groups in the end. It also tells which groups a line stands in: those that were opened
before the line and are not closed again, with the branch that the line belongs to.
-/

import ChipAsm.Preprocess.Control
import Mathlib.Data.List.Induction

namespace ChipAsm

/-- The part that a control line has in the nesting of conditional groups. -/
inductive Mark
  /-- `#ifdef` or `#ifndef` -/
  | opening
  /-- `#else` -/
  | otherwise
  /-- `#endif` -/
  | closing
  deriving DecidableEq, Repr

/-- The mark of a control line, if it belongs to the structure of groups. -/
def Control.mark? : Control → Option Mark
  | .opening _ _ => some .opening
  | .otherwise => some .otherwise
  | .closing => some .closing
  | _ => none

namespace Mark

/-- The mark of a line. -/
def ofLine? (line : String) : Option Mark :=
  (Control.ofLine? line).bind Control.mark?

/-- The marks of some lines, in order. -/
def sequence (lines : List String) : List Mark :=
  lines.filterMap ofLine?

/-- The sequences of marks that the grammar generates. -/
inductive Balanced : List Mark → Prop
  | empty : Balanced []
  | group {inner rest : List Mark} (inside : Balanced inner) (after : Balanced rest) :
      Balanced (.opening :: (inner ++ .closing :: rest))
  | choice {first second rest : List Mark} (inFirst : Balanced first)
      (inSecond : Balanced second) (after : Balanced rest) :
      Balanced (.opening :: (first ++ .otherwise :: (second ++ .closing :: rest)))

/-- The groups that are open after a mark, each told by whether it has turned to its second
branch, the innermost first. There is no answer if the mark does not fit. -/
def step (turned : List Bool) : Mark → Option (List Bool)
  | .opening => some (false :: turned)
  | .otherwise =>
      match turned with
      | false :: outer => some (true :: outer)
      | _ => none
  | .closing =>
      match turned with
      | _ :: outer => some outer
      | [] => none

/-- The groups that are open after some lines. -/
def openAfter (lines : List String) : Option (List Bool) :=
  (sequence lines).foldlM step []

/-! ## Marks and lines -/

theorem sequence_append (first second : List String) :
    sequence (first ++ second) = sequence first ++ sequence second :=
  List.filterMap_append

theorem sequence_cons_of_none {line : String} (unmarked : ofLine? line = none)
    (rest : List String) : sequence (line :: rest) = sequence rest :=
  List.filterMap_cons_none unmarked

theorem sequence_cons_of_some {line : String} {mark : Mark} (marked : ofLine? line = some mark)
    (rest : List String) : sequence (line :: rest) = mark :: sequence rest :=
  List.filterMap_cons_some marked

theorem openAfter_concat_of_none {line : String} (unmarked : ofLine? line = none)
    (before : List String) : openAfter (before ++ [line]) = openAfter before := by
  rw [openAfter, sequence_append, sequence_cons_of_none unmarked]
  exact congrArg (List.foldlM step [] ·) (List.append_nil _)

theorem openAfter_concat_of_some {line : String} {mark : Mark}
    (marked : ofLine? line = some mark) (before : List String) :
    openAfter (before ++ [line]) = (openAfter before).bind (step · mark) := by
  rw [openAfter, sequence_append, sequence_cons_of_some marked, List.foldlM_append]
  apply congrArg
  funext turned
  exact List.foldlM_cons.trans (Option.bind_fun_some _)

/-- Where there is a mark among those of some lines, there is a line that has it. -/
theorem exists_of_sequence_eq {lines : List String} {earlier later : List Mark} {mark : Mark}
    (spelled : sequence lines = earlier ++ mark :: later) :
    ∃ before line after, lines = before ++ line :: after ∧ sequence before = earlier ∧
      ofLine? line = some mark ∧ sequence after = later := by
  obtain ⟨before, rest, rfl, first, spelled⟩ := List.filterMap_eq_append_iff.mp spelled
  obtain ⟨plain, line, after, rfl, unmarked, marked, last⟩ :=
    List.filterMap_eq_cons_iff.mp spelled
  refine ⟨before ++ plain, line, after, (List.append_assoc ..).symm, ?_, marked, last⟩
  have none : sequence plain = [] := List.filterMap_eq_nil_iff.mpr unmarked
  rw [sequence_append, none, List.append_nil]
  exact first

theorem ofLine?_of_opening {line : String} {defined : Bool} {name : String}
    (opens : Control.ofLine? line = some (.opening defined name)) :
    ofLine? line = some .opening := by
  rw [ofLine?, opens]
  rfl

theorem ofLine?_of_otherwise {line : String} (turns : Control.ofLine? line = some .otherwise) :
    ofLine? line = some .otherwise := by
  rw [ofLine?, turns]
  rfl

/-- A line that opens a group asks for a macro. -/
theorem exists_opening_of_ofLine? {line : String} (marked : ofLine? line = some .opening) :
    ∃ defined name, Control.ofLine? line = some (.opening defined name) := by
  obtain ⟨control, found, marked⟩ := Option.bind_eq_some_iff.mp marked
  cases control with
  | opening defined name => exact ⟨defined, name, found⟩
  | _ => cases marked

theorem otherwise_of_ofLine? {line : String} (marked : ofLine? line = some .otherwise) :
    Control.ofLine? line = some .otherwise := by
  obtain ⟨control, found, marked⟩ := Option.bind_eq_some_iff.mp marked
  cases control with
  | otherwise => exact found
  | _ => cases marked

theorem closing_of_ofLine? {line : String} (marked : ofLine? line = some .closing) :
    Control.ofLine? line = some .closing := by
  obtain ⟨control, found, marked⟩ := Option.bind_eq_some_iff.mp marked
  cases control with
  | closing => exact found
  | _ => cases marked

/-! ## The machine accepts what is balanced -/

theorem Balanced.append {first second : List Mark} (before : Balanced first)
    (after : Balanced second) : Balanced (first ++ second) := by
  induction before with
  | empty => exact after
  | group inside _ _ ih =>
      rw [List.cons_append, List.append_assoc, List.cons_append]
      exact .group inside ih
  | choice inFirst inSecond _ _ _ ih =>
      rw [List.cons_append, List.append_assoc, List.cons_append, List.append_assoc,
        List.cons_append]
      exact .choice inFirst inSecond ih

/-- Balanced marks leave the open groups as they are. -/
theorem Balanced.foldlM_step {marks : List Mark} (balanced : Balanced marks)
    (turned : List Bool) : marks.foldlM step turned = some turned := by
  induction balanced generalizing turned with
  | empty => rfl
  | group _ _ inside after =>
      rw [List.foldlM_cons, step, Option.bind_eq_bind, Option.bind_some, List.foldlM_append,
        inside, Option.bind_eq_bind, Option.bind_some, List.foldlM_cons]
      exact after turned
  | choice _ _ _ inFirst inSecond after =>
      rw [List.foldlM_cons, step, Option.bind_eq_bind, Option.bind_some, List.foldlM_append,
        inFirst, Option.bind_eq_bind, Option.bind_some, List.foldlM_cons, step,
        Option.bind_eq_bind, Option.bind_some, List.foldlM_append, inSecond,
        Option.bind_eq_bind, Option.bind_some, List.foldlM_cons]
      exact after turned

end Mark

/-! ## The groups around a line -/

open Mark

/-- A group that a line stands in. -/
structure Enclosure where
  /-- The lines before the one that opens the group. -/
  outer : List String
  /-- Whether the opening line asks for a macro that is defined, or for one that is not. -/
  defined : Bool
  /-- The macro that the opening line asks for. -/
  name : String
  /-- Whether the line stands in the first branch. -/
  first : Bool
  deriving DecidableEq, Repr

/-- The groups, the innermost first, that a line stands in which comes after the given lines:
those that are opened by them and not closed again. What stands between the lines of an
unfinished group is balanced. -/
inductive EnclosedBy : (before : List String) → List Enclosure → Prop
  | outside {before : List String} (balanced : Balanced (sequence before)) :
      EnclosedBy before []
  | first {outer inner : List String} {opening : String} {defined : Bool} {name : String}
      {groups : List Enclosure} (around : EnclosedBy outer groups)
      (opens : Control.ofLine? opening = some (.opening defined name))
      (balanced : Balanced (sequence inner)) :
      EnclosedBy (outer ++ opening :: inner) (⟨outer, defined, name, true⟩ :: groups)
  | second {outer earlier inner : List String} {opening turn : String} {defined : Bool}
      {name : String} {groups : List Enclosure} (around : EnclosedBy outer groups)
      (opens : Control.ofLine? opening = some (.opening defined name))
      (inFirst : Balanced (sequence earlier)) (turns : Control.ofLine? turn = some .otherwise)
      (balanced : Balanced (sequence inner)) :
      EnclosedBy (outer ++ opening :: (earlier ++ turn :: inner))
        (⟨outer, defined, name, false⟩ :: groups)

namespace EnclosedBy

/-- Balanced lines change nothing about the groups after them. -/
theorem append {before more : List String} {groups : List Enclosure}
    (enclosed : EnclosedBy before groups) (balanced : Balanced (sequence more)) :
    EnclosedBy (before ++ more) groups := by
  cases enclosed with
  | outside earlier =>
      apply EnclosedBy.outside
      rw [sequence_append]
      exact earlier.append balanced
  | first around opens earlier =>
      rw [List.append_assoc, List.cons_append]
      apply EnclosedBy.first around opens
      rw [sequence_append]
      exact earlier.append balanced
  | second around opens inFirst turns earlier =>
      rw [List.append_assoc, List.cons_append, List.append_assoc, List.cons_append]
      apply EnclosedBy.second around opens inFirst turns
      rw [sequence_append]
      exact earlier.append balanced

/-- After a group is closed, a line stands in the groups around it. -/
theorem close {before : List String} {group : Enclosure} {groups : List Enclosure}
    (enclosed : EnclosedBy before (group :: groups)) {line : String}
    (closes : Mark.ofLine? line = some .closing) : EnclosedBy (before ++ [line]) groups := by
  have last : sequence [line] = [.closing] := sequence_cons_of_some closes []
  cases enclosed with
  | first around opens balanced =>
      rw [List.append_assoc, List.cons_append]
      apply around.append
      have opened := sequence_cons_of_some (Mark.ofLine?_of_opening opens)
      rw [opened, sequence_append, last]
      exact .group balanced .empty
  | second around opens inFirst turns balanced =>
      rw [List.append_assoc, List.cons_append, List.append_assoc, List.cons_append]
      apply around.append
      have opened := sequence_cons_of_some (Mark.ofLine?_of_opening opens)
      have turned := sequence_cons_of_some (Mark.ofLine?_of_otherwise turns)
      rw [opened, sequence_append, turned, sequence_append, last]
      exact .choice inFirst balanced .empty

/-- Where the marks fit so far, a line stands in groups that are in the branches which the
machine tells. -/
theorem exists_of_openAfter {before : List String} {turned : List Bool}
    (fits : openAfter before = some turned) :
    ∃ groups, EnclosedBy before groups ∧ groups.map (!·.first) = turned := by
  -- The induction goes from line to line; only a line with a mark changes the groups.
  induction before using List.reverseRecOn generalizing turned with
  | nil =>
      cases fits
      exact ⟨[], .outside .empty, rfl⟩
  | append_singleton before line ih =>
      cases marked : Mark.ofLine? line with
      | none =>
          rw [openAfter_concat_of_none marked] at fits
          obtain ⟨groups, enclosed, same⟩ := ih fits
          refine ⟨groups, enclosed.append ?_, same⟩
          rw [sequence_cons_of_none marked]
          exact .empty
      | some mark =>
          rw [openAfter_concat_of_some marked] at fits
          obtain ⟨earlier, fitted, taken⟩ := Option.bind_eq_some_iff.mp fits
          obtain ⟨groups, enclosed, rfl⟩ := ih fitted
          match mark, groups with
          | .opening, groups =>
              obtain ⟨defined, name, opens⟩ := exists_opening_of_ofLine? marked
              cases taken
              exact ⟨_, enclosed.first opens .empty, rfl⟩
          | .otherwise, [] => cases taken
          | .otherwise, ⟨outer, defined, name, false⟩ :: groups => cases taken
          | .otherwise, ⟨outer, defined, name, true⟩ :: groups =>
              cases taken
              cases enclosed with
              | @first _ inner opening _ _ _ around opens balanced =>
                  refine ⟨⟨outer, defined, name, false⟩ :: groups, ?_, rfl⟩
                  rw [List.append_assoc, List.cons_append]
                  exact .second around opens balanced (otherwise_of_ofLine? marked) .empty
          | .closing, [] => cases taken
          | .closing, group :: groups =>
              cases taken
              exact ⟨groups, enclosed.close marked, rfl⟩

end EnclosedBy

namespace Mark

/-- The marks of some lines are balanced exactly if all of them fit and no group stays open. -/
theorem openAfter_eq_nil_iff {lines : List String} :
    openAfter lines = some [] ↔ Balanced (sequence lines) := by
  constructor
  · intro fits
    obtain ⟨groups, enclosed, none⟩ := EnclosedBy.exists_of_openAfter fits
    rw [List.map_eq_nil_iff] at none
    subst none
    cases enclosed with
    | outside balanced => exact balanced
  · intro balanced
    exact balanced.foldlM_step []

/-- Marks that do not all fit have a first that does not. -/
theorem exists_misfit {lines : List String} (misfit : openAfter lines = none) :
    ∃ before line after turned mark, lines = before ++ line :: after ∧
      openAfter before = some turned ∧ ofLine? line = some mark ∧ step turned mark = none := by
  induction lines using List.reverseRecOn with
  | nil => cases misfit
  | append_singleton before line ih =>
      cases fits : openAfter before with
      | none =>
          obtain ⟨first, failing, after, turned, mark, rfl, rest⟩ := ih fits
          exact ⟨first, failing, after ++ [line], turned, mark, by simp, rest⟩
      | some turned =>
          cases marked : ofLine? line with
          | none =>
              rw [openAfter_concat_of_none marked, fits] at misfit
              cases misfit
          | some mark =>
              rw [openAfter_concat_of_some marked, fits] at misfit
              exact ⟨before, line, [], turned, mark, rfl, fits, marked, misfit⟩

/-- If all marks fit, those of the first lines do, and so does the next. -/
theorem exists_openAfter_of_append {before after : List String} {turned : List Bool}
    (fits : openAfter (before ++ after) = some turned) :
    ∃ earlier, openAfter before = some earlier := by
  rw [openAfter, sequence_append, List.foldlM_append] at fits
  obtain ⟨earlier, fitted, -⟩ := Option.bind_eq_some_iff.mp fits
  exact ⟨earlier, fitted⟩

end Mark

end ChipAsm
