/-
# Conditional groups

The preprocessor follows the grammar of conditional groups. A file is blamed for the structure
of its groups exactly if its marks are not balanced, and in a balanced file a line is carried out
exactly if it stands in the chosen branch of every group around it, where the choice is made by
the macros that are defined at the opening line of the group.

An open group is remembered with three flags. What ties them to the grammar is that balanced
lines leave the open groups as they are, so only the opening line of a group and its turn count
for a line inside it. An included file is worked through in between, but it has groups of its
own; whatever it blames is blamed on it.
-/

import ChipAsm.Proofs.Preprocess.Grouping
import ChipAsm.Proofs.Preprocess.Origin

namespace ChipAsm.Preprocess

open Mark

/-! ## What a line does to the open groups -/

section Line

variable {library : Library} {enter : Option (Path → String → State → State)} {file : Path}
  {raw : String} {number : Nat} {scan : Scan}

@[simp]
theorem Scan.conditions_update (scan : Scan) (act : State → State) :
    (scan.update act).conditions = scan.conditions := by
  unfold update
  split <;> rfl

/-- A line without a mark leaves the open groups as they are, even if it includes a file. -/
theorem conditions_readLine_of_unmarked (unmarked : Mark.ofLine? raw = none) :
    (readLine library enter file scan (raw, number)).conditions = scan.conditions := by
  cases found : Control.ofLine? raw with
  | none =>
      rw [readLine_of_text found]
      exact scan.conditions_update _
  | some control =>
      rw [readLine_of_control found]
      have plain : control.mark? = none := by
        rw [Mark.ofLine?, found] at unmarked
        exact unmarked
      cases control with
      | opening defined name => cases plain
      | otherwise => cases plain
      | closing => cases plain
      | define name value => exact scan.conditions_update _
      | undefine name => exact scan.conditions_update _
      | inclusion target => exact scan.conditions_update _
      | position line name =>
          rw [obey]
          split
          · cases line <;> rfl
          · rfl
      | unknown name => exact scan.conditions_update _

/-- An opening line opens a group. -/
theorem conditions_readLine_of_opening {defined : Bool} {name : String}
    (opens : Control.ofLine? raw = some (.opening defined name)) :
    (readLine library enter file scan (raw, number)).conditions =
      { active := scan.isActive && scan.state.macros.contains name == defined
        parentActive := scan.isActive, seenElse := false, line := number } ::
        scan.conditions := by
  rw [readLine_of_control opens, obey, Scan.openGroup]
  by_cases named : Text.isName name = true
  · rw [if_pos named]
  · rw [if_neg named]
    rfl

/-- An `#else` turns to the other branch of the innermost group. -/
theorem conditions_readLine_of_otherwise (turns : Control.ofLine? raw = some .otherwise)
    {innermost : Condition} {outer : List Condition}
    (conditions : scan.conditions = innermost :: outer) (unseen : innermost.seenElse = false) :
    (readLine library enter file scan (raw, number)).conditions =
      { innermost with
        seenElse := true, active := innermost.parentActive && !innermost.active } :: outer := by
  rw [readLine_of_control turns, obey, Scan.switchBranch, conditions]
  simp only [unseen, Bool.false_eq_true, if_false]

/-- An `#endif` closes the innermost group. -/
theorem conditions_readLine_of_closing (closes : Control.ofLine? raw = some .closing)
    {innermost : Condition} {outer : List Condition}
    (conditions : scan.conditions = innermost :: outer) :
    (readLine library enter file scan (raw, number)).conditions = outer := by
  rw [readLine_of_control closes, obey, Scan.closeGroup, conditions]

end Line

/-! ## The groups that are open after some lines -/

/-- The work on a file after its first lines, begun in the given state. -/
def worked (library : Library) (depth : Nat) (file : Path) (state : State)
    (lines : List String) : Scan :=
  reached library depth file state (lines.zipIdx 1)

section Lines

variable {library : Library} {depth : Nat} {file : Path} {state : State}

theorem worked_concat (lines : List String) (raw : String) :
    worked library depth file state (lines ++ [raw]) =
      readLine library (enterAt library depth) file (worked library depth file state lines)
        (raw, lines.length + 1) := by
  rw [worked, List.zipIdx_append, List.zipIdx_singleton, reached_concat, Nat.add_comm]
  rfl

/-- The work on a file is finished after all of its lines. -/
theorem readFile_eq_finish (library : Library) (depth : Nat) (file : Path) (source : String)
    (state : State) :
    readFile library depth file source state =
      (worked library depth file state (Text.lines source)).finish file := by
  rw [readFile_eq_readLines]
  rfl

/-- Lines without marks leave the open groups as they are. -/
theorem conditions_worked_of_unmarked {more : List String} (unmarked : sequence more = [])
    (lines : List String) :
    (worked library depth file state (lines ++ more)).conditions =
      (worked library depth file state lines).conditions := by
  induction more generalizing lines with
  | nil => rw [List.append_nil]
  | cons raw rest ih =>
      have plain := List.filterMap_eq_nil_iff.mp unmarked
      have others : sequence rest = [] := by
        rw [← sequence_cons_of_none (plain raw List.mem_cons_self)]
        exact unmarked
      rw [List.append_cons, ih others, worked_concat]
      exact conditions_readLine_of_unmarked (plain raw List.mem_cons_self)

/-- An opening line adds a group that has not turned. -/
theorem exists_conditions_of_opening {raw : String} (opens : Mark.ofLine? raw = some .opening)
    {lines : List String} {conditions : List Condition}
    (before : (worked library depth file state lines).conditions = conditions) :
    ∃ condition, condition.seenElse = false ∧
      (worked library depth file state (lines ++ [raw])).conditions =
        condition :: conditions := by
  obtain ⟨defined, name, found⟩ := exists_opening_of_ofLine? opens
  rw [worked_concat, conditions_readLine_of_opening found, before]
  exact ⟨_, rfl, rfl⟩

/-- Balanced lines leave the open groups as they are. -/
theorem conditions_worked_of_balanced {marks : List Mark} (balanced : Balanced marks)
    {more : List String} (spelled : sequence more = marks) (lines : List String) :
    (worked library depth file state (lines ++ more)).conditions =
      (worked library depth file state lines).conditions := by
  induction balanced generalizing more lines with
  | empty => exact conditions_worked_of_unmarked spelled lines
  | group _ _ inside after =>
      rw [← List.nil_append (Mark.opening :: _)] at spelled
      obtain ⟨plain, opening, rest, rfl, unmarked, opens, spelled⟩ := exists_of_sequence_eq spelled
      obtain ⟨body, closing, rest, rfl, inBody, closes, inRest⟩ := exists_of_sequence_eq spelled
      obtain ⟨condition, -, opened⟩ :=
        exists_conditions_of_opening opens (conditions_worked_of_unmarked unmarked lines)
      have inside := (inside inBody _).trans opened
      have regrouped : lines ++ (plain ++ opening :: (body ++ closing :: rest)) =
          (lines ++ plain ++ [opening] ++ body ++ [closing]) ++ rest := by simp
      rw [regrouped, after inRest, worked_concat]
      exact conditions_readLine_of_closing (closing_of_ofLine? closes) inside
  | choice _ _ _ inFirst inSecond after =>
      rw [← List.nil_append (Mark.opening :: _)] at spelled
      obtain ⟨plain, opening, rest, rfl, unmarked, opens, spelled⟩ := exists_of_sequence_eq spelled
      obtain ⟨body, turn, rest, rfl, inBody, turns, spelled⟩ := exists_of_sequence_eq spelled
      obtain ⟨other, closing, rest, rfl, inOther, closes, inRest⟩ := exists_of_sequence_eq spelled
      obtain ⟨condition, unseen, opened⟩ :=
        exists_conditions_of_opening opens (conditions_worked_of_unmarked unmarked lines)
      have inFirst := (inFirst inBody _).trans opened
      have inSecond := inSecond inOther (lines ++ plain ++ [opening] ++ body ++ [turn])
      rw [worked_concat _ turn, conditions_readLine_of_otherwise (otherwise_of_ofLine? turns)
        inFirst unseen] at inSecond
      have regrouped : lines ++ (plain ++ opening :: (body ++ turn :: (other ++ closing :: rest))) =
          (lines ++ plain ++ [opening] ++ body ++ [turn] ++ other ++ [closing]) ++ rest := by simp
      rw [regrouped, after inRest, worked_concat]
      exact conditions_readLine_of_closing (closing_of_ofLine? closes) inSecond

/-! ## Groups and their flags -/

/-- The branch that a line stands in is the chosen one: the first if, when the opening line of
the group is reached, its macro is defined or not as it asks, and else the second. -/
def Chosen (library : Library) (depth : Nat) (file : Path) (state : State)
    (group : Enclosure) : Prop :=
  ((worked library depth file state group.outer).state.macros.contains group.name ==
    group.defined) = group.first

instance (group : Enclosure) : Decidable (Chosen library depth file state group) :=
  inferInstanceAs (Decidable (_ = _))

/-- The flags of the open groups say in which branches a line stands, and whether these and
those around them are chosen. -/
inductive Reflects (chosen : Enclosure → Prop) : List Condition → List Enclosure → Prop
  | outside : Reflects chosen [] []
  | inside {condition : Condition} {conditions : List Condition} {group : Enclosure}
      {groups : List Enclosure} (around : Reflects chosen conditions groups)
      (parent : condition.parentActive = true ↔ ∀ other ∈ groups, chosen other)
      (active : condition.active = true ↔ chosen group ∧ ∀ other ∈ groups, chosen other)
      (turned : condition.seenElse = !group.first) :
      Reflects chosen (condition :: conditions) (group :: groups)

theorem Reflects.map_seenElse {chosen : Enclosure → Prop} {conditions : List Condition}
    {groups : List Enclosure} (reflects : Reflects chosen conditions groups) :
    conditions.map (·.seenElse) = groups.map (!·.first) := by
  induction reflects with
  | outside => rfl
  | inside _ _ _ turned ih => rw [List.map_cons, List.map_cons, turned, ih]

/-- Lines are in force exactly if all branches are chosen. -/
theorem Reflects.isActive_iff {chosen : Enclosure → Prop} {scan : Scan}
    {groups : List Enclosure} (reflects : Reflects chosen scan.conditions groups) :
    scan.isActive = true ↔ ∀ group ∈ groups, chosen group := by
  unfold Scan.isActive
  generalize scan.conditions = conditions at reflects
  cases reflects with
  | outside => simp
  | inside _ _ active _ =>
      rw [List.forall_mem_cons]
      exact active

/-- A group that was just opened is reflected, in its first branch. -/
theorem Reflects.opened {outer : List String} {groups : List Enclosure} {raw : String}
    {defined : Bool} {name : String}
    (around : Reflects (Chosen library depth file state)
      (worked library depth file state outer).conditions groups)
    (opens : Control.ofLine? raw = some (.opening defined name)) :
    Reflects (Chosen library depth file state)
      (worked library depth file state (outer ++ [raw])).conditions
      (⟨outer, defined, name, true⟩ :: groups) := by
  rw [worked_concat, conditions_readLine_of_opening opens]
  refine .inside around around.isActive_iff ?_ rfl
  rw [Bool.and_eq_true, around.isActive_iff, and_comm]
  rfl

/-- A group that has turned is reflected, in its second branch. -/
theorem Reflects.turned {before outer : List String} {groups : List Enclosure} {raw : String}
    {defined : Bool} {name : String}
    (inside : Reflects (Chosen library depth file state)
      (worked library depth file state before).conditions (⟨outer, defined, name, true⟩ :: groups))
    (turns : Control.ofLine? raw = some .otherwise) :
    Reflects (Chosen library depth file state)
      (worked library depth file state (before ++ [raw])).conditions
      (⟨outer, defined, name, false⟩ :: groups) := by
  generalize conditions : (worked library depth file state before).conditions = opened at inside
  cases inside with
  | @inside condition _ _ _ around parent active turned =>
      rw [worked_concat, conditions_readLine_of_otherwise turns conditions turned]
      refine .inside around parent ?_ rfl
      rw [Bool.and_eq_true, parent, Bool.not_eq_true', ← Bool.not_eq_true, active]
      unfold Chosen
      grind

/-- The flags of the open groups are those of the groups that a line stands in. -/
theorem reflects_worked (library : Library) (depth : Nat) (file : Path) (state : State)
    {before : List String} {groups : List Enclosure} (enclosed : EnclosedBy before groups) :
    Reflects (Chosen library depth file state)
      (worked library depth file state before).conditions groups := by
  induction enclosed with
  | @outside before balanced =>
      rw [← List.nil_append before, conditions_worked_of_balanced balanced rfl]
      exact .outside
  | first around opens balanced ih =>
      rw [List.append_cons, conditions_worked_of_balanced balanced rfl]
      exact ih.opened opens
  | second around opens inFirst turns balanced ih =>
      rw [List.append_cons, ← List.append_assoc, List.append_cons,
        conditions_worked_of_balanced balanced rfl]
      apply Reflects.turned _ turns
      rw [conditions_worked_of_balanced inFirst rfl]
      exact ih.opened opens

end Lines

/-! ## Faults of structure -/

/-- The fault is about the structure of groups. -/
def Structural : PreprocessFault → Prop
  | .strayElse => True
  | .secondElse => True
  | .strayEndif => True
  | .unterminatedCondition => True
  | _ => False

/-- The later state blames one more fault than the earlier one. -/
def State.Adds (earlier later : State) (place : Place) (fault : PreprocessFault) : Prop :=
  later.faults = earlier.faults.push (place.diagnostic (.preprocess fault))

theorem State.not_adds_of_faults_eq {earlier later : State} {place : Place}
    {fault : PreprocessFault} (same : later.faults = earlier.faults) :
    ¬earlier.Adds later place fault := by
  intro adds
  have sizes := congrArg Array.size (same.symm.trans adds)
  rw [Array.size_push] at sizes
  omega

/-- Working through the file records the fault, at one of its lines or at its end. What is
recorded while an included file is worked through is recorded for that file. -/
inductive Records (library : Library) (depth : Nat) (file : Path) (source : String)
    (state : State) : PreprocessFault → Prop
  | line {before after : List String} {raw : String} {fault : PreprocessFault}
      (split : Text.lines source = before ++ raw :: after)
      (own : ∀ target, Control.ofLine? raw ≠ some (.inclusion target))
      (adds : (worked library depth file state before).state.Adds
        (worked library depth file state (before ++ [raw])).state
        ⟨file, before.length + 1⟩ fault) :
      Records library depth file source state fault
  | finish {line : Nat} {fault : PreprocessFault}
      (adds : (worked library depth file state (Text.lines source)).state.Adds
        (readFile library depth file source state) ⟨file, line⟩ fault) :
      Records library depth file source state fault

section Faults

variable {library : Library} {enter : Option (Path → String → State → State)} {file : Path}
  {raw : String} {number : Nat} {scan : Scan}

/-- Nothing is blamed, or one fault that is not about the structure of groups. -/
def State.Unstructural (place : Place) (earlier later : State) : Prop :=
  later.faults = earlier.faults ∨
    ∃ fault, ¬Structural fault ∧ earlier.Adds later place fault

theorem State.unstructural_pass (state : State) (place reported : Place) (text : String) :
    Unstructural place state (state.pass place reported text) := by
  unfold pass
  cases state.macros.expand text with
  | ok expansion => exact .inl rfl
  | error fault => exact .inr ⟨.expansion fault, id, rfl⟩

theorem State.unstructural_define (state : State) (place : Place) (name value : String) :
    Unstructural place state (state.define place name value) := by
  unfold define
  split
  · exact .inr ⟨.macroWithParameters name, id, rfl⟩
  · split
    · exact .inr ⟨.invalidMacroName name, id, rfl⟩
    · exact .inl rfl

theorem State.unstructural_undefine (state : State) (place : Place) (name : String) :
    Unstructural place state (state.undefine place name) := by
  unfold undefine
  split
  · exact .inl rfl
  · exact .inr ⟨.nameExpected "undef", id, rfl⟩

theorem Scan.unstructural_update {act : State → State} {place : Place}
    (unstructural : ∀ state, State.Unstructural place state (act state)) (scan : Scan) :
    State.Unstructural place scan.state (scan.update act).state := by
  unfold update
  split
  · exact unstructural scan.state
  · exact .inl rfl

theorem Scan.unstructural_openGroup (scan : Scan) (place : Place) (defined : Bool)
    (name : String) :
    State.Unstructural place scan.state (scan.openGroup place defined name).state := by
  unfold openGroup
  by_cases named : Text.isName name = true
  · rw [if_pos named]
    exact .inl rfl
  · rw [if_neg named]
    exact .inr ⟨.nameExpected (Control.openingName defined), id, rfl⟩

theorem Scan.unstructural_move (scan : Scan) (place : Place) (line : Option Nat)
    (name : Option Path) :
    State.Unstructural place scan.state (scan.move place line name).state := by
  cases line with
  | none => exact .inr ⟨.lineNumberExpected, id, rfl⟩
  | some base => exact .inl rfl

/-- A line without a mark, if it includes no file, is not blamed for the structure of groups. -/
theorem unstructural_readLine_of_unmarked (unmarked : Mark.ofLine? raw = none)
    (own : ∀ target, Control.ofLine? raw ≠ some (.inclusion target)) :
    State.Unstructural ⟨file, number⟩ scan.state
      (readLine library enter file scan (raw, number)).state := by
  cases found : Control.ofLine? raw with
  | none =>
      rw [readLine_of_text found]
      exact scan.unstructural_update fun state => state.unstructural_pass _ _ raw
  | some control =>
      rw [readLine_of_control found]
      have plain : control.mark? = none := by
        rw [Mark.ofLine?, found] at unmarked
        exact unmarked
      cases control with
      | opening defined name => cases plain
      | otherwise => cases plain
      | closing => cases plain
      | define name value =>
          exact scan.unstructural_update fun state => state.unstructural_define _ name value
      | undefine name =>
          exact scan.unstructural_update fun state => state.unstructural_undefine _ name
      | inclusion target => exact absurd found (own target)
      | position line name =>
          rw [obey]
          split
          · exact scan.unstructural_move _ line name
          · exact .inl rfl
      | unknown name =>
          apply scan.unstructural_update
          intro state
          exact .inr ⟨.unknownDirective name, id, rfl⟩

/-- The later state is blamed for the structure of groups if a mark did not fit, and else it is
not. -/
def State.Judges (place : Place) (earlier later : State) : (fit : Option (List Bool)) → Prop
  | some _ => Unstructural place earlier later
  | none => ∃ fault, Structural fault ∧ earlier.Adds later place fault

/-- A mark is blamed for the structure of groups exactly if it does not fit. -/
theorem judges_readLine {mark : Mark} (marked : Mark.ofLine? raw = some mark) :
    State.Judges ⟨file, number⟩ scan.state (readLine library enter file scan (raw, number)).state
      (step (scan.conditions.map (·.seenElse)) mark) := by
  obtain ⟨conditions, position, state⟩ := scan
  match mark with
  | .opening =>
      obtain ⟨defined, name, opens⟩ := exists_opening_of_ofLine? marked
      rw [readLine_of_control opens]
      exact Scan.unstructural_openGroup _ _ defined name
  | .otherwise =>
      rw [readLine_of_control (otherwise_of_ofLine? marked)]
      match conditions with
      | [] => exact ⟨.strayElse, trivial, rfl⟩
      | ⟨_, _, false, _⟩ :: outer => exact .inl rfl
      | ⟨_, _, true, _⟩ :: outer => exact ⟨.secondElse, trivial, rfl⟩
  | .closing =>
      rw [readLine_of_control (closing_of_ofLine? marked)]
      match conditions with
      | [] => exact ⟨.strayEndif, trivial, rfl⟩
      | _ :: outer => exact .inl rfl

/-- What adds no fault of structure adds no such fault. -/
theorem State.Unstructural.not_structural {place : Place} {earlier later : State}
    (unstructural : Unstructural place earlier later) {fault : PreprocessFault}
    (adds : earlier.Adds later place fault) : ¬Structural fault := by
  rcases unstructural with same | ⟨other, plain, added⟩
  · exact absurd adds (State.not_adds_of_faults_eq same)
  · have pushed : earlier.faults.push (place.diagnostic (.preprocess fault)) =
        earlier.faults.push (place.diagnostic (.preprocess other)) := adds.symm.trans added
    have equal : fault = other := by
      injection (Array.push_inj_right.mp pushed) with _ _ faults
      injection faults
    rw [equal]
    exact plain

end Faults

section

variable {library : Library} {depth : Nat} {file : Path} {source : String} {state : State}

/-- The flags of the open groups are those that the marks lead to. -/
theorem map_seenElse_worked {lines : List String} {turned : List Bool}
    (fits : openAfter lines = some turned) :
    (worked library depth file state lines).conditions.map (·.seenElse) = turned := by
  obtain ⟨groups, enclosed, rfl⟩ := EnclosedBy.exists_of_openAfter fits
  exact (reflects_worked library depth file state enclosed).map_seenElse

/-- After lines whose marks fit, a mark is blamed exactly if it does not fit. -/
theorem judges_worked (library : Library) (depth : Nat) (file : Path) (state : State)
    {before : List String} {turned : List Bool} (fits : openAfter before = some turned)
    {raw : String} {mark : Mark} (marked : Mark.ofLine? raw = some mark) :
    State.Judges ⟨file, before.length + 1⟩ (worked library depth file state before).state
      (worked library depth file state (before ++ [raw])).state (step turned mark) := by
  rw [worked_concat, ← map_seenElse_worked fits]
  exact judges_readLine marked

/-- A file with balanced marks is not blamed for the structure of its groups. -/
theorem not_structural_of_records (balanced : Balanced (sequence (Text.lines source)))
    {fault : PreprocessFault} (records : Records library depth file source state fault) :
    ¬Structural fault := by
  have fits := openAfter_eq_nil_iff.mpr balanced
  cases records with
  | @line before after raw _ split own adds =>
      cases marked : Mark.ofLine? raw with
      | none =>
          rw [worked_concat] at adds
          exact (unstructural_readLine_of_unmarked marked own).not_structural adds
      | some mark =>
          rw [split, List.append_cons] at fits
          obtain ⟨later, fitted⟩ := exists_openAfter_of_append fits
          rw [openAfter_concat_of_some marked] at fitted
          obtain ⟨earlier, fitted, stepped⟩ := Option.bind_eq_some_iff.mp fitted
          have judged := judges_worked library depth file state fitted marked
          rw [stepped] at judged
          exact State.Unstructural.not_structural judged adds
  | finish adds =>
      have none : (worked library depth file state (Text.lines source)).conditions = [] :=
        List.map_eq_nil_iff.mp (map_seenElse_worked fits)
      rw [readFile_eq_finish, Scan.finish, none] at adds
      exact absurd adds (State.not_adds_of_faults_eq rfl)

/-- A file whose marks are not balanced is blamed for the structure of its groups. -/
theorem exists_records_of_not_balanced (unbalanced : ¬Balanced (sequence (Text.lines source))) :
    ∃ fault, Structural fault ∧ Records library depth file source state fault := by
  cases fits : openAfter (Text.lines source) with
  | none =>
      obtain ⟨before, raw, after, turned, mark, split, fitted, marked, misfit⟩ :=
        exists_misfit fits
      have judged := judges_worked library depth file state fitted marked
      rw [misfit] at judged
      obtain ⟨fault, structural, adds⟩ := judged
      refine ⟨fault, structural, .line split ?_ adds⟩
      intro target included
      rw [Mark.ofLine?, included] at marked
      cases marked
  | some turned =>
      have flags : (worked library depth file state (Text.lines source)).conditions.map
          (·.seenElse) = turned := map_seenElse_worked fits
      cases conditions : (worked library depth file state (Text.lines source)).conditions with
      | nil =>
          rw [conditions] at flags
          subst flags
          exact absurd (openAfter_eq_nil_iff.mp fits) unbalanced
      | cons innermost outer =>
          have adds : (worked library depth file state (Text.lines source)).state.Adds
              (readFile library depth file source state) ⟨file, innermost.line⟩
              .unterminatedCondition := by
            rw [readFile_eq_finish, Scan.finish, conditions]
            rfl
          exact ⟨.unterminatedCondition, trivial, .finish adds⟩

end

/-! ## Lines that are carried out -/

/-- What a line without a mark does if it is carried out: a text is passed on, and a control
line has its effect on the macros, the positions or the faults, or includes a file. -/
def Scan.carryOut (library : Library) (enter : Option (Path → String → State → State))
    (place : Place) (raw : String) (scan : Scan) : Scan :=
  match Control.ofLine? raw with
  | none =>
      { scan with state := scan.state.pass place (scan.position.report place.line) raw }
  | some (.define name value) => { scan with state := scan.state.define place name value }
  | some (.undefine name) => { scan with state := scan.state.undefine place name }
  | some (.inclusion target) =>
      { scan with state := includeFile library enter place target scan.state }
  | some (.position line name) => scan.move place line name
  | some (.unknown name) => scan.blame place (.unknownDirective name)
  | some _ => scan

/-- A line without a mark is carried out if it is in force, and else nothing is done. -/
theorem readLine_of_unmarked {library : Library} {enter : Option (Path → String → State → State)}
    {file : Path} {raw : String} {number : Nat} {scan : Scan}
    (unmarked : Mark.ofLine? raw = none) :
    readLine library enter file scan (raw, number) =
      if scan.isActive then scan.carryOut library enter ⟨file, number⟩ raw else scan := by
  unfold Scan.carryOut
  cases found : Control.ofLine? raw with
  | none => exact readLine_of_text found scan number
  | some control =>
      rw [readLine_of_control found]
      have plain : control.mark? = none := by
        rw [Mark.ofLine?, found] at unmarked
        exact unmarked
      cases control with
      | opening defined name => cases plain
      | otherwise => cases plain
      | closing => cases plain
      | define name value => rfl
      | undefine name => rfl
      | inclusion target => rfl
      | position line name => rfl
      | unknown name => rfl

/-- Conditionals follow their grammar and choose the right lines, in every file that is worked
through, from every state. The file is blamed for the structure of its groups exactly if its
marks are not balanced. If they are, a line that has no mark stands in certain groups; it is
carried out if it stands in the chosen branch of each of them, and else nothing is done. A line
that includes a file leaves the groups of its own file as they are. -/
theorem conditionals_follow_grammar (library : Library) (depth : Nat) (file : Path)
    (source : String) (state : State) :
    let lines := Text.lines source
    let enter := enterAt library depth
    let after := worked library depth file state
    ((∃ fault, Structural fault ∧ Records library depth file source state fault) ↔
      ¬Balanced (sequence lines)) ∧
    (Balanced (sequence lines) → ∀ before raw rest, lines = before ++ raw :: rest →
      Mark.ofLine? raw = none →
      (∃ groups, EnclosedBy before groups) ∧
      ∀ groups, EnclosedBy before groups →
        after (before ++ [raw]) =
          if ∀ group ∈ groups, Chosen library depth file state group then
            (after before).carryOut library enter ⟨file, before.length + 1⟩ raw
          else after before) ∧
    ∀ scan raw number target, Control.ofLine? raw = some (.inclusion target) →
      (readLine library enter file scan (raw, number)).conditions = scan.conditions := by
  intro lines enter after
  refine ⟨⟨?_, exists_records_of_not_balanced⟩, ?_, ?_⟩
  · rintro ⟨fault, structural, records⟩ balanced
    exact not_structural_of_records balanced records structural
  · intro balanced before raw rest split unmarked
    constructor
    · have fits := openAfter_eq_nil_iff.mpr balanced
      rw [split] at fits
      obtain ⟨turned, fitted⟩ := exists_openAfter_of_append fits
      obtain ⟨groups, enclosed, -⟩ := EnclosedBy.exists_of_openAfter fitted
      exact ⟨groups, enclosed⟩
    · intro groups enclosed
      have inForce := (reflects_worked library depth file state enclosed).isActive_iff
      show worked library depth file state (before ++ [raw]) = _
      rw [worked_concat, readLine_of_unmarked unmarked]
      exact if_congr inForce rfl rfl
  · intro scan raw number target included
    apply conditions_readLine_of_unmarked
    rw [Mark.ofLine?, included]
    rfl

/-- A line in the second branch of a group inside the first branch of another one, both about a
macro that is defined before, and a file with a second `#else`. -/
theorem conditionals_follow_grammar_in_nested_groups :
    let library : Library := { load := fun _ => none, directories := [] }
    let after := worked library 63 (.ofText "main") { macros := {} }
    let nested := "#define A\n#ifdef A\n#ifndef A\nx\n#else\ny\n#endif\n#endif"
    let before := ["#define A", "#ifdef A", "#ifndef A", "x", "#else"]
    let groups : List Enclosure :=
      [⟨["#define A", "#ifdef A"], false, "A", false⟩, ⟨["#define A"], true, "A", true⟩]
    (Balanced (sequence (Text.lines nested)) ∧ EnclosedBy before groups ∧
      after (before ++ ["y"]) =
        (after before).carryOut library (enterAt library 63) ⟨.ofText "main", 6⟩ "y") ∧
    ∃ fault, Structural fault ∧
      Records library 63 (.ofText "main") "#ifdef A\n#else\n#else\n#endif" { macros := {} }
        fault := by
  intro library after nested before groups
  have balanced : Balanced (sequence (Text.lines nested)) :=
    openAfter_eq_nil_iff.mp (by decide +kernel)
  have outermost : EnclosedBy ["#define A"] [] :=
    .outside (openAfter_eq_nil_iff.mp (by decide +kernel))
  have around : EnclosedBy (["#define A"] ++ "#ifdef A" :: []) [⟨["#define A"], true, "A", true⟩] :=
    .first outermost (by decide +kernel) .empty
  have enclosed : EnclosedBy
      (["#define A", "#ifdef A"] ++ "#ifndef A" :: (["x"] ++ "#else" :: [])) groups :=
    .second around (by decide +kernel) (openAfter_eq_nil_iff.mp (by decide +kernel))
      (by decide +kernel) .empty
  obtain ⟨-, chosen, -⟩ :=
    conditionals_follow_grammar library 63 (.ofText "main") nested { macros := {} }
  have carried := (chosen balanced before "y" ["#endif", "#endif"] (by decide +kernel)
    (by decide +kernel)).2 groups enclosed
  rw [if_pos (by decide +kernel)] at carried
  refine ⟨⟨balanced, enclosed, carried⟩, ?_⟩
  apply (conditionals_follow_grammar library 63 (.ofText "main") _ { macros := {} }).1.mpr
  intro unbalanced
  exact absurd (openAfter_eq_nil_iff.mpr unbalanced) (by decide +kernel)

end ChipAsm.Preprocess
