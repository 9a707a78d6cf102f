/-
# Preprocessing apart from places

What the preprocessor passes on does not depend on places. The lines of a file have numbers and
are reported somewhere, but no macro, no conditional group and no text looks at that; places
show up only beside the texts and in diagnostics.

This module separates the two. The gist of a state is its macros and the texts passed on, and
there is none if something was blamed. The outline of the work on a file is the gist with the
open groups. Both are computed without places, by the functions `Gist.readFile` and
`Outline.read` below, and the preprocessor agrees with them (`gist?_run`): its gist is theirs,
and it blames something exactly if they have no answer. Which diagnostics there are then is not
told by the outline.
-/

import ChipAsm.Proofs.Preprocess.Origin

namespace ChipAsm.Preprocess

/-- An open group, apart from the line that opened it. -/
structure Group where
  active : Bool
  parentActive : Bool
  seenElse : Bool
  deriving DecidableEq, Repr

/-- The open group of a condition. -/
def Condition.group (condition : Condition) : Group :=
  { active := condition.active, parentActive := condition.parentActive,
    seenElse := condition.seenElse }

/-- The first of the paths that can be read, with its text. -/
def Library.locate? (library : Library) (paths : List Path) : Option (Path × String) :=
  paths.findSome? fun path => (library.load path).map fun source => (path, source)

/-- What all files of a run share, apart from places. -/
structure Gist where
  macros : Macros
  /-- The texts that were passed on. -/
  texts : List String
  deriving DecidableEq, Repr

namespace Gist

/-- Passes on the expansion of a text. -/
def pass (gist : Gist) (text : String) : Option Gist :=
  (gist.macros.expand text).toOption.map fun text => { gist with texts := gist.texts ++ [text] }

/-- Defines a macro. -/
def define (gist : Gist) (name value : String) : Option Gist :=
  if name.toList.contains '(' then none
  else if !Text.isName name then none
  else some { gist with macros := gist.macros.define name value }

/-- Undefines a macro. -/
def undefine (gist : Gist) (name : String) : Option Gist :=
  if Text.isName name then some { gist with macros := gist.macros.undefine name } else none

/-- Works through an included file by `enter`, which is absent if files are already nested as
deep as they may be. -/
def includeFile (library : Library) (enter : Option (Path → String → Gist → Option Gist))
    (including : Path) (target : Option IncludeTarget) (gist : Gist) : Option Gist := do
  let enter ← enter
  let target ← target
  let (path, source) ← library.locate? (candidates library including target)
  enter path source gist

end Gist

/-- The work on one file, apart from places. -/
structure Outline where
  /-- The open groups, the innermost first. -/
  groups : List Group
  gist : Gist
  deriving DecidableEq, Repr

namespace Outline

/-- Whether lines inside these groups are in force. -/
def inForce (groups : List Group) : Bool :=
  groups.head?.all (·.active)

/-- Does something that only lines in force do. -/
def update (outline : Outline) (act : Gist → Option Gist) : Option Outline :=
  if inForce outline.groups then (act outline.gist).map fun gist => { outline with gist }
  else some outline

/-- Opens a group. -/
def openGroup (outline : Outline) (defined : Bool) (name : String) : Option Outline :=
  let active := inForce outline.groups
  let chosen := outline.gist.macros.contains name == defined
  let group := { active := active && chosen, parentActive := active, seenElse := false }
  if Text.isName name then some { outline with groups := group :: outline.groups } else none

/-- Turns to the other branch of the innermost group. -/
def switchBranch (outline : Outline) : Option Outline :=
  match outline.groups with
  | [] => none
  | innermost :: outer =>
      if innermost.seenElse then none
      else
        let other := { innermost with
          seenElse := true, active := innermost.parentActive && !innermost.active }
        some { outline with groups := other :: outer }

/-- Closes the innermost group. -/
def closeGroup (outline : Outline) : Option Outline :=
  match outline.groups with
  | [] => none
  | _ :: outer => some { outline with groups := outer }

/-- Obeys a control line. A `#line` only has to have a number. -/
def obey (library : Library) (enter : Option (Path → String → Gist → Option Gist)) (file : Path)
    (outline : Outline) : Control → Option Outline
  | .opening defined name => outline.openGroup defined name
  | .otherwise => outline.switchBranch
  | .closing => outline.closeGroup
  | .define name value => outline.update fun gist => gist.define name value
  | .undefine name => outline.update fun gist => gist.undefine name
  | .inclusion target => outline.update (Gist.includeFile library enter file target)
  | .position line _ => outline.update fun gist => line.map fun _ => gist
  | .unknown _ => outline.update fun _ => none

/-- Works through one line. -/
def read (library : Library) (enter : Option (Path → String → Gist → Option Gist)) (file : Path)
    (outline : Outline) (text : String) : Option Outline :=
  match Control.ofLine? text with
  | some control => outline.obey library enter file control
  | none => outline.update fun gist => gist.pass text

/-- The gist at the end of the file, where no group is open any more. -/
def finish (outline : Outline) : Option Gist :=
  if outline.groups = [] then some outline.gist else none

end Outline

namespace Gist

/-- Works through the lines of one file. -/
def readLines (library : Library) (enter : Option (Path → String → Gist → Option Gist))
    (file : Path) (lines : List String) (gist : Gist) : Option Gist :=
  (lines.foldlM (Outline.read library enter file) { groups := [], gist }).bind Outline.finish

/-- Works through a file in which files may be included `depth` levels deep. -/
def readFile (library : Library) : (depth : Nat) → Path → String → Gist → Option Gist
  | 0, file, source, gist => readLines library none file (Text.lines source) gist
  | depth + 1, file, source, gist =>
      readLines library (some (readFile library depth)) file (Text.lines source) gist

/-- How included files are worked through where `depth` more levels are allowed. -/
def enterAt (library : Library) : (depth : Nat) → Option (Path → String → Gist → Option Gist)
  | 0 => none
  | depth + 1 => some (readFile library depth)

theorem readFile_eq_readLines (library : Library) (depth : Nat) (file : Path) (source : String)
    (gist : Gist) :
    readFile library depth file source gist =
      readLines library (enterAt library depth) file (Text.lines source) gist := by
  cases depth <;> rfl

end Gist

/-! ## The gist of a state -/

namespace State

/-- The gist of a state in which nothing was blamed. -/
def gist? (state : State) : Option Gist :=
  if state.faults.isEmpty then
    some { macros := state.macros, texts := state.lines.toList.map (·.text) }
  else none

@[simp]
theorem gist?_blame (state : State) (place : Place) (fault : PreprocessFault) :
    (state.blame place fault).gist? = none := by
  simp [gist?, blame]

@[simp]
theorem gist?_note (state : State) (event : Event) : (state.note event).gist? = state.gist? := rfl

theorem gist?_pass (state : State) (physical reported : Place) (text : String) :
    (state.pass physical reported text).gist? = state.gist?.bind fun gist => gist.pass text := by
  unfold pass
  by_cases faultless : state.faults.isEmpty = true
  · cases expanded : state.macros.expand text with
    | error fault => simp [gist?, faultless, Gist.pass, expanded, Except.toOption, blame]
    | ok expansion => simp [gist?, faultless, Gist.pass, expanded, Except.toOption]
  · cases state.macros.expand text with
    | error fault => simp [gist?, faultless, blame]
    | ok expansion => simp [gist?, faultless]

theorem gist?_define (state : State) (place : Place) (name value : String) :
    (state.define place name value).gist? =
      state.gist?.bind fun gist => gist.define name value := by
  unfold define
  by_cases parameters : '(' ∈ name.toList
  · simp [parameters, Gist.define]
  · by_cases named : Text.isName name = true
    · by_cases faultless : state.faults.isEmpty = true
      · simp [gist?, faultless, parameters, named, Gist.define, note]
      · simp [gist?, faultless, parameters, named, note]
    · simp [parameters, named, Gist.define]

theorem gist?_undefine (state : State) (place : Place) (name : String) :
    (state.undefine place name).gist? = state.gist?.bind fun gist => gist.undefine name := by
  unfold undefine
  by_cases named : Text.isName name = true
  · by_cases faultless : state.faults.isEmpty = true
    · simp [gist?, faultless, named, Gist.undefine]
    · simp [gist?, faultless, named]
  · simp [named, Gist.undefine]

/-- A run that blames nothing has a gist, and the preprocessed text is then what is written for
the lines passed on. -/
theorem result_eq_ok_iff {state : State} {file : Path} {out : String} :
    state.result file = .ok out ↔
      (∃ gist, state.gist? = some gist) ∧ SourceLine.render file state.lines.toList = out := by
  unfold result gist?
  by_cases faultless : state.faults.isEmpty = true
  · simp [faultless]
  · simp [faultless]

/-- The texts of a gist are those of the lines passed on. -/
theorem map_text_of_gist? {state : State} {gist : Gist} (found : state.gist? = some gist) :
    state.lines.toList.map (·.text) = gist.texts := by
  unfold gist? at found
  split at found
  · rw [← Option.some.inj found]
  · cases found

end State

theorem fst_find (library : Library) (state : State) (paths : List Path) :
    (find library state paths).1 = library.locate? paths := by
  unfold Library.locate?
  induction paths generalizing state with
  | nil => rfl
  | cons path rest ih =>
      rw [find, List.findSome?_cons]
      cases library.load path with
      | some source => rfl
      | none => exact ih _

theorem gist?_find (library : Library) (state : State) (paths : List Path) :
    (find library state paths).2.gist? = state.gist? := by
  induction paths generalizing state with
  | nil => rfl
  | cons path rest ih =>
      rw [find]
      cases library.load path with
      | some source => rfl
      | none => exact ih _

/-- The two ways to work through included files agree on the gist. -/
def Agrees : Option (Path → String → State → State) →
    Option (Path → String → Gist → Option Gist) → Prop
  | none, none => True
  | some enter, some brief => ∀ path source state,
      (enter path source state).gist? = state.gist?.bind fun gist => brief path source gist
  | _, _ => False

section

variable {library : Library} {enter : Option (Path → String → State → State)}
  {brief : Option (Path → String → Gist → Option Gist)}

theorem gist?_includeFile (agrees : Agrees enter brief) (place : Place)
    (target : Option IncludeTarget) (state : State) :
    (includeFile library enter place target state).gist? =
      state.gist?.bind (Gist.includeFile library brief place.file target) := by
  match enter, brief, agrees, target with
  | none, none, _, _ => cases gist : state.gist? <;> simp [includeFile, Gist.includeFile]
  | some _, some _, _, none => cases gist : state.gist? <;> simp [includeFile, Gist.includeFile]
  | some enter, some brief, agrees, some target =>
      have result := fst_find library state (candidates library place.file target)
      have looked := gist?_find library state (candidates library place.file target)
      cases found : find library state (candidates library place.file target) with
      | mk located noted =>
          rw [found] at result looked
          simp only at result looked
          cases located with
          | none =>
              cases gist : state.gist? <;> simp [includeFile, found, Gist.includeFile, ← result]
          | some file =>
              have entered := agrees file.1 file.2 (noted.note (.included file.1))
              rw [State.gist?_note, looked] at entered
              cases gist : state.gist? <;>
                simp [includeFile, found, Gist.includeFile, ← result, entered, gist]

/-! ## The outline of the work on a file -/

namespace Scan

/-- The outline of work in which nothing was blamed. -/
def outline? (scan : Scan) : Option Outline :=
  scan.state.gist?.map fun gist => { groups := scan.conditions.map Condition.group, gist }

/-- The groups tell whether lines are in force. -/
theorem inForce_conditions (scan : Scan) :
    Outline.inForce (scan.conditions.map Condition.group) = scan.isActive := by
  unfold isActive
  cases scan.conditions <;> rfl

theorem inForce_of_outline? {scan : Scan} {outline : Outline}
    (found : scan.outline? = some outline) :
    Outline.inForce outline.groups = scan.isActive := by
  obtain ⟨gist, -, rfl⟩ := Option.map_eq_some_iff.mp found
  exact scan.inForce_conditions

theorem outline?_blame (scan : Scan) (place : Place) (fault : PreprocessFault) :
    (scan.blame place fault).outline? = none := by
  simp [outline?, blame]

/-- What agrees on the gist of the state agrees on the outline of the work. -/
theorem outline?_update {act : State → State} {brief : Gist → Option Gist}
    (agrees : ∀ state, (act state).gist? = state.gist?.bind brief) (scan : Scan) :
    (scan.update act).outline? = scan.outline?.bind fun outline => outline.update brief := by
  rw [update, outline?]
  by_cases active : scan.isActive = true
  · rw [if_pos active, outline?, agrees]
    cases scan.state.gist? with
    | none => rfl
    | some gist => simp [Outline.update, scan.inForce_conditions, active]
  · rw [if_neg active, outline?]
    cases scan.state.gist? with
    | none => rfl
    | some gist => simp [Outline.update, scan.inForce_conditions, active]

theorem outline?_openGroup (scan : Scan) (place : Place) (defined : Bool) (name : String) :
    (scan.openGroup place defined name).outline? =
      scan.outline?.bind fun outline => outline.openGroup defined name := by
  unfold openGroup
  by_cases named : Text.isName name = true
  · simp only [if_pos named, outline?]
    by_cases faultless : scan.state.faults.isEmpty = true
    · simp [State.gist?, faultless, Outline.openGroup, named, scan.inForce_conditions,
        Condition.group]
    · simp [State.gist?, faultless]
  · simp [outline?, blame, Outline.openGroup, named]

theorem outline?_switchBranch (scan : Scan) (place : Place) :
    (scan.switchBranch place).outline? = scan.outline?.bind Outline.switchBranch := by
  unfold switchBranch
  cases conditions : scan.conditions with
  | nil =>
      rw [outline?_blame, outline?, conditions]
      cases scan.state.gist? <;> rfl
  | cons innermost outer =>
      by_cases seen : innermost.seenElse = true
      · simp only [if_pos seen, outline?_blame]
        rw [outline?, conditions]
        cases scan.state.gist? with
        | none => rfl
        | some gist => simp [Outline.switchBranch, Condition.group, seen]
      · simp only [if_neg seen, outline?, conditions]
        cases scan.state.gist? with
        | none => rfl
        | some gist => simp [Outline.switchBranch, Condition.group, seen]

theorem outline?_closeGroup (scan : Scan) (place : Place) :
    (scan.closeGroup place).outline? = scan.outline?.bind Outline.closeGroup := by
  unfold closeGroup
  cases conditions : scan.conditions with
  | nil =>
      rw [outline?_blame, outline?, conditions]
      cases scan.state.gist? <;> rfl
  | cons innermost outer =>
      rw [outline?, outline?, conditions]
      cases scan.state.gist? <;> rfl

theorem gist?_finish (scan : Scan) (file : Path) :
    (scan.finish file).gist? = scan.outline?.bind Outline.finish := by
  unfold finish
  cases conditions : scan.conditions with
  | nil =>
      rw [outline?, conditions]
      cases scan.state.gist? <;> rfl
  | cons innermost outer =>
      rw [outline?, conditions, State.gist?_blame]
      cases scan.state.gist? <;> rfl

end Scan

theorem outline?_obey (agrees : Agrees enter brief) (file : Path) (number : Nat) (scan : Scan)
    (control : Control) :
    (obey library enter ⟨file, number⟩ scan control).outline? =
      scan.outline?.bind fun outline => outline.obey library brief file control := by
  cases control with
  | opening defined name => exact scan.outline?_openGroup _ defined name
  | otherwise => exact scan.outline?_switchBranch _
  | closing => exact scan.outline?_closeGroup _
  | define name value =>
      exact Scan.outline?_update (fun state => state.gist?_define _ name value) scan
  | undefine name => exact Scan.outline?_update (fun state => state.gist?_undefine _ name) scan
  | inclusion target =>
      exact Scan.outline?_update (gist?_includeFile agrees ⟨file, number⟩ target) scan
  | position line name =>
      -- A number that cannot be read is blamed on the state; positions are no part of it.
      let act := fun state : State =>
        if line.isNone then state.blame ⟨file, number⟩ .lineNumberExpected else state
      have moved : (obey library enter ⟨file, number⟩ scan (.position line name)).outline? =
          (scan.update act).outline? := by
        rw [obey, Scan.update]
        by_cases active : scan.isActive = true
        · rw [if_pos active, if_pos active]
          cases line <;> rfl
        · rw [if_neg active, if_neg active]
      have agreed : ∀ state, (act state).gist? =
          state.gist?.bind fun gist => line.map fun _ => gist := by
        intro state
        cases line with
        | none => cases gist : state.gist? <;> simp [act]
        | some base => cases gist : state.gist? <;> simp [act, gist]
      exact moved.trans (Scan.outline?_update agreed scan)
  | unknown name =>
      have agreed : ∀ state : State, (state.blame ⟨file, number⟩ (.unknownDirective name)).gist? =
          state.gist?.bind fun _ => none := by
        intro state
        cases gist : state.gist? <;> simp
      exact Scan.outline?_update agreed scan

/-- The outline after a line is that of the line. -/
theorem outline?_readLine (agrees : Agrees enter brief) (file : Path) (scan : Scan)
    (numbered : String × Nat) :
    (readLine library enter file scan numbered).outline? =
      scan.outline?.bind fun outline => outline.read library brief file numbered.1 := by
  obtain ⟨text, number⟩ := numbered
  cases found : Control.ofLine? text with
  | none =>
      simp only [readLine_of_text found, Outline.read, found]
      exact Scan.outline?_update (fun state => state.gist?_pass _ _ text) scan
  | some control =>
      simp only [readLine_of_control found, Outline.read, found]
      exact outline?_obey agrees file number scan control

/-- The outline after some lines, which does not depend on their numbers. -/
theorem outline?_foldl (agrees : Agrees enter brief) (file : Path)
    (numbered : List (String × Nat)) (scan : Scan) :
    (numbered.foldl (readLine library enter file) scan).outline? =
      scan.outline?.bind fun outline =>
        (numbered.map Prod.fst).foldlM (Outline.read library brief file) outline := by
  induction numbered generalizing scan with
  | nil => cases outline : scan.outline? <;> simp [outline]
  | cons first rest ih =>
      rw [List.foldl_cons, ih, outline?_readLine agrees, Option.bind_assoc]
      rfl

theorem gist?_readLines (agrees : Agrees enter brief) (file : Path) (source : String)
    (state : State) :
    (readLines library enter file source state).gist? =
      state.gist?.bind (Gist.readLines library brief file (Text.lines source)) := by
  have start : (Scan.start file state).outline? =
      state.gist?.map fun gist => { groups := [], gist } := rfl
  rw [readLines, Scan.gist?_finish, outline?_foldl agrees, List.zipIdx_map_fst, start]
  cases state.gist? <;> rfl

end

/-- Included files are worked through alike, however deep they are nested. -/
theorem agrees_enterAt (library : Library) (depth : Nat) :
    Agrees (enterAt library depth) (Gist.enterAt library depth) := by
  induction depth with
  | zero => trivial
  | succ depth ih =>
      intro path source state
      rw [readFile_eq_readLines, gist?_readLines ih]
      congr 1
      funext gist
      exact (Gist.readFile_eq_readLines library depth path source gist).symm

/-- The outline of the work on a file after some of its lines. -/
theorem outline?_reached (library : Library) (depth : Nat) (file : Path) (macros : Macros)
    (lines : List String) :
    (reached library depth file { macros } (lines.zipIdx 1)).outline? =
      lines.foldlM (Outline.read library (Gist.enterAt library depth) file)
        { groups := [], gist := { macros, texts := [] } } := by
  rw [reached, outline?_foldl (agrees_enterAt library depth), List.zipIdx_map_fst]
  rfl

/-- The gist of a run does not depend on places. -/
theorem gist?_run (library : Library) (macros : Macros) (file : Path) (source : String) :
    (run library macros file source).gist? =
      Gist.readLines library (Gist.enterAt library (maxIncludeDepth - 1)) file
        (Text.lines source) { macros, texts := [] } := by
  rw [run, readFile_eq_readLines, gist?_readLines (agrees_enterAt library _)]
  rfl

end ChipAsm.Preprocess
