/-
# Where lines come from

Every line that the preprocessor passes on comes from a line of a file that it works through:
the file it was given, or one that is included, directly or through others. Unless the file
moves its positions, the line is reported where it stands, whatever was included before it.

Nothing else adds lines, so it is enough to follow the work on a file from line to line, and
into included files by induction on how deep files may still be nested.
-/

import ChipAsm.Preprocess
import Mathlib.Data.List.Induction

namespace ChipAsm.Preprocess

/-! ## What does not pass on lines -/

namespace State

@[simp]
theorem lines_blame (state : State) (place : Place) (fault : PreprocessFault) :
    (state.blame place fault).lines = state.lines := rfl

@[simp]
theorem lines_define (state : State) (place : Place) (name value : String) :
    (state.define place name value).lines = state.lines := by
  unfold define
  split
  · rfl
  · split <;> rfl

@[simp]
theorem lines_undefine (state : State) (place : Place) (name : String) :
    (state.undefine place name).lines = state.lines := by
  unfold undefine
  split <;> rfl

end State

namespace Scan

@[simp]
theorem position_update (scan : Scan) (act : State → State) :
    (scan.update act).position = scan.position := by
  unfold update
  split <;> rfl

/-- What keeps the lines of the state keeps those of the work. -/
theorem lines_update {act : State → State} (keeps : ∀ state, (act state).lines = state.lines)
    (scan : Scan) : (scan.update act).state.lines = scan.state.lines := by
  unfold update
  split
  · exact keeps scan.state
  · rfl

/-- The work has the same lines and positions. -/
def Keeps (earlier later : Scan) : Prop :=
  later.state.lines = earlier.state.lines ∧ later.position = earlier.position

theorem keeps_openGroup (scan : Scan) (place : Place) (defined : Bool) (name : String) :
    scan.Keeps (scan.openGroup place defined name) := by
  unfold openGroup
  by_cases named : Text.isName name = true
  · simp only [if_pos named]
    exact ⟨rfl, rfl⟩
  · simp only [if_neg named]
    exact ⟨rfl, rfl⟩

theorem keeps_switchBranch (scan : Scan) (place : Place) :
    scan.Keeps (scan.switchBranch place) := by
  unfold switchBranch
  split
  · exact ⟨rfl, rfl⟩
  · split <;> exact ⟨rfl, rfl⟩

theorem keeps_closeGroup (scan : Scan) (place : Place) : scan.Keeps (scan.closeGroup place) := by
  unfold closeGroup
  split <;> exact ⟨rfl, rfl⟩

theorem lines_move (scan : Scan) (place : Place) (line : Option Nat) (file : Option Path) :
    (scan.move place line file).state.lines = scan.state.lines := by
  cases line <;> rfl

theorem lines_finish (scan : Scan) (file : Path) : (scan.finish file).lines = scan.state.lines := by
  unfold finish
  split <;> rfl

end Scan

/-- A control line of a kind other than `#include` passes on nothing. -/
theorem lines_obey {control : Control} (plain : ∀ target, control ≠ .inclusion target)
    (library : Library) (enter : Option (Path → String → State → State)) (place : Place)
    (scan : Scan) : (obey library enter place scan control).state.lines = scan.state.lines := by
  cases control with
  | opening defined name => exact (scan.keeps_openGroup place defined name).1
  | otherwise => exact (scan.keeps_switchBranch place).1
  | closing => exact (scan.keeps_closeGroup place).1
  | define name value =>
      exact Scan.lines_update (fun state => state.lines_define place name value) scan
  | undefine name => exact Scan.lines_update (fun state => state.lines_undefine place name) scan
  | inclusion target => exact absurd rfl (plain target)
  | position line file =>
      by_cases active : scan.isActive = true
      · simp only [obey, if_pos active]
        exact scan.lines_move place line file
      · simp only [obey, if_neg active]
  | unknown name =>
      exact Scan.lines_update (fun state => state.lines_blame place (.unknownDirective name)) scan

/-- A control line of a kind other than `#line` moves no positions. -/
theorem position_obey {control : Control} (plain : ∀ line name, control ≠ .position line name)
    (library : Library) (enter : Option (Path → String → State → State)) (place : Place)
    (scan : Scan) : (obey library enter place scan control).position = scan.position := by
  cases control with
  | opening defined name => exact (scan.keeps_openGroup place defined name).2
  | otherwise => exact (scan.keeps_switchBranch place).2
  | closing => exact (scan.keeps_closeGroup place).2
  | define name value => exact scan.position_update _
  | undefine name => exact scan.position_update _
  | inclusion target => exact scan.position_update _
  | position line name => exact absurd rfl (plain line name)
  | unknown name => exact scan.position_update _

section

variable {library : Library} {enter : Option (Path → String → State → State)} {file : Path}

/-- A line that is no control line is passed on if it is in force. -/
theorem readLine_of_text {text : String} (plain : Control.ofLine? text = none) (scan : Scan)
    (number : Nat) :
    readLine library enter file scan (text, number) =
      scan.update fun state => state.pass ⟨file, number⟩ (scan.position.report number) text := by
  simp only [readLine, plain]

/-- A control line is obeyed. -/
theorem readLine_of_control {text : String} {control : Control}
    (found : Control.ofLine? text = some control) (scan : Scan) (number : Nat) :
    readLine library enter file scan (text, number) =
      obey library enter ⟨file, number⟩ scan control := by
  simp only [readLine, found]

/-- Only a line `#line` moves positions. -/
theorem position_readLine {text : String}
    (plain : ∀ line name, Control.ofLine? text ≠ some (.position line name)) (scan : Scan)
    (number : Nat) :
    (readLine library enter file scan (text, number)).position = scan.position := by
  cases found : Control.ofLine? text with
  | none =>
      rw [readLine_of_text found]
      exact scan.position_update _
  | some control =>
      rw [readLine_of_control found]
      apply position_obey
      intro line name same
      exact plain line name (found.trans (congrArg some same))

end

/-- Looking for a file passes on nothing. -/
theorem lines_find (library : Library) (state : State) (paths : List Path) :
    (find library state paths).2.lines = state.lines := by
  induction paths generalizing state with
  | nil => rfl
  | cons path rest ih =>
      unfold find
      cases library.load path with
      | some source => rfl
      | none => exact ih (state.note (.looked path false))

/-- A file that is found can be loaded. -/
theorem load_of_find {library : Library} {state : State} {paths : List Path} {path : Path}
    {source : String} (found : (find library state paths).1 = some (path, source)) :
    library.load path = some source := by
  induction paths generalizing state with
  | nil => exact absurd found (by simp [find])
  | cons first rest ih =>
      unfold find at found
      cases loaded : library.load first with
      | some text =>
          rw [loaded] at found
          obtain ⟨rfl, rfl⟩ := Prod.mk.inj (Option.some.inj found)
          exact loaded
      | none =>
          rw [loaded] at found
          exact ih found

/-! ## The work on a file -/

/-- How included files are worked through where `depth` more levels are allowed. -/
def enterAt (library : Library) : (depth : Nat) → Option (Path → String → State → State)
  | 0 => none
  | depth + 1 => some (readFile library depth)

theorem readFile_eq_readLines (library : Library) (depth : Nat) (file : Path) (source : String)
    (state : State) :
    readFile library depth file source state =
      readLines library (enterAt library depth) file source state := by
  cases depth <;> rfl

/-- The work on a file after some of its lines, begun in the given state. -/
def reached (library : Library) (depth : Nat) (file : Path) (state : State)
    (before : List (String × Nat)) : Scan :=
  before.foldl (readLine library (enterAt library depth) file) (Scan.start file state)

theorem reached_concat (library : Library) (depth : Nat) (file : Path) (state : State)
    (before : List (String × Nat)) (last : String × Nat) :
    reached library depth file state (before ++ [last]) =
      readLine library (enterAt library depth) file (reached library depth file state before)
        last := by
  rw [reached, List.foldl_append]
  rfl

/-- A file in which no line moves positions is reported as it is. -/
theorem report_reached {library : Library} {depth : Nat} {file : Path} {state : State}
    {before : List (String × Nat)} {number : Nat}
    (plain : ∀ text ∈ before, ∀ line name, Control.ofLine? text.1 ≠ some (.position line name))
    (counted : 1 ≤ number) :
    (reached library depth file state before).position.report number = ⟨file, number⟩ := by
  have unmoved : (reached library depth file state before).position = ⟨file, 1, 1⟩ := by
    induction before using List.reverseRecOn with
    | nil => rfl
    | append_singleton before last ih =>
        have earlier := ih fun text member => plain text (List.mem_append_left _ member)
        rw [reached_concat, position_readLine (plain last (by simp))]
        exact earlier
  have line : 1 + (number - 1) = number := Nat.add_sub_cancel' counted
  rw [unmoved, Position.report, line]

section

variable (library : Library) (macros : Macros) (main : Path) (source : String)

/-- The run works through this file, with `depth` more levels allowed, from this state. It is
the given file, or a line in force of such a file includes it. -/
inductive Works : (depth : Nat) → Path → String → State → Prop
  | main : Works (maxIncludeDepth - 1) main source { macros }
  | included {depth : Nat} {file path : Path} {text loaded raw : String} {state noted : State}
      {before after : List (String × Nat)} {number : Nat} {target : IncludeTarget}
      (outer : Works (depth + 1) file text state)
      (split : (Text.lines text).zipIdx 1 = before ++ (raw, number) :: after)
      (active : (reached library (depth + 1) file state before).isActive = true)
      (control : Control.ofLine? raw = some (.inclusion (some target)))
      (found : find library (reached library (depth + 1) file state before).state
        (candidates library file target) = (some (path, loaded), noted)) :
      Works depth path loaded (noted.note (.included path))

/-- The line comes from the place `origin`, in a file with the given text: there the run comes
to a line in force that is no control line, expands it to the text of the line, and reports it
at the place of the line. -/
def ComesFrom (line : SourceLine) (origin : Place) (text : String) : Prop :=
  ∃ depth state before raw after, Works library macros main source depth origin.file text state ∧
    (Text.lines text).zipIdx 1 = before ++ (raw, origin.line) :: after ∧
    Control.ofLine? raw = none ∧
    (reached library depth origin.file state before).isActive = true ∧
    (reached library depth origin.file state before).state.macros.expand raw = .ok line.text ∧
    (reached library depth origin.file state before).position.report origin.line = line.place

end

section

variable {library : Library} {macros : Macros} {main : Path} {source : String}

/-- A file that the run works through is the given one or can be loaded. -/
theorem Works.given_or_loaded {depth : Nat} {file : Path} {text : String} {state : State}
    (works : Works library macros main source depth file text state) :
    file = main ∧ text = source ∨ library.load file = some text := by
  cases works with
  | main => exact .inl ⟨rfl, rfl⟩
  | included outer split active control found =>
      exact .inr (load_of_find (by rw [found]))

/-- All lines of the state come from somewhere. -/
def Traced (library : Library) (macros : Macros) (main : Path) (source : String) (state : State) :
    Prop :=
  ∀ line ∈ state.lines, ∃ origin text, ComesFrom library macros main source line origin text

theorem Traced.of_lines_eq {earlier later : State} (same : later.lines = earlier.lines)
    (traced : Traced library macros main source earlier) :
    Traced library macros main source later := by
  intro line member
  rw [same] at member
  exact traced line member

/-- Working through a file at this depth keeps the lines traced. -/
def KeepsTraced (library : Library) (macros : Macros) (main : Path) (source : String)
    (depth : Nat) : Prop :=
  ∀ file text state, Works library macros main source depth file text state →
    Traced library macros main source state →
    Traced library macros main source (readFile library depth file text state)

section Step

variable {depth : Nat} {file : Path} {text raw : String} {state : State} {number : Nat}
  {before after : List (String × Nat)}

/-- A line in force that is no control line is passed on with its origin. -/
theorem traced_of_text (works : Works library macros main source depth file text state)
    (split : (Text.lines text).zipIdx 1 = before ++ (raw, number) :: after)
    (plain : Control.ofLine? raw = none)
    (traced : Traced library macros main source (reached library depth file state before).state) :
    Traced library macros main source
      (reached library depth file state (before ++ [(raw, number)])).state := by
  rw [reached_concat, readLine_of_text plain, Scan.update]
  by_cases active : (reached library depth file state before).isActive = true
  · rw [if_pos active]
    show Traced library macros main source (State.pass _ _ _ raw)
    unfold State.pass
    cases expanded : (reached library depth file state before).state.macros.expand raw with
    | error fault => exact traced.of_lines_eq rfl
    | ok expansion =>
        intro line member
        cases Array.mem_push.mp member with
        | inl earlier => exact traced line earlier
        | inr last =>
            rw [last]
            exact ⟨⟨file, number⟩, text, depth, state, before, raw, after, works, split, plain,
              active, expanded, rfl⟩
  · rw [if_neg active]
    exact traced

/-- What an included file passes on comes from somewhere if that holds of all files that may be
included. -/
theorem traced_of_inclusion {target : Option IncludeTarget}
    (works : Works library macros main source depth file text state)
    (split : (Text.lines text).zipIdx 1 = before ++ (raw, number) :: after)
    (control : Control.ofLine? raw = some (.inclusion target))
    (deeper : ∀ inner, depth = inner + 1 → KeepsTraced library macros main source inner)
    (traced : Traced library macros main source (reached library depth file state before).state) :
    Traced library macros main source
      (reached library depth file state (before ++ [(raw, number)])).state := by
  rw [reached_concat, readLine_of_control control, obey, Scan.update]
  by_cases active : (reached library depth file state before).isActive = true
  · rw [if_pos active]
    show Traced library macros main source (includeFile _ _ _ target _)
    match depth, target with
    | 0, _ => exact traced.of_lines_eq rfl
    | inner + 1, none => exact traced.of_lines_eq rfl
    | inner + 1, some target =>
        have looked := lines_find library (reached library (inner + 1) file state before).state
          (candidates library file target)
        cases found : find library (reached library (inner + 1) file state before).state
          (candidates library file target) with
        | mk result noted =>
            rw [found] at looked
            simp only [includeFile, enterAt, found]
            cases result with
            | none => exact traced.of_lines_eq looked
            | some file =>
                exact deeper inner rfl _ _ _ (.included works split active control found)
                  (traced.of_lines_eq looked)
  · rw [if_neg active]
    exact traced

/-- One line more keeps the lines traced. -/
theorem traced_concat (works : Works library macros main source depth file text state)
    (split : (Text.lines text).zipIdx 1 = before ++ (raw, number) :: after)
    (deeper : ∀ inner, depth = inner + 1 → KeepsTraced library macros main source inner)
    (traced : Traced library macros main source (reached library depth file state before).state) :
    Traced library macros main source
      (reached library depth file state (before ++ [(raw, number)])).state := by
  cases control : Control.ofLine? raw with
  | none => exact traced_of_text works split control traced
  | some found =>
      by_cases includes : ∃ target, found = .inclusion target
      · obtain ⟨target, rfl⟩ := includes
        exact traced_of_inclusion works split control deeper traced
      · rw [reached_concat, readLine_of_control control]
        exact traced.of_lines_eq
          (lines_obey (fun target same => includes ⟨target, same⟩) _ _ _ _)

/-- The work on a file keeps the lines traced. -/
theorem traced_readLines (works : Works library macros main source depth file text state)
    (deeper : ∀ inner, depth = inner + 1 → KeepsTraced library macros main source inner)
    (traced : Traced library macros main source state) :
    Traced library macros main source (readFile library depth file text state) := by
  have throughout : ∀ before after, (Text.lines text).zipIdx 1 = before ++ after →
      Traced library macros main source (reached library depth file state before).state := by
    intro before
    induction before using List.reverseRecOn with
    | nil => exact fun _ _ => traced
    | append_singleton before last ih =>
        intro after split
        rw [List.append_assoc, List.singleton_append] at split
        exact traced_concat works split deeper (ih _ split)
  rw [readFile_eq_readLines]
  exact (throughout _ [] (List.append_nil _).symm).of_lines_eq (Scan.lines_finish _ file)

end Step

/-- What is passed on from a file, and from the files it includes, comes from somewhere. -/
theorem traced_readFile (depth : Nat) : KeepsTraced library macros main source depth := by
  induction depth with
  | zero =>
      -- At the greatest depth no file is entered.
      intro file text state works traced
      apply traced_readLines works _ traced
      intro inner same
      exact absurd same.symm (Nat.succ_ne_zero inner)
  | succ depth ih =>
      intro file text state works traced
      apply traced_readLines works _ traced
      intro inner same
      rw [← Nat.succ.inj same]
      exact ih

/-- Every line that is passed on comes from a line of a file that the run works through. -/
theorem traced_run : Traced library macros main source (run library macros main source) :=
  traced_readFile _ _ _ _ .main (fun line member => absurd member (by simp))

/-- A line comes from the given file or from one that can be loaded. -/
theorem ComesFrom.given_or_loaded {line : SourceLine} {origin : Place} {text : String}
    (comes : ComesFrom library macros main source line origin text) :
    origin.file = main ∧ text = source ∨ library.load origin.file = some text := by
  obtain ⟨_, _, _, _, _, works, -⟩ := comes
  exact works.given_or_loaded

/-- A line that comes from a file in which no line moves positions is reported where it
stands. -/
theorem ComesFrom.place_eq {line : SourceLine} {origin : Place} {text : String}
    (comes : ComesFrom library macros main source line origin text)
    (plain : ∀ raw ∈ Text.lines text, ∀ number name,
      Control.ofLine? raw ≠ some (.position number name)) :
    line.place = origin := by
  obtain ⟨depth, state, before, raw, after, -, split, -, -, -, reported⟩ := comes
  have counted : 1 ≤ origin.line := by
    have member : (raw, origin.line) ∈ (Text.lines text).zipIdx 1 := by
      rw [split]
      simp
    exact List.le_snd_of_mem_zipIdx member
  rw [← reported]
  apply report_reached _ counted
  intro numbered member
  have within : numbered ∈ (Text.lines text).zipIdx 1 := by
    rw [split]
    exact List.mem_append_left _ member
  exact plain numbered.1 (List.fst_mem_of_mem_zipIdx within)

end

end ChipAsm.Preprocess
