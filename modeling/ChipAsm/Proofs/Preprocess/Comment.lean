/-
# Comments on control lines

A control line may end in a comment. The comment is inert where the line is cut before it: where a
blank parts the name of the control line from what follows, or where the comment has no blank. A
comment that stands directly after the name and has a blank becomes part of the name up to there,
and the control line is then of no known kind.

What a control line does is all that matters of it, so two sources that differ by an inert comment
have the same result.
-/

import ChipAsm.Proofs.Preprocess.Origin
import ChipAsm.Proofs.Preprocess.Quotation
import ChipAsm.Proofs.Text.Blank

namespace ChipAsm

namespace Control

open Text

/-- What stands on a control line after the `#` and the blanks around it. -/
def body (line : String) : List Char :=
  trimStart (trimStart line.toList).tail

/-- What a control line with this body does. -/
def ofBody (text : List Char) : Control :=
  ofParts (String.ofList (splitName text).1) (splitName text).2

/-- The comment stays apart from the name of the control line: the name is parted by a blank from
what follows it, or the comment has no blank that could part it. -/
def Apart (line comment : String) : Prop :=
  (∃ c ∈ body line, isBlank c = true) ∨ ∀ c ∈ comment.toList, isBlank c = false

section Body

variable {line : String} (control : (trimStart line.toList).head? = some '#')

include control

theorem ofLine?_eq_ofBody : ofLine? line = some (ofBody (body line)) := by
  obtain ⟨rest, starts⟩ := List.head?_eq_some_iff.mp control
  rw [ofLine?, body, starts]
  rfl

theorem trimStart_append_eq (more : String) :
    trimStart (line ++ more).toList = trimStart line.toList ++ more.toList := by
  rw [String.toList_append, trimStart, trimStart, List.dropWhile_append]
  obtain ⟨rest, starts⟩ := List.head?_eq_some_iff.mp control
  rw [trimStart] at starts
  rw [starts]
  rfl

theorem head?_trimStart_append (more : String) :
    (trimStart (line ++ more).toList).head? = some '#' := by
  rw [trimStart_append_eq control, List.head?_append, control]
  rfl

/-- A comment is added at the end of the body. -/
theorem body_append (comment : String) :
    body (line ++ ";" ++ comment) = body line ++ ';' :: comment.toList := by
  obtain ⟨rest, starts⟩ := List.head?_eq_some_iff.mp control
  rw [body, body, String.append_assoc, trimStart_append_eq control, starts, String.toList_append]
  exact trimStart_append_cons (by decide) rest comment.toList

theorem count_body : (body line).count '"' = line.toList.count '"' := by
  obtain ⟨rest, starts⟩ := List.head?_eq_some_iff.mp control
  rw [← count_trimStart (c := '"') (by decide) line.toList, body, starts, List.tail_cons,
    count_trimStart (by decide), List.count_cons_of_ne (by decide)]

end Body

theorem semicolon_not_mem_body {line : String} (bare : ';' ∉ line.toList) : ';' ∉ body line := by
  intro member
  apply bare
  apply trimStart_subset
  exact List.mem_of_mem_tail (trimStart_subset _ member)

/-- A text with paired quotes and without semicolons closes. -/
theorem closes_of_bare {text : List Char} (bare : ';' ∉ text) (paired : Even (text.count '"')) :
    Closes false text := by
  rw [closes_iff_outside]
  refine ⟨paired, ?_⟩
  intro before after split
  exact absurd (by simp [split]) bare

/-- A comment is stripped, with the blanks before it. -/
theorem stripComment_append_comment {text : List Char} (closes : Closes false text)
    (comment : List Char) : stripComment (text ++ ';' :: comment) = trimEnd text := by
  rw [stripComment, closes.beforeComment_append, beforeComment, if_pos (by rfl), List.append_nil]

theorem stripComment_eq_trimEnd {text : List Char} (closes : Closes false text) :
    stripComment text = trimEnd text := by
  rw [stripComment, closes.2]

/-- The arguments are the same with a comment after them and without. -/
theorem stripComment_trim_append_comment {text : List Char} (bare : ';' ∉ text)
    (paired : Even (text.count '"')) (comment : List Char) :
    stripComment (trim (text ++ ';' :: comment)) = stripComment (trim text) := by
  have started : Closes false (trimStart text) := by
    apply closes_of_bare fun member => bare (trimStart_subset text member)
    rwa [count_trimStart (by decide)]
  have trimmed : Closes false (trim text) := by
    apply closes_of_bare fun member => bare (trim_subset text member)
    rwa [trim, count_trimEnd (by decide), count_trimStart (by decide)]
  rw [stripComment_eq_trimEnd trimmed, trim, trimStart_append_cons (by decide),
    trimEnd_append_cons (by decide), stripComment_append_comment started, trim, trimEnd_trimEnd]

/-- The name ends at the first blank. -/
theorem splitName_append_cons {name : List Char} {blank : Char}
    (solid : ∀ c ∈ name, isBlank c = false) (parts : isBlank blank = true) (rest : List Char) :
    splitName (name ++ blank :: rest) = (name, stripComment (trim rest)) := by
  rw [splitName, cut?_append solid parts]

theorem splitName_of_solid {text : List Char} (solid : ∀ c ∈ text, isBlank c = false) :
    splitName text = (stripComment text, []) := by
  rw [splitName, cut?_eq_none_iff.mpr solid]

/-- Only names of lower-case letters are known. -/
theorem ofParts_eq_unknown {name : List Char} {c : Char} (member : c ∈ name)
    (other : c.isLower = false) (arguments : List Char) :
    ofParts (String.ofList name) arguments = .unknown (String.ofList name) := by
  have differs : ∀ known : String, known.toList.all Char.isLower = true →
      String.ofList name ≠ known := by
    intro known lower same
    have within : c ∈ known.toList := by rwa [← same, String.toList_ofList]
    rw [List.all_eq_true.mp lower c within] at other
    cases other
  unfold ofParts
  dsimp only
  split
  all_goals first
    | rfl
    | next same => exact absurd same (differs _ (by decide +kernel))

/-- A comment after the arguments changes nothing. -/
theorem ofBody_comment_of_parted {name rest : List Char} {blank : Char}
    (solid : ∀ c ∈ name, isBlank c = false) (parts : isBlank blank = true) (bare : ';' ∉ rest)
    (paired : Even ((name ++ blank :: rest).count '"')) (comment : List Char) :
    ofBody (name ++ blank :: (rest ++ ';' :: comment)) = ofBody (name ++ blank :: rest) := by
  rw [ofBody, ofBody, splitName_append_cons solid parts, splitName_append_cons solid parts]
  by_cases pairedRest : Even (rest.count '"')
  · rw [stripComment_trim_append_comment bare pairedRest]
  · -- A quote of the name opens the literal, so the name is of no known kind.
    have quote : '"' ∈ name := by
      by_contra without
      apply pairedRest
      have other : blank ≠ '"' := fun same => absurd parts (by rw [same]; decide)
      rwa [List.count_append, List.count_eq_zero.mpr without, Nat.zero_add,
        List.count_cons_of_ne other] at paired
    rw [ofParts_eq_unknown quote (by decide), ofParts_eq_unknown quote (by decide)]

/-- A comment without blanks changes nothing even directly after the name. -/
theorem ofBody_comment_of_solid {text comment : List Char} (closes : Closes false text)
    (solid : ∀ c ∈ text ++ ';' :: comment, isBlank c = false) :
    ofBody (text ++ ';' :: comment) = ofBody text := by
  have solidText := (List.forall_mem_append.mp solid).1
  rw [ofBody, ofBody, splitName_of_solid solid, splitName_of_solid solidText,
    stripComment_append_comment closes, stripComment_eq_trimEnd closes]

/-- Up to its first blank, a comment directly after the name is part of the name. -/
theorem ofBody_comment_of_glued {text word : List Char} {blank : Char}
    (solid : ∀ c ∈ text ++ ';' :: word, isBlank c = false) (parts : isBlank blank = true)
    (rest : List Char) :
    ofBody ((text ++ ';' :: word) ++ blank :: rest) =
      .unknown (String.ofList (text ++ ';' :: word)) := by
  rw [ofBody, splitName_append_cons solid parts]
  exact ofParts_eq_unknown (c := ';') (by simp) (by decide) _

section Comment

variable {line comment : String} (control : (trimStart line.toList).head? = some '#')

include control

theorem ofLine?_append_comment : ofLine? (line ++ ";" ++ comment) =
    some (ofBody (body line ++ ';' :: comment.toList)) := by
  rw [← body_append control, String.append_assoc]
  exact ofLine?_eq_ofBody (head?_trimStart_append control _)

/-- A comment that stays apart from the name changes nothing. -/
theorem ofLine?_comment (bare : ';' ∉ line.toList) (paired : Even (line.toList.count '"'))
    (apart : Apart line comment) : ofLine? (line ++ ";" ++ comment) = ofLine? line := by
  rw [ofLine?_append_comment control, ofLine?_eq_ofBody control, Option.some_inj]
  have bare := semicolon_not_mem_body bare
  rw [← count_body control] at paired
  rw [Apart] at apart
  generalize body line = text at *
  cases cut : cut? isBlank text with
  | some parts =>
      obtain ⟨blank, parts, solid, rfl⟩ := exists_of_cut? cut
      have bareRest := fun member => bare (List.mem_append_right _ (List.mem_cons_of_mem _ member))
      rw [List.append_assoc, List.cons_append]
      exact ofBody_comment_of_parted solid parts bareRest paired comment.toList
  | none =>
      have solid := cut?_eq_none_iff.mp cut
      apply ofBody_comment_of_solid (closes_of_bare bare paired)
      rw [List.forall_mem_append, List.forall_mem_cons]
      refine ⟨solid, by decide, apart.resolve_left ?_⟩
      rintro ⟨c, member, blank⟩
      rw [solid c member] at blank
      cases blank

/-- Any other comment becomes part of the name up to its first blank. -/
theorem ofLine?_comment_of_not_apart (glued : ¬Apart line comment) :
    ofLine? (line ++ ";" ++ comment) = some (.unknown (String.ofList
      (body line ++ ';' :: comment.toList.takeWhile fun c => !isBlank c))) := by
  rw [Apart, not_or, not_exists, not_forall] at glued
  obtain ⟨unparted, c, inComment⟩ := glued
  have solid : ∀ d ∈ body line, isBlank d = false := by
    intro d member
    rw [← Bool.not_eq_true]
    exact fun blank => unparted d ⟨member, blank⟩
  cases cut : cut? isBlank comment.toList with
  | none => exact absurd (cut?_eq_none_iff.mp cut c) inComment
  | some parts =>
      obtain ⟨word, rest⟩ := parts
      obtain ⟨blank, parts, solidWord, spelled⟩ := exists_of_cut? cut
      have solidName : ∀ d ∈ body line ++ ';' :: word, isBlank d = false := by
        rw [List.forall_mem_append, List.forall_mem_cons]
        exact ⟨solid, by decide, solidWord⟩
      have upToBlank : comment.toList.takeWhile (fun d => !isBlank d) = word := by
        rw [spelled, List.takeWhile_append_of_pos (by simpa using solidWord),
          List.takeWhile_cons_of_neg (by simp [parts]), List.append_nil]
      rw [ofLine?_append_comment control, upToBlank, spelled, ← List.cons_append,
        ← List.append_assoc, ofBody_comment_of_glued solidName parts rest]

end Comment

end Control

namespace Preprocess

/-- Lines that do the same can stand for each other. -/
theorem readLines_congr {library : Library} {enter : Option (Path → String → State → State)}
    {file : Path} {first second : String} {before after : List String} {line other : String}
    (firstLines : Text.lines first = before ++ line :: after)
    (secondLines : Text.lines second = before ++ other :: after)
    {control : Control} (does : Control.ofLine? line = some control)
    (same : Control.ofLine? other = some control) (state : State) :
    readLines library enter file first state = readLines library enter file second state := by
  simp only [readLines, firstLines, secondLines, List.zipIdx_append, List.zipIdx_cons,
    List.foldl_append, List.foldl_cons, readLine_of_control does, readLine_of_control same]

end Preprocess

/-- A comment on a control line that stays apart from the name is inert; any other makes the line
one of no known kind, which is blamed where lines are in force. -/
theorem preprocess_control_comment {source commented : String} {before after : List String}
    {line comment : String} (written : Text.lines source = before ++ line :: after)
    (annotated : Text.lines commented = before ++ (line ++ ";" ++ comment) :: after)
    (control : (Text.trimStart line.toList).head? = some '#') (bare : ';' ∉ line.toList)
    (paired : Even (line.toList.count '"')) :
    (Control.Apart line comment → ∀ library macros file,
      preprocess library macros file commented = preprocess library macros file source) ∧
    (¬Control.Apart line comment → ∀ library enter file scan number,
      let name := String.ofList
        (Control.body line ++ ';' :: comment.toList.takeWhile fun c => !Text.isBlank c)
      Preprocess.readLine library enter file scan (line ++ ";" ++ comment, number) =
        scan.update fun state => state.blame ⟨file, number⟩ (.unknownDirective name)) := by
  constructor
  · intro apart library macros file
    have does := Control.ofLine?_eq_ofBody control
    have same := (Control.ofLine?_comment control bare paired apart).trans does
    rw [preprocess, preprocess, Preprocess.run, Preprocess.run, maxIncludeDepth]
    exact congrArg (Preprocess.State.result · file)
      (Preprocess.readLines_congr annotated written same does _)
  · intro glued library enter file scan number
    exact Preprocess.readLine_of_control
      (Control.ofLine?_comment_of_not_apart control glued) scan number

/-- A comment may hold quotes, semicolons and further `#`. -/
theorem preprocess_control_comment_with_quote :
    let line := "#define GREETING \"hi\""
    let comment := " say \"hi; # twice"
    Control.Apart line comment ∧ ∀ library macros file,
      preprocess library macros file (line ++ ";" ++ comment ++ "\nDB GREETING\n") =
        preprocess library macros file (line ++ "\nDB GREETING\n") := by
  intro line comment
  have apart : Control.Apart line comment := .inl ⟨' ', by decide +kernel, by decide⟩
  have written : Text.lines (line ++ "\nDB GREETING\n") = [] ++ line :: ["DB GREETING"] := by
    decide +kernel
  have annotated : Text.lines (line ++ ";" ++ comment ++ "\nDB GREETING\n") =
      [] ++ (line ++ ";" ++ comment) :: ["DB GREETING"] := by
    decide +kernel
  exact ⟨apart, (preprocess_control_comment written annotated (by decide +kernel)
    (by decide +kernel) (by decide +kernel)).1 apart⟩

/-- Not every comment is inert: after `#else; other` the lines of the second branch are missing
without a fault. -/
theorem comment_hides_else :
    ¬∀ (source commented : String) (before after : List String) (line comment : String),
      Text.lines source = before ++ line :: after →
      Text.lines commented = before ++ (line ++ ";" ++ comment) :: after →
      (Text.trimStart line.toList).head? = some '#' → ';' ∉ line.toList →
      Even (line.toList.count '"') → ∀ library macros file,
        preprocess library macros file commented = preprocess library macros file source := by
  intro inert
  have same := inert "#ifdef X\nA\n#else\nB\n#endif\n" "#ifdef X\nA\n#else; other\nB\n#endif\n"
    ["#ifdef X", "A"] ["B", "#endif"] "#else" " other" (by decide +kernel) (by decide +kernel)
    (by decide +kernel) (by decide +kernel) (by decide +kernel)
    { load := fun _ => none, directories := [] } {} (.ofText "main")
  exact absurd same (by decide +kernel)

end ChipAsm
