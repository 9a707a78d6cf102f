/-
# Labels and their addresses

Labels are neither lost nor misplaced. The statements of a source carry the labels and the
instructions of its lines, and the first pass binds each label to the offset at which the
next instruction starts. A label stands directly before that instruction, with nothing but
labels between, and labels do not move the counter.
-/

import ChipAsm.Proofs.Assembly.Binding
import ChipAsm.Proofs.Except
import ChipAsm.Proofs.Statement.Parts

namespace ChipAsm

open Outcome

/-- Some name is bound exactly if it is the name of an entry. -/
theorem SymbolTable.isSome_resolve?_iff (table : SymbolTable) (name : String) :
    (table.resolve? name).isSome ↔ name ∈ table.entries.map Prod.fst := by
  simp [resolve?, find?, List.lookup_isSome_iff]

namespace Binder

/-- Takes account of a label or an instruction. -/
def take (binder : Binder) : Part → Outcome (Halt Diagnostic) Binder
  | .label label => binder.bind label
  | .instruction body => binder.count body

/-- A statement is its label and then its instruction. -/
theorem step_eq_run_take (binder : Binder) (statement : Statement) :
    binder.step statement = run take binder statement.parts := by
  have single : ∀ (binder : Binder) (part : Part), run take binder [part] = binder.take part := by
    intro binder part
    exact run_concat binder [] part
  match statement with
  | .label mark => exact (single binder (.label mark)).symm
  | .instruction none body => exact (single binder (.instruction body)).symm
  | .instruction (some mark) body =>
      show _ = run take binder [.label mark, .instruction body]
      rw [run_cons]
      simp only [single]
      rfl

/-- The first pass takes account of labels and instructions one after the other. -/
theorem bindSymbols_eq_run_take (statements : List Statement) :
    bindSymbols statements = run take {} (statements.flatMap Statement.parts) :=
  run_flatMap step_eq_run_take {} statements

/-- A label that is bound was not bound before, and gets the current offset, which is an
address. -/
theorem eq_of_bind {binder next : Binder} {label : Label}
    (bound : binder.bind label = done next) :
    binder.symbols.find? label.name = none ∧
      binder.counter.offset ≤ SymbolTable.maxAddress ∧
      next.symbols.entries =
        (label.name, ⟨UInt16.ofNat binder.counter.offset, label.place.line⟩) ::
          binder.symbols.entries := by
  cases known : binder.symbols.find? label.name with
  | some first => simp [bind, SymbolTable.define, known] at bound
  | none =>
      by_cases fits : binder.counter.offset ≤ SymbolTable.maxAddress
      · simp only [bind, SymbolTable.define, known, if_pos fits, done_inj] at bound
        rw [← bound]
        exact ⟨rfl, fits, rfl⟩
      · simp [bind, SymbolTable.define, known, if_neg fits] at bound

/-- Counting an instruction binds nothing. -/
theorem symbols_of_count {binder next : Binder} {body : Instruction}
    (counted : binder.count body = done next) : next.symbols = binder.symbols := by
  obtain ⟨counter, -, rfl⟩ := map_eq_done_iff.mp counted
  rfl

/-- The names that are bound are those of the labels, the latest first. -/
theorem names_of_run {parts : List Part} {binder : Binder}
    (bound : run take {} parts = done binder) :
    binder.symbols.entries.map Prod.fst =
      ((parts.filterMap Part.label?).map Label.name).reverse := by
  refine run_invariant (fun parts binder => binder.symbols.entries.map Prod.fst =
    ((parts.filterMap Part.label?).map Label.name).reverse) rfl ?_ bound
  intro before part after binder next _ _ names taken
  cases part with
  | label label =>
      rw [(eq_of_bind taken).2.2, List.map_cons, names]
      simp [Part.label?]
  | instruction body =>
      rw [symbols_of_count taken, names]
      simp [Part.label?]

/-- The names bound by the first pass are those of the labels, the latest first. -/
theorem names_of_bindSymbols {statements : List Statement} {binder : Binder}
    (bound : bindSymbols statements = done binder) :
    binder.symbols.entries.map Prod.fst =
      ((statements.filterMap Statement.mark?).map Label.name).reverse := by
  rw [bindSymbols_eq_run_take] at bound
  rw [names_of_run bound]
  congr 2
  exact Part.filterMap_label?_flatMap Statement.mark? Statement.body? statements

/-- What is bound stays bound. -/
theorem find?_of_run {parts : List Part} {binder last : Binder} {name : String} {symbol : Symbol}
    (bound : run take binder parts = done last)
    (known : binder.symbols.find? name = some symbol) :
    last.symbols.find? name = some symbol := by
  refine run_invariant (fun _ binder => binder.symbols.find? name = some symbol) known ?_ bound
  intro before part after binder next _ _ known taken
  cases part with
  | label label =>
      obtain ⟨fresh, -, entries⟩ := eq_of_bind taken
      have other : name ≠ label.name := by
        intro same
        rw [same, fresh] at known
        exact absurd known (Option.some_ne_none symbol).symm
      rw [SymbolTable.find?, entries, List.lookup_cons, beq_false_of_ne other]
      exact known
  | instruction body =>
      rw [symbols_of_count taken]
      exact known

/-- Labels do not move the counter. -/
theorem counter_of_run_labels {labels : List Part} {binder last : Binder}
    (unmoved : ∀ part ∈ labels, part.instruction? = none)
    (bound : run take binder labels = done last) : last.counter = binder.counter := by
  refine run_invariant (fun _ other => other.counter = binder.counter) rfl ?_ bound
  intro before part after reached next split _ same taken
  cases part with
  | label label => rw [counter_of_bind taken, same]
  | instruction body =>
      have none : (Part.instruction body).instruction? = none :=
        unmoved _ (by rw [split]; simp)
      exact absurd none (by simp [Part.instruction?])

/-- A label among labels is bound to the offset at which these end, as at which they begin. -/
theorem address_of_label {before labels after : List Part} {label : Label} {last : Binder}
    (unmoved : ∀ part ∈ labels, part.instruction? = none) (member : .label label ∈ labels)
    (bound : run take {} (before ++ labels ++ after) = done last) :
    ∃ reached address, run take {} (before ++ labels) = done reached ∧
      last.symbols.resolve? label.name = some address ∧
      address.toNat = reached.counter.offset := by
  obtain ⟨reached, through, rest⟩ := run_append_eq_done bound
  obtain ⟨first, others, rfl⟩ := List.append_of_mem member
  rw [← List.append_assoc] at through
  obtain ⟨arrived, -, onwards⟩ := run_append_eq_done through
  rw [run_cons] at onwards
  obtain ⟨marked, marking, labelled⟩ := andThen_eq_done_iff.mp onwards
  obtain ⟨-, fits, entries⟩ := eq_of_bind marking
  have known : marked.symbols.find? label.name =
      some ⟨UInt16.ofNat arrived.counter.offset, label.place.line⟩ := by
    rw [SymbolTable.find?, entries, List.lookup_cons_self]
  have kept := find?_of_run rest (find?_of_run labelled known)
  have stays : reached.counter = arrived.counter := by
    rw [counter_of_run_labels (fun part later => unmoved part (by simp [later])) labelled,
      counter_of_bind marking]
  refine ⟨reached, UInt16.ofNat arrived.counter.offset, ?_, ?_, ?_⟩
  · rw [← List.append_assoc, through]
  · rw [SymbolTable.resolve?, kept]
    rfl
  · rw [stays, UInt16.toNat_ofNat', Nat.mod_eq_of_lt]
    exact Nat.lt_succ_of_le fits

/-- A label is bound to the offset at which the labels that follow it end. -/
theorem address_of_first_label {before labels after : List Part} {label : Label} {last : Binder}
    (unmoved : ∀ part ∈ labels, part.instruction? = none)
    (bound : run take {} (before ++ .label label :: (labels ++ after)) = done last) :
    ∃ reached address, run take {} (before ++ .label label :: labels) = done reached ∧
      last.symbols.resolve? label.name = some address ∧
      address.toNat = reached.counter.offset := by
  have regrouped : run take {} (before ++ .label label :: labels ++ after) = done last := by
    rw [List.append_assoc, List.cons_append, bound]
  apply address_of_label _ List.mem_cons_self regrouped
  intro part member
  cases member with
  | head => rfl
  | tail _ later => exact unmoved part later

/-- An instruction starts where the labels and instructions before it end, and also where the
statements before its own end. -/
theorem start_of_instruction {statements : List Statement} {before after : List Part}
    {body : Instruction} {reached : Binder}
    (split : statements.flatMap Statement.parts = before ++ .instruction body :: after)
    (arrived : run take {} before = done reached) :
    ∃ earlier mark later binder, statements = earlier ++ .instruction mark body :: later ∧
      earlier.filterMap Statement.body? = before.filterMap Part.instruction? ∧
      bindSymbols earlier = done binder ∧ binder.counter = reached.counter := by
  obtain ⟨earlier, mark, later, found, rfl⟩ := Statement.exists_of_parts_eq split
  obtain ⟨binder, through, marked⟩ := run_append_eq_done arrived
  have unmoved : ∀ part ∈ mark.toList.map Part.label, part.instruction? = none := by
    intro part member
    obtain ⟨label, -, rfl⟩ := List.mem_map.mp member
    rfl
  refine ⟨earlier, mark, later, binder, found, ?_, ?_, ?_⟩
  · rw [List.filterMap_append, List.filterMap_eq_nil_iff.mpr unmoved, List.append_nil]
    exact (Part.filterMap_instruction?_flatMap _ _ earlier).symm
  · rw [bindSymbols_eq_run_take, through]
  · exact (counter_of_run_labels unmoved marked).symm

end Binder

namespace PlacedLine

/-- The labels and instructions of lines from one with a label on: that label, what else the
line has, and the lines after it. -/
theorem flatMap_parts_of_label {before after : List PlacedLine} {line : PlacedLine}
    {label : Label} (labelled : line.label? = some label) :
    (before ++ line :: after).flatMap parts =
      before.flatMap parts ++
        .label label :: (Part.ofPair none line.instruction? ++ after.flatMap parts) := by
  rw [List.flatMap_append, List.flatMap_cons, parts, labelled]
  rfl

/-- The first instruction after a label, among the parts and among the lines. -/
theorem findSome?_instruction? (line : PlacedLine) (after : List PlacedLine) :
    (Part.ofPair none line.instruction? ++ after.flatMap parts).findSome? Part.instruction? =
      (line :: after).findSome? instruction? := by
  rw [List.findSome?_append, List.findSome?_cons]
  cases line.instruction? with
  | some body => rfl
  | none =>
      show (after.flatMap parts).findSome? Part.instruction? = after.findSome? instruction?
      rw [← List.head?_filterMap, ← List.head?_filterMap]
      congr 1
      exact Part.filterMap_instruction?_flatMap label? instruction? after

end PlacedLine

section

variable {lines : List PlacedLine} {statements : List Statement} {binder : Binder}

/-- The label of a line is bound to the offset at which the next instruction starts, or to the
end. -/
theorem address_of_line (same : statements.flatMap Statement.parts = lines.flatMap PlacedLine.parts)
    (bound : bindSymbols statements = done binder) {before after : List PlacedLine}
    {line : PlacedLine} {label : Label} (split : lines = before ++ line :: after)
    (labelled : line.label? = some label) :
    ∃ address, binder.symbols.resolve? label.name = some address ∧
      match (line :: after).findSome? PlacedLine.instruction? with
      | some body => ∃ earlier mark later reached,
          statements = earlier ++ .instruction mark body :: later ∧
          earlier.filterMap Statement.body? = before.filterMap PlacedLine.instruction? ∧
          bindSymbols earlier = done reached ∧ address.toNat = reached.counter.offset
      | none => address.toNat = binder.counter.offset := by
  rw [split, PlacedLine.flatMap_parts_of_label labelled] at same
  rw [Binder.bindSymbols_eq_run_take, same] at bound
  cases following : (line :: after).findSome? PlacedLine.instruction? with
  | none =>
      rw [← PlacedLine.findSome?_instruction?, List.findSome?_eq_none_iff] at following
      rw [← List.append_nil (Part.ofPair none line.instruction? ++ _)] at bound
      obtain ⟨reached, address, through, resolves, starts⟩ :=
        Binder.address_of_first_label following bound
      rw [List.append_nil, through, done_inj] at bound
      exact ⟨address, resolves, bound ▸ starts⟩
  | some body =>
      rw [← PlacedLine.findSome?_instruction?, List.findSome?_eq_some_iff] at following
      obtain ⟨labels, part, rest, cut, instruction, unmoved⟩ := following
      rw [cut] at same bound
      obtain ⟨reached, address, through, resolves, starts⟩ :=
        Binder.address_of_first_label unmoved bound
      refine ⟨address, resolves, ?_⟩
      obtain rfl : part = .instruction body := by
        cases part with
        | label other => exact absurd instruction (by simp [Part.instruction?])
        | instruction other => exact congrArg Part.instruction (Option.some.inj instruction)
      rw [← List.cons_append, ← List.append_assoc] at same
      obtain ⟨earlier, mark, later, start, found, bodies, begun, counter⟩ :=
        Binder.start_of_instruction same through
      refine ⟨earlier, mark, later, start, found, ?_, begun, by rw [starts, counter]⟩
      rw [bodies, List.filterMap_append, List.filterMap_cons_none rfl,
        List.filterMap_eq_nil_iff.mpr unmoved, List.append_nil]
      exact Part.filterMap_instruction?_flatMap _ _ before

/-- Labels with no instruction between them share their address. -/
theorem resolve?_eq_of_stack
    (same : statements.flatMap Statement.parts = lines.flatMap PlacedLine.parts)
    (bound : bindSymbols statements = done binder) {before stack after : List PlacedLine}
    (split : lines = before ++ stack ++ after) (alone : ∀ line ∈ stack, line.instruction? = none)
    {first second : Label} (one : first ∈ stack.filterMap PlacedLine.label?)
    (other : second ∈ stack.filterMap PlacedLine.label?) :
    binder.symbols.resolve? first.name = binder.symbols.resolve? second.name := by
  rw [Binder.bindSymbols_eq_run_take, same, split, List.flatMap_append, List.flatMap_append]
    at bound
  have unmoved : ∀ part ∈ stack.flatMap PlacedLine.parts, part.instruction? = none := by
    rw [← List.filterMap_eq_nil_iff]
    exact (Part.filterMap_instruction?_flatMap _ _ stack).trans
      (List.filterMap_eq_nil_iff.mpr alone)
  obtain ⟨reached, through, -⟩ := run_append_eq_done bound
  have shared : ∀ label ∈ stack.filterMap PlacedLine.label?, ∃ address,
      binder.symbols.resolve? label.name = some address ∧
        address.toNat = reached.counter.offset := by
    intro label member
    obtain ⟨line, above, labelled⟩ := List.mem_filterMap.mp member
    have among : Part.label label ∈ stack.flatMap PlacedLine.parts := by
      refine List.mem_flatMap.mpr ⟨line, above, ?_⟩
      rw [PlacedLine.parts, labelled]
      exact List.mem_cons_self
    obtain ⟨_, address, again, resolves, starts⟩ := Binder.address_of_label unmoved among bound
    rw [through, done_inj] at again
    exact ⟨address, resolves, again ▸ starts⟩
  obtain ⟨address, resolves, starts⟩ := shared first one
  obtain ⟨twin, resolvesToo, startsToo⟩ := shared second other
  rw [resolves, resolvesToo, UInt16.toNat_inj.mp (starts.trans startsToo.symm)]

end

/-- Labels are neither lost nor misplaced. The statements of a source carry the labels of its
lines, each once, in order and with the place of its line, and one instruction for each line
that has one. If the first pass goes through, exactly the names of these labels are bound. A
label has the offset at which the first instruction on its line or after it starts, or the size
of the image if there is none, so labels with no instruction between them share their
address. -/
theorem labels_kept_in_place (file : Path) (source : String) (statements : List Statement)
    (parsed : parse file source = .ok statements) :
    let lines := PlacedLine.ofSource file source
    (∀ line ∈ lines, line.form.isReadable) ∧
    statements.filterMap Statement.mark? = lines.filterMap PlacedLine.label? ∧
    statements.filterMap Statement.body? = lines.filterMap PlacedLine.instruction? ∧
    ∀ binder, bindSymbols statements = done binder →
      binder.symbols.size = (lines.filterMap PlacedLine.label?).length ∧
      (∀ name, (binder.symbols.resolve? name).isSome ↔
        name ∈ (lines.filterMap PlacedLine.label?).map Label.name) ∧
      (∀ before line after label, lines = before ++ line :: after → line.label? = some label →
        ∃ address, binder.symbols.resolve? label.name = some address ∧
          match (line :: after).findSome? PlacedLine.instruction? with
          | some body => ∃ earlier mark later reached,
              statements = earlier ++ .instruction mark body :: later ∧
              earlier.filterMap Statement.body? = before.filterMap PlacedLine.instruction? ∧
              bindSymbols earlier = done reached ∧ address.toNat = reached.counter.offset
          | none => address.toNat = binder.counter.offset) ∧
      ∀ before stack after, lines = before ++ stack ++ after →
        (∀ line ∈ stack, line.instruction? = none) →
        ∀ first ∈ stack.filterMap PlacedLine.label?, ∀ second ∈ stack.filterMap PlacedLine.label?,
          binder.symbols.resolve? first.name = binder.symbols.resolve? second.name := by
  intro lines
  have labels : statements.filterMap Statement.mark? = lines.filterMap PlacedLine.label? :=
    marks_of_parse parsed
  refine ⟨isReadable_of_parse parsed, labels, bodies_of_parse parsed, ?_⟩
  intro binder bound
  have names := Binder.names_of_bindSymbols bound
  rw [labels] at names
  refine ⟨?_, ?_, ?_, ?_⟩
  · calc binder.symbols.size
      _ = (binder.symbols.entries.map Prod.fst).length := by
          rw [List.length_map, SymbolTable.size]
      _ = (lines.filterMap PlacedLine.label?).length := by
          rw [names, List.length_reverse, List.length_map]
  · intro name
    rw [SymbolTable.isSome_resolve?_iff, names, List.mem_reverse]
  · intro before line after label split labelled
    exact address_of_line (parts_of_parse parsed) bound split labelled
  · intro before stack after split alone first one second other
    exact resolve?_eq_of_stack (parts_of_parse parsed) bound split alone one other

/-- Two labels above an instruction, with a blank line, a comma and a marker between them, and
a label at the end. -/
theorem labels_kept_around_marker :
    let source := "one:\n\ntwo: ,\n#line 7 \"lib\"\n dw 5\nthree: dw 6 ; rest\nfour:\n"
    ∃ statements binder, parse (.ofText "main") source = .ok statements ∧
      bindSymbols statements = done binder ∧
      statements.filterMap Statement.mark? =
        [⟨"one", ⟨.ofText "main", 1⟩⟩, ⟨"two", ⟨.ofText "main", 3⟩⟩,
          ⟨"three", ⟨.ofText "lib", 8⟩⟩, ⟨"four", ⟨.ofText "lib", 9⟩⟩] ∧
      binder.symbols.resolve? "one" = binder.symbols.resolve? "two" ∧
      ∃ address, binder.symbols.resolve? "four" = some address ∧
        address.toNat = binder.counter.offset := by
  intro source
  have passes : (parse (.ofText "main") source).toOption.any
      (fun statements => (bindSymbols statements).fault.isNone) = true := by decide +kernel
  obtain ⟨statements, read, faultless⟩ := (Option.any_eq_true _ _).mp passes
  have parsed := toOption_eq_some_iff.mp read
  have bound := eq_done_of_fault_eq_none (Option.isNone_iff_eq_none.mp faultless)
  obtain ⟨-, marks, -, addresses⟩ := labels_kept_in_place (.ofText "main") source statements parsed
  obtain ⟨-, -, starts, shared⟩ := addresses _ bound
  refine ⟨statements, _, parsed, bound, marks.trans (by decide +kernel), ?_, ?_⟩
  · refine shared [] ((PlacedLine.ofSource (.ofText "main") source).take 4)
      ((PlacedLine.ofSource (.ofText "main") source).drop 4) (List.take_append_drop 4 _).symm
      (by decide +kernel) ⟨"one", ⟨.ofText "main", 1⟩⟩ (by decide +kernel)
      ⟨"two", ⟨.ofText "main", 3⟩⟩ (by decide +kernel)
  · exact starts ((PlacedLine.ofSource (.ofText "main") source).take 6)
      ⟨⟨.ofText "lib", 9⟩, .label ⟨.word, 0, "four:"⟩ "four"⟩ [] ⟨"four", ⟨.ofText "lib", 9⟩⟩
      (by decide +kernel) rfl

end ChipAsm
