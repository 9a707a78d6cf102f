/-
# Reasoning about outcomes

An outcome is either done or stopped, and every operation on outcomes treats the
two in its own way. The lemmas below say so once, so that a proof about a step of
the assembler splits its outcome into these two cases and never into a record and
an option.

The second half is about runs. A run over a list that goes through keeps whatever
each of its steps keeps, where the invariant may speak of the items consumed so far;
a run that stops does so at one item, and everything before that item went through. Two
runs over corresponding lists end in related states if their steps keep states related.
-/

import ChipAsm.Outcome
import Mathlib.Data.List.Forall2

namespace ChipAsm

/-- A stop that is explained in another way blames a fault exactly if it did before. -/
theorem Halt.map_eq_fault_iff {ε δ : Type} {reason : ε → δ} {halt : Halt ε} {explained : δ} :
    halt.map reason = .fault explained ↔
      ∃ found, halt = .fault found ∧ reason found = explained := by
  cases halt with
  | fault found => simp [map]
  | assertion => simp [map]

namespace Outcome

variable {ε δ σ τ α : Type}

/-- Case analysis on an outcome by whether the work went through. -/
@[cases_eliminator]
theorem done_or_stopped {motive : Outcome ε σ → Prop}
    (done : ∀ state, motive (done state))
    (stopped : ∀ state fault, motive (stopped state fault)) (outcome : Outcome ε σ) :
    motive outcome := by
  obtain ⟨state, fault⟩ := outcome
  match fault with
  | none => exact done state
  | some fault => exact stopped state fault

@[simp]
theorem state_done (state : σ) : (done state : Outcome ε σ).state = state := rfl

@[simp]
theorem fault_done (state : σ) : (done state : Outcome ε σ).fault = none := rfl

@[simp]
theorem state_stopped (state : σ) (fault : ε) : (stopped state fault).state = state := rfl

@[simp]
theorem fault_stopped (state : σ) (fault : ε) : (stopped state fault).fault = some fault := rfl

@[simp]
theorem done_inj {first second : σ} :
    (done first : Outcome ε σ) = done second ↔ first = second :=
  ⟨congrArg Outcome.state, congrArg done⟩

@[simp]
theorem stopped_inj {first second : σ} {fault other : ε} :
    stopped first fault = stopped second other ↔ first = second ∧ fault = other := by
  simp only [stopped, Outcome.mk.injEq, Option.some.injEq]

@[simp]
theorem done_ne_stopped (state last : σ) (fault : ε) : done state ≠ stopped last fault := by
  intro equal
  exact Option.some_ne_none fault (congrArg Outcome.fault equal).symm

@[simp]
theorem stopped_ne_done (state last : σ) (fault : ε) : stopped last fault ≠ done state :=
  (done_ne_stopped state last fault).symm

@[simp]
theorem done_andThen (state : σ) (next : σ → Outcome ε σ) :
    (done state).andThen next = next state := rfl

@[simp]
theorem stopped_andThen (state : σ) (fault : ε) (next : σ → Outcome ε σ) :
    (stopped state fault).andThen next = stopped state fault := rfl

@[simp]
theorem map_done (view : σ → τ) (state : σ) :
    (done state : Outcome ε σ).map view = done (view state) := rfl

@[simp]
theorem map_stopped (view : σ → τ) (state : σ) (fault : ε) :
    (stopped state fault).map view = stopped (view state) fault := rfl

@[simp]
theorem explain_done (reason : ε → δ) (state : σ) :
    (done state : Outcome ε σ).explain reason = done state := rfl

@[simp]
theorem explain_stopped (reason : ε → δ) (state : σ) (fault : ε) :
    (stopped state fault).explain reason = stopped state (reason fault) := rfl

/-- An outcome without a fault is done. -/
theorem eq_done_of_fault_eq_none {outcome : Outcome ε σ} (faultless : outcome.fault = none) :
    outcome = done outcome.state := by
  cases outcome with
  | done state => rfl
  | stopped state fault => exact absurd faultless (Option.some_ne_none fault)

/-- A sequence goes through exactly when both of its parts do. -/
theorem andThen_eq_done_iff {outcome : Outcome ε σ} {next : σ → Outcome ε σ} {last : σ} :
    outcome.andThen next = done last ↔
      ∃ middle, outcome = done middle ∧ next middle = done last := by
  cases outcome with
  | done state => simp
  | stopped state fault => simp

/-- A view of an outcome goes through exactly when the outcome does. -/
theorem map_eq_done_iff {outcome : Outcome ε σ} {view : σ → τ} {last : τ} :
    outcome.map view = done last ↔ ∃ state, outcome = done state ∧ view state = last := by
  cases outcome with
  | done state => simp
  | stopped state fault => simp

/-- Explaining faults does not change whether the work went through. -/
theorem explain_eq_done_iff {outcome : Outcome ε σ} {reason : ε → δ} {last : σ} :
    outcome.explain reason = done last ↔ outcome = done last := by
  cases outcome with
  | done state => simp
  | stopped state fault => simp

/-- A sequence can be viewed part by part. -/
theorem map_andThen {view : σ → τ} {outcome : Outcome ε σ} {next : σ → Outcome ε σ}
    {other : τ → Outcome ε τ} (same : ∀ state, (next state).map view = other (view state)) :
    (outcome.andThen next).map view = (outcome.map view).andThen other := by
  cases outcome with
  | done state => exact same state
  | stopped state fault => rfl

theorem andThen_assoc (outcome : Outcome ε σ) (first second : σ → Outcome ε σ) :
    (outcome.andThen first).andThen second =
      outcome.andThen fun state => (first state).andThen second := by
  cases outcome with
  | done state => rfl
  | stopped state fault => rfl

/-! ## Runs over a list -/

variable {step : σ → α → Outcome ε σ}

@[simp]
theorem run_nil (state : σ) : run step state [] = done state := rfl

@[simp]
theorem run_cons (state : σ) (item : α) (rest : List α) :
    run step state (item :: rest) = (step state item).andThen fun next => run step next rest := by
  rw [run]
  cases step state item with
  | done next => rfl
  | stopped last fault => rfl

/-- A run over two lists is the run over the first followed by that over the second. -/
theorem run_append (state : σ) (before after : List α) :
    run step state (before ++ after) =
      (run step state before).andThen fun next => run step next after := by
  induction before generalizing state with
  | nil => rfl
  | cons item rest ih =>
      rw [List.cons_append, run_cons, run_cons, andThen_assoc]
      congr 1
      funext next
      exact ih next

/-- A run that goes through went through its first part. -/
theorem run_append_eq_done {state last : σ} {before after : List α}
    (through : run step state (before ++ after) = done last) :
    ∃ middle, run step state before = done middle ∧ run step middle after = done last := by
  rw [run_append] at through
  exact andThen_eq_done_iff.mp through

/-- A run over one more item takes one more step. -/
theorem run_concat (state : σ) (before : List α) (item : α) :
    run step state (before ++ [item]) =
      (run step state before).andThen fun next => step next item := by
  rw [run_append]
  congr 1
  funext next
  rw [run_cons]
  cases step next item with
  | done last => rfl
  | stopped last fault => rfl

/-- A run whose steps are runs of smaller steps is a run of these. -/
theorem run_flatMap {β : Type} {smaller : σ → β → Outcome ε σ} {cut : α → List β}
    (whole : ∀ state item, step state item = run smaller state (cut item))
    (state : σ) (items : List α) :
    run step state items = run smaller state (items.flatMap cut) := by
  induction items generalizing state with
  | nil => rfl
  | cons item rest ih =>
      rw [run_cons, List.flatMap_cons, run_append, whole]
      congr 1
      funext next
      exact ih next

/-- What each step keeps, a run keeps. The invariant speaks of the items consumed so
far; a step may use that the run over them went through, and where in the whole list its
item stands. -/
theorem run_invariant (invariant : List α → σ → Prop) {items : List α} {first last : σ}
    (initial : invariant [] first)
    (kept : ∀ before item after state next, items = before ++ item :: after →
      run step first before = done state → invariant before state →
      step state item = done next → invariant (before ++ [item]) next)
    (through : run step first items = done last) : invariant items last := by
  suffices general : ∀ (after before : List α) (state : σ), items = before ++ after →
      run step first before = done state → invariant before state →
      run step state after = done last → invariant items last from
    general items [] first rfl rfl initial through
  intro after
  induction after with
  | nil =>
      intro before state split _ holds finished
      rw [List.append_nil] at split
      rw [run_nil, done_inj] at finished
      rwa [split, ← finished]
  | cons item rest ih =>
      intro before state split reached holds finished
      rw [run_cons] at finished
      obtain ⟨next, stepped, remaining⟩ := andThen_eq_done_iff.mp finished
      have further : run step first (before ++ [item]) = done next := by
        rw [run_concat, reached, done_andThen, stepped]
      exact ih (before ++ [item]) next (by rw [split, List.append_assoc]; rfl) further
        (kept before item rest state next split reached holds stepped) remaining

/-- Two runs over corresponding items keep states related if their steps do. The comparison
goes one way: it needs the first run to go through. -/
theorem run_related {β : Type} {other : τ → β → Outcome δ τ} (related : σ → τ → Prop)
    {paired : α → β → Prop}
    (stepped : ∀ state next counterpart item partner, related state counterpart →
      paired item partner → step state item = done next →
      ∃ following, other counterpart partner = done following ∧ related next following)
    {items : List α} {partners : List β} (pairs : List.Forall₂ paired items partners)
    {first last : σ} {counterpart : τ} (start : related first counterpart)
    (through : run step first items = done last) :
    ∃ final, run other counterpart partners = done final ∧ related last final := by
  induction pairs generalizing first counterpart with
  | nil =>
      rw [run_nil, done_inj] at through
      exact ⟨counterpart, rfl, through ▸ start⟩
  | @cons item partner rest partners paired _ ih =>
      rw [run_cons] at through
      obtain ⟨next, moved, remaining⟩ := andThen_eq_done_iff.mp through
      obtain ⟨following, followed, kept⟩ :=
        stepped first next counterpart item partner start paired moved
      rw [run_cons, followed, done_andThen]
      exact ih kept remaining

/-- A run that stops does so at one item, after all items before it went through. -/
theorem exists_of_run_eq_stopped {items : List α} {first last : σ} {fault : ε}
    (halted : run step first items = stopped last fault) :
    ∃ before item after middle, items = before ++ item :: after ∧
      run step first before = done middle ∧ step middle item = stopped last fault := by
  induction items generalizing first with
  | nil => simp at halted
  | cons item rest ih =>
      rw [run_cons] at halted
      cases stepped : step first item with
      | done next =>
          rw [stepped, done_andThen] at halted
          obtain ⟨before, culprit, after, middle, split, through, stops⟩ := ih halted
          refine ⟨item :: before, culprit, after, middle, ?_, ?_, stops⟩
          · rw [split, List.cons_append]
          · rw [run_cons, stepped, done_andThen, through]
      | stopped state reason =>
          rw [stepped, stopped_andThen] at halted
          exact ⟨[], item, rest, first, rfl, rfl, by rw [stepped, halted]⟩

end Outcome

end ChipAsm
