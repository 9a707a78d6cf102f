/-
# Outcomes of stateful steps

A step that fails leaves behind what it did before, so its outcome is the state it
reached together with the fault that stopped it, if any.

Where the program checks itself, what stops it is either a fault of its input, which is
reported, or an assertion that does not hold, which ends the program there.
-/

namespace ChipAsm

/-- Why a program that checks itself stops. -/
inductive Halt (ε : Type)
  /-- A fault is found, to be reported. -/
  | fault (fault : ε)
  /-- An assertion does not hold. -/
  | assertion
  deriving DecidableEq, Repr

/-- The same stop with its fault explained in another way. -/
def Halt.map {ε δ : Type} (reason : ε → δ) : Halt ε → Halt δ
  | fault found => fault (reason found)
  | assertion => assertion

/-- The state that was reached, and the fault that stopped the work there. -/
structure Outcome (ε σ : Type) where
  state : σ
  fault : Option ε
  deriving DecidableEq, Repr

namespace Outcome

variable {ε δ σ τ α : Type}

/-- The work went through. -/
def done (state : σ) : Outcome ε σ := { state, fault := none }

/-- The work stopped. -/
def stopped (state : σ) (fault : ε) : Outcome ε σ := { state, fault := some fault }

/-- The outcome with its state seen in another way. -/
def map (view : σ → τ) (outcome : Outcome ε σ) : Outcome ε τ :=
  { state := view outcome.state, fault := outcome.fault }

/-- The outcome with its fault explained in another way. -/
def explain (reason : ε → δ) (outcome : Outcome ε σ) : Outcome δ σ :=
  { state := outcome.state, fault := outcome.fault.map reason }

/-- Goes on with the next step, unless the work has stopped. -/
def andThen (outcome : Outcome ε σ) (next : σ → Outcome ε σ) : Outcome ε σ :=
  match outcome with
  | ⟨state, none⟩ => next state
  | ⟨state, some fault⟩ => stopped state fault

/-- Takes one step for each item, up to the first fault. -/
def run (step : σ → α → Outcome ε σ) (state : σ) : List α → Outcome ε σ
  | [] => done state
  | item :: rest =>
      match step state item with
      | ⟨next, none⟩ => run step next rest
      | ⟨last, some fault⟩ => stopped last fault

end Outcome

end ChipAsm
