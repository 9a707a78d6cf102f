/-
# Computations that can be refused

When a computation with refusals succeeds, all its parts have succeeded. The lemmas take
such a success apart; for a list of computations, it pairs the items with their results.
When it is refused, one part is, and all parts before it have succeeded. What every part keeps is
kept by a sequence that succeeds.
-/

import Mathlib.Data.List.Forall2

namespace ChipAsm

variable {ε α β : Type}

theorem ok_bind (value : α) (next : α → Except ε β) : Except.ok value >>= next = next value := rfl

/-- A sequence succeeds exactly when both of its parts do. -/
theorem bind_eq_ok_iff {computation : Except ε α} {next : α → Except ε β} {result : β} :
    computation >>= next = .ok result ↔
      ∃ value, computation = .ok value ∧ next value = .ok result := by
  cases computation with
  | error fault =>
      constructor
      · intro success
        cases success
      · rintro ⟨_, ⟨⟩, _⟩
  | ok value =>
      constructor
      · intro success
        exact ⟨value, rfl, success⟩
      · rintro ⟨_, ⟨⟩, success⟩
        exact success

theorem pure_eq_ok_iff {value result : α} :
    (pure value : Except ε α) = .ok result ↔ value = result :=
  Except.ok.injEq value result ▸ Iff.rfl

/-- A computation behind a check succeeds exactly when the check does not strike and the
computation succeeds. -/
theorem guard_eq_ok_iff {strikes : Prop} [Decidable strikes] {fault : ε}
    {after : α → Except ε β} {next : Except ε β} {result : β} :
    (if strikes then throw fault >>= after else next) = .ok result ↔
      ¬ strikes ∧ next = .ok result := by
  by_cases strike : strikes
  · rw [if_pos strike]
    constructor
    · rintro ⟨⟩
    · rintro ⟨spared, -⟩
      exact absurd strike spared
  · rw [if_neg strike]
    exact (and_iff_right strike).symm

theorem toOption_eq_some_iff {computation : Except ε α} {result : α} :
    computation.toOption = some result ↔ computation = .ok result := by
  cases computation with
  | error fault => simp [Except.toOption]
  | ok value => simp [Except.toOption]

theorem mapM_congr {computation other : α → Except ε β} {items : List α}
    (same : ∀ item ∈ items, computation item = other item) :
    items.mapM computation = items.mapM other := by
  induction items with
  | nil => rfl
  | cons item rest ih =>
      obtain ⟨here, others⟩ := List.forall_mem_cons.mp same
      rw [List.mapM_cons, List.mapM_cons, here, ih others]

/-- A list of computations succeeds exactly when each of them does. -/
theorem mapM_eq_ok_iff {computation : α → Except ε β} {items : List α} {results : List β} :
    items.mapM computation = .ok results ↔
      List.Forall₂ (fun item result => computation item = .ok result) items results := by
  induction items generalizing results with
  | nil =>
      rw [List.mapM_nil, pure_eq_ok_iff, List.forall₂_nil_left_iff]
      exact eq_comm
  | cons item rest ih =>
      rw [List.mapM_cons, bind_eq_ok_iff, List.forall₂_cons_left_iff]
      constructor
      · rintro ⟨first, head, remaining⟩
        obtain ⟨others, tail, combined⟩ := bind_eq_ok_iff.mp remaining
        exact ⟨first, others, head, ih.mp tail, (pure_eq_ok_iff.mp combined).symm⟩
      · rintro ⟨first, others, head, tail, rfl⟩
        exact ⟨first, head, bind_eq_ok_iff.mpr ⟨others, ih.mpr tail, rfl⟩⟩

/-- A list of computations that succeeds has no member that is refused. -/
theorem exists_eq_ok_of_mapM {computation : α → Except ε β} {items : List α} {results : List β}
    (success : items.mapM computation = .ok results) :
    ∀ item ∈ items, ∃ result, computation item = .ok result := by
  have paired := (mapM_eq_ok_iff.mp success).imp
    fun item result succeeded => (⟨⟨result, succeeded⟩, succeeded⟩ :
      (∃ result, computation item = .ok result) ∧ computation item = .ok result)
  exact ((List.forall₂_and_left _ _).mp paired).1

/-- A sequence is refused exactly when its first part is, or its second part is after the
first has succeeded. -/
theorem bind_eq_error_iff {computation : Except ε α} {next : α → Except ε β} {fault : ε} :
    computation >>= next = .error fault ↔
      computation = .error fault ∨
        ∃ value, computation = .ok value ∧ next value = .error fault := by
  cases computation with
  | error reason =>
      constructor
      · intro refused
        cases refused
        exact .inl rfl
      · rintro (⟨⟨⟩⟩ | ⟨_, ⟨⟩, _⟩)
        rfl
  | ok value =>
      constructor
      · intro refused
        exact .inr ⟨value, rfl, refused⟩
      · rintro (⟨⟨⟩⟩ | ⟨_, ⟨⟩, refused⟩)
        exact refused

theorem map_eq_error_iff {computation : Except ε α} {view : α → β} {fault : ε} :
    view <$> computation = .error fault ↔ computation = .error fault := by
  cases computation with
  | error reason => simp
  | ok value => simp

/-- Placing the result of a computation adds no refusal to those of the computation. -/
theorem bind_pure_eq_error_iff {computation : Except ε α} {view : α → β} {fault : ε} :
    (computation >>= fun value => pure (view value)) = .error fault ↔
      computation = .error fault := by
  rw [← map_eq_pure_bind]
  exact map_eq_error_iff

/-- A list of computations is refused for the first of them that is refused. -/
theorem mapM_eq_error_iff {computation : α → Except ε β} {items : List α} {fault : ε} :
    items.mapM computation = .error fault ↔
      ∃ before item after, items = before ++ item :: after ∧
        (∀ earlier ∈ before, ∃ result, computation earlier = .ok result) ∧
        computation item = .error fault := by
  induction items with
  | nil => simp [pure, Except.pure]
  | cons first rest ih =>
      rw [List.mapM_cons, bind_eq_error_iff]
      constructor
      · rintro (refused | ⟨result, succeeded, refused⟩)
        · exact ⟨[], first, rest, rfl, by simp, refused⟩
        · have remaining : rest.mapM computation = .error fault := by
            rcases bind_eq_error_iff.mp refused with refused | ⟨_, _, ⟨⟩⟩
            exact refused
          obtain ⟨before, item, after, split, succeededBefore, refusedHere⟩ := ih.mp remaining
          refine ⟨first :: before, item, after, by rw [split, List.cons_append], ?_, refusedHere⟩
          exact List.forall_mem_cons.mpr ⟨⟨result, succeeded⟩, succeededBefore⟩
      · rintro ⟨before, item, after, split, succeeded, refused⟩
        cases before with
        | nil =>
            obtain ⟨rfl, rfl⟩ := List.cons.inj split
            exact .inl refused
        | cons _ before =>
            obtain ⟨rfl, rfl⟩ := List.cons.inj split
            obtain ⟨⟨result, succeededFirst⟩, succeededBefore⟩ := List.forall_mem_cons.mp succeeded
            have remaining := ih.mpr ⟨before, item, after, rfl, succeededBefore, refused⟩
            exact .inr ⟨result, succeededFirst, bind_eq_error_iff.mpr (.inl remaining)⟩

/-- What every step of a sequence keeps is kept by the sequence. -/
theorem foldlM_keeps (holds : β → Prop) {step : β → α → Except ε β} {items : List α}
    (keeps : ∀ item ∈ items, ∀ earlier later, holds earlier → step earlier item = .ok later →
      holds later)
    {first last : β} (begins : holds first) (success : items.foldlM step first = .ok last) :
    holds last := by
  induction items generalizing first with
  | nil =>
      rw [List.foldlM_nil, pure_eq_ok_iff] at success
      exact success ▸ begins
  | cons item rest ih =>
      obtain ⟨here, others⟩ := List.forall_mem_cons.mp keeps
      rw [List.foldlM_cons, bind_eq_ok_iff] at success
      obtain ⟨next, stepped, remaining⟩ := success
      exact ih others (here first next begins stepped) remaining

end ChipAsm
