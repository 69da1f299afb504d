import Mathlib.Logic.Basic
import Mathlib.Tactic.Common

/-!
# Loops with a measure

A loop is a function for one round and a number that every further round makes smaller.
The round fails, ends the loop with a result, or goes on with a new state.

The file names nothing of any particular program.
-/

namespace Champy

/-- The loop, given by one round of it. -/
structure MeasuredLoop (σ ε α : Type) where
  round : σ → Except ε (α ⊕ σ)
  measure : σ → Nat
  decreases : ∀ {state next}, round state = .ok (.inr next) → measure next < measure state

namespace MeasuredLoop

variable {σ ε α : Type} (loop : MeasuredLoop σ ε α)

def run (state : σ) : Except ε α :=
  match _ran : loop.round state with
  | .error failure => .error failure
  | .ok (.inl result) => .ok result
  | .ok (.inr state') => run state'
  termination_by loop.measure state
  decreasing_by exact loop.decreases _ran

variable {loop} {state next : σ} {res : α} {failure : ε}

theorem run_of_error (stopped : loop.round state = .error failure) :
    loop.run state = .error failure := by
  rw [run]
  split
  next error => rw [stopped] at error; cases error; rfl
  next value => rw [stopped] at value; cases value
  next value => rw [stopped] at value; cases value

theorem run_of_result (ended : loop.round state = .ok (.inl res)) : loop.run state = .ok res := by
  rw [run]
  split
  next error => rw [ended] at error; cases error
  next value => rw [ended] at value; cases value; rfl
  next value => rw [ended] at value; cases value

theorem run_of_next (goesOn : loop.round state = .ok (.inr next)) :
    loop.run state = loop.run next := by
  rw [run]
  split
  next error => rw [goesOn] at error; cases error
  next value => rw [goesOn] at value; cases value
  next value => rw [goesOn] at value; cases value; rfl

/-- What one round keeps, or ends with, holds of the whole run: it returns. -/
theorem run_spec {holds : σ → Prop} {post : α → Prop}
    (round : ∀ state, holds state → ∃ outcome, loop.round state = .ok outcome ∧
      Sum.elim post holds outcome)
    (initial : holds state) : ∃ res, loop.run state = .ok res ∧ post res := by
  induction measured : loop.measure state using Nat.strongRecOn generalizing state with
  | ind measure ih =>
    obtain ⟨outcome, ran, kept⟩ := round state initial
    cases outcome with
    | inl res => exact ⟨res, run_of_result ran, kept⟩
    | inr next =>
      rw [run_of_next ran]
      exact ih _ (measured ▸ loop.decreases ran) kept rfl

theorem run_ok_induction {motive : σ → Prop}
    (last : ∀ state, loop.round state = .ok (.inl res) → motive state)
    (further : ∀ state next, loop.round state = .ok (.inr next) → loop.run next = .ok res →
      motive next → motive state)
    (ret : loop.run state = .ok res) : motive state := by
  induction measured : loop.measure state using Nat.strongRecOn generalizing state with
  | ind measure ih =>
    cases ran : loop.round state with
    | error failure =>
      rw [run_of_error ran] at ret
      cases ret
    | ok outcome =>
      cases outcome with
      | inl value =>
        rw [run_of_result ran] at ret
        cases ret
        exact last state ran
      | inr next =>
        rw [run_of_next ran] at ret
        exact further state next ran ret (ih _ (measured ▸ loop.decreases ran) ret rfl)

end MeasuredLoop

end Champy
