import Champy.CheckedExecution

/-!
# Loops that an element can stop

A loop over a list whose every round answers whether to go on.  The run ends with the state of
the last round and with whether all elements went through.

The file names nothing of any particular program.
-/

namespace Champy

namespace Exec

variable {ε σ β : Type} (round : σ → β → Exec ε (Bool × σ))

def forWhile : List β → σ → Exec ε (Bool × σ)
  | [], state => .ok (true, state)
  | element :: elements, state => do
      let (goesOn, state) ← round state element
      if goesOn then forWhile elements state else pure (false, state)

/-- The states after the rounds of the loop, in order. -/
def forWhileStates : List β → σ → List σ
  | [], _ => []
  | element :: elements, state =>
    match round state element with
    | .error _ => []
    | .ok (goesOn, next) => next :: if goesOn then forWhileStates elements next else []

variable {round}

/-- What the rounds keep while they go on, of the elements so far and of the state, holds after a
loop that went through, and what every round ends with holds of all states in between. -/
theorem forWhile_spec {holds : List β → σ → Prop} {inside : σ → Prop} {bound : Nat}
    (step : ∀ done state elem goesOn next, holds done state → done.length < bound →
      round state elem = .ok (goesOn, next) →
      inside next ∧ (goesOn = true → holds (done ++ [elem]) next))
    {elems done : List β} {state : σ} (initial : holds done state)
    (length : done.length + elems.length ≤ bound) :
    (∀ next ∈ forWhileStates round elems state, inside next) ∧
      ∀ final, forWhile round elems state = .ok (true, final) → holds (done ++ elems) final := by
  induction elems generalizing done state with
  | nil =>
    refine ⟨fun next mem => absurd mem List.not_mem_nil, fun final ran => ?_⟩
    cases ran
    rw [List.append_nil]
    exact initial
  | cons elem elems ih =>
    rw [List.length_cons] at length
    rw [forWhileStates, forWhile]
    cases ran : round state elem with
    | error failure => exact ⟨fun next mem => absurd mem List.not_mem_nil, nofun⟩
    | ok outcome =>
      obtain ⟨goesOn, next⟩ := outcome
      obtain ⟨isInside, keeps⟩ := step done state elem goesOn next initial (by omega) ran
      rw [List.append_cons]
      cases goesOn with
      | false => exact ⟨List.forall_mem_singleton.mpr isInside, nofun⟩
      | true =>
        obtain ⟨insideLater, holdsLater⟩ := ih (keeps rfl) (by
          rw [List.length_append, List.length_singleton]
          omega)
        exact ⟨List.forall_mem_cons.mpr ⟨isInside, insideLater⟩, holdsLater⟩

end Exec

end Champy
