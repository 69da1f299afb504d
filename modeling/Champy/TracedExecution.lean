import Champy.CheckedExecution

/-!
# Execution that leaves a trace

A run that records events, such as the calls it makes, up to the point where it returns, rejects
or faults.  Two runs are compared in two ways: by the number of their events, and by whether the
first returns what the second returns.

The file names nothing of any particular program.
-/

namespace Champy

/-- A run, with the events that it recorded in order. -/
structure Traced (τ ε α : Type) where
  trace : List τ
  outcome : Exec ε α

namespace Traced

variable {τ ε α β : Type}

instance : Monad (Traced τ ε) where
  pure value := ⟨[], .ok value⟩
  bind run next :=
    match run.outcome with
    | .error failure => ⟨run.trace, .error failure⟩
    | .ok value => ⟨run.trace ++ (next value).trace, (next value).outcome⟩

/-- A run that records nothing. -/
def lift (run : Exec ε α) : Traced τ ε α :=
  ⟨[], run⟩

def emit (event : τ) (value : α) : Traced τ ε α :=
  ⟨[event], .ok value⟩

@[simp]
theorem outcome_pure (value : α) : (pure value : Traced τ ε α).outcome = .ok value :=
  rfl

@[simp]
theorem outcome_lift (run : Exec ε α) : (lift run : Traced τ ε α).outcome = run :=
  rfl

@[simp]
theorem outcome_bind (run : Traced τ ε α) (next : α → Traced τ ε β) :
    (run >>= next).outcome = run.outcome >>= fun value => (next value).outcome := by
  obtain ⟨trace, outcome⟩ := run
  cases outcome with
  | error failure => rfl
  | ok value => rfl

/-! ### Counting events -/

/-- The run records at most so many events. -/
def AtMost (bound : Nat) (run : Traced τ ε α) : Prop :=
  run.trace.length ≤ bound

theorem atMost_pure (bound : Nat) (value : α) : AtMost bound (pure value : Traced τ ε α) :=
  Nat.zero_le _

theorem atMost_lift (bound : Nat) (run : Exec ε α) : AtMost bound (lift run : Traced τ ε α) :=
  Nat.zero_le _

theorem atMost_emit (event : τ) (value : α) : AtMost 1 (emit event value : Traced τ ε α) :=
  Nat.le_refl 1

variable {next : α → Traced τ ε β} {run : Traced τ ε α}

theorem AtMost.mono {bound larger : Nat} (counted : AtMost bound run) (le : bound ≤ larger) :
    AtMost larger run :=
  Nat.le_trans counted le

/-- The events of a sequence; the rest only counts after the values that come. -/
theorem AtMost.bind {first second : Nat} (counted : AtMost first run)
    (rest : ∀ value, run.outcome = .ok value → AtMost second (next value)) :
    AtMost (first + second) (run >>= next) := by
  obtain ⟨trace, outcome⟩ := run
  cases outcome with
  | error failure => exact Nat.le_add_right_of_le counted
  | ok value =>
    change (trace ++ (next value).trace).length ≤ first + second
    rw [List.length_append]
    exact Nat.add_le_add counted (rest value rfl)

theorem AtMost.lift_bind {bound : Nat} {run : Exec ε α}
    (rest : ∀ value, run = .ok value → AtMost bound (next value)) :
    AtMost bound ((lift run : Traced τ ε α) >>= next) := by
  have counted := (atMost_lift 0 run : AtMost 0 (lift run : Traced τ ε α)).bind rest
  rwa [Nat.zero_add] at counted

theorem AtMost.bind_lift {bound : Nat} (counted : AtMost bound run)
    (rest : ∀ value, AtMost 0 (next value)) :
    AtMost bound (run >>= next) :=
  counted.bind fun value _ => rest value

end Traced

namespace Exec

variable {ε α β : Type}

/-- Where the second run returns a value, the first returns it too. -/
def ReturnsAs (first second : Exec ε α) : Prop :=
  ∀ value, second = .ok value → first = .ok value

theorem ReturnsAs.refl (run : Exec ε α) : ReturnsAs run run := fun _ same => same

variable {first second : Exec ε α} {next next' : α → Exec ε β}

theorem ReturnsAs.bind
    (runs : ReturnsAs first second) (rest : ∀ value, ReturnsAs (next value) (next' value)) :
    ReturnsAs (first >>= next) (second >>= next') := by
  intro res ran
  obtain ⟨value, ranFirst, ranRest⟩ := bind_eq_ok.mp ran
  exact bind_eq_ok.mpr ⟨value, runs value ranFirst, rest value res ranRest⟩

/-- The common case where both go on in the same way from a value. -/
theorem ReturnsAs.bind_right (run : Exec ε α)
    (rest : ∀ value, ReturnsAs (next value) (next' value)) :
    ReturnsAs (run >>= next) (run >>= next') :=
  (ReturnsAs.refl run).bind rest

theorem returnsAs_ensure {cond condition' : Bool} {error error' : ε}
    (weaker : condition' = true → cond = true) :
    ReturnsAs (ensure cond error) (ensure condition' error') := by
  intro value passed
  rw [ensure_eq_ok] at passed ⊢
  exact weaker passed

theorem ReturnsAs.andThen (runs : ReturnsAs first second)
    (next : α → Exec ε β) : ReturnsAs (first >>= next) (second >>= next) :=
  runs.bind fun _ => .refl _

theorem ReturnsAs.map (runs : ReturnsAs first second)
    (change : α → β) : ReturnsAs (first.map change) (second.map change) :=
  runs.andThen _

theorem returnsAs_foldlM {step step' : α → β → Exec ε α}
    (rounds : ∀ value elem, ReturnsAs (step value elem) (step' value elem))
    (elems : List β) (start : α) :
    ReturnsAs (elems.foldlM step start) (elems.foldlM step' start) := by
  induction elems generalizing start with
  | nil => exact ReturnsAs.refl _
  | cons elem elems ih => exact (rounds start elem).bind ih

end Exec

namespace Traced

variable {τ ε α β : Type}

def ReturnsAs (first second : Traced τ ε α) : Prop :=
  Exec.ReturnsAs first.outcome second.outcome

theorem ReturnsAs.refl (run : Traced τ ε α) : ReturnsAs run run := Exec.ReturnsAs.refl _

theorem returnsAs_lift {first second : Exec ε α} (runs : Exec.ReturnsAs first second) :
    ReturnsAs (lift first : Traced τ ε α) (lift second) :=
  runs

variable {first second : Traced τ ε α}

theorem ReturnsAs.bind {next next' : α → Traced τ ε β}
    (runs : ReturnsAs first second) (rest : ∀ value, ReturnsAs (next value) (next' value)) :
    ReturnsAs (first >>= next) (second >>= next') := by
  rw [ReturnsAs, outcome_bind, outcome_bind]
  exact Exec.ReturnsAs.bind runs rest

theorem ReturnsAs.andThen (runs : ReturnsAs first second)
    (next : α → Traced τ ε β) : ReturnsAs (first >>= next) (second >>= next) :=
  runs.bind fun _ => .refl _

end Traced

end Champy
