import Champy.CheckedExecution

/-!
# Two runs side by side

Two runs are related when both fail in the same way, or both return and their values
are related.  The relation goes through sequencing and loops, so a program that reads
only what two states have in common returns related values on them.

The file names nothing of any particular program.
-/

namespace Champy

namespace Exec

variable {ε α α' β β' γ : Type}

/-- Equal failures, or values in a relation. -/
def Related (relation : α → α' → Prop) : Exec ε α → Exec ε α' → Prop
  | .ok value, .ok value' => relation value value'
  | .error failure, .error failure' => failure = failure'
  | _, _ => False

variable {relation : α → α' → Prop} {stops : Failure ε → Prop} {run : Exec ε α}
  {next : α → Exec ε β}

theorem Related.bind {relation' : β → β' → Prop} {run' : Exec ε α'} {next' : α' → Exec ε β'}
    (related : Related relation run run')
    (nexts : ∀ value value', relation value value' →
      Related relation' (next value) (next' value')) :
    Related relation' (run >>= next) (run' >>= next') := by
  match run, run', related with
  | .ok value, .ok value', related => exact nexts value value' related
  | .error failure, .error failure', related => exact related

/-- Runs that are the same up to the point where the relation starts to matter. -/
theorem related_bind_same {relation : β → β' → Prop} {next' : α → Exec ε β'}
    (nexts : ∀ value, run = .ok value → Related relation (next value) (next' value)) :
    Related relation (run >>= next) (run >>= next') := by
  cases ret : run with
  | error failure => exact rfl
  | ok value => exact nexts value ret

theorem related_foldlM {step : α → γ → Exec ε α} {step' : α' → γ → Exec ε α'} {elems : List γ}
    {start : α} {start' : α'}
    (round : ∀ elem ∈ elems, ∀ value value', relation value value' →
      Related relation (step value elem) (step' value' elem))
    (related : relation start start') :
    Related relation (elems.foldlM step start) (elems.foldlM step' start') := by
  induction elems generalizing start start' with
  | nil => exact related
  | cons elem elems ih =>
    rw [List.forall_mem_cons] at round
    rw [List.foldlM_cons, List.foldlM_cons]
    exact (round.1 start start' related).bind fun _ _ => ih round.2

/-- A run that does what another does, unless the other stops with a failure of some kind. -/
def Extends (stops : Failure ε → Prop) (run run' : Exec ε α) : Prop :=
  run' = run ∨ ∃ failure, run = .error failure ∧ stops failure

theorem extends_refl (stops : Failure ε → Prop) (run : Exec ε α) : Extends stops run run :=
  Or.inl rfl

theorem Extends.bind {run' : Exec ε α} {next' : α → Exec ε β} (extends_run : Extends stops run run')
    (nexts : ∀ value, Extends stops (next value) (next' value)) :
    Extends stops (run >>= next) (run' >>= next') := by
  rcases extends_run with same | stopped
  · cases run with
    | error failure =>
      rw [same]
      exact Or.inl rfl
    | ok value =>
      rw [same]
      exact nexts value
  · obtain ⟨failure, stopped, kind⟩ := stopped
    rw [stopped]
    exact Or.inr ⟨failure, rfl, kind⟩

theorem extends_foldlM {step step' : α → γ → Exec ε α}
    (round : ∀ value elem, Extends stops (step value elem) (step' value elem))
    (elems : List γ) (start : α) :
    Extends stops (elems.foldlM step start) (elems.foldlM step' start) := by
  induction elems generalizing start with
  | nil => exact Or.inl rfl
  | cons elem elems ih =>
    rw [List.foldlM_cons, List.foldlM_cons]
    exact (round start elem).bind fun next => ih next

theorem extends_mapM {action action' : γ → Exec ε α}
    (round : ∀ elem, Extends stops (action elem) (action' elem)) (elems : List γ) :
    Extends stops (elems.mapM action) (elems.mapM action') := by
  induction elems with
  | nil => exact Or.inl rfl
  | cons elem elems ih =>
    rw [List.mapM_cons, List.mapM_cons]
    exact (round elem).bind fun value => ih.bind fun values => extends_refl stops _

/-- Parts of the values that are always equal make the runs equal on these parts. -/
theorem Related.map_eq {run' : Exec ε α'} {part : α → γ} {part' : α' → γ}
    (related : Related relation run run')
    (same : ∀ value value', relation value value' → part value = part' value') :
    run.map part = run'.map part' := by
  match run, run', related with
  | .ok value, .ok value', related => exact congrArg Except.ok (same value value' related)
  | .error failure, .error failure', related => exact congrArg Except.error related

end Exec

end Champy
