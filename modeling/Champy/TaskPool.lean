import Mathlib.Logic.Relation
import Mathlib.Logic.Function.Basic

/-!
# Worker pools

A pool takes numbered tasks from the front of one queue, hands each to a free
worker and publishes the result under the number of the task.  Workers finish in
any order.  Whoever submitted the tasks reads the results by number, so nothing
it sees depends on that order.
-/

namespace TaskPool

open Function

variable {α β : Type}

structure Pool (β : Type) where
  queue : List Nat
  running : List Nat
  outcome : Nat → Option β

inductive Step (run : α → β) (tasks : List α) (workers : Nat) : Pool β → Pool β → Prop
  | take (index : Nat) (queue running : List Nat) (outcome : Nat → Option β)
      (free : running.length < workers) :
      Step run tasks workers ⟨index :: queue, running, outcome⟩ ⟨queue, index :: running, outcome⟩
  | finish (queue before after : List Nat) (outcome : Nat → Option β) (index : Nat) (task : α)
      (found : tasks[index]? = some task) :
      Step run tasks workers ⟨queue, before ++ index :: after, outcome⟩
        ⟨queue, before ++ after, update outcome index (some (run task))⟩

def submit (tasks : List α) : Pool β :=
  { queue := List.range tasks.length, running := [], outcome := fun _ => none }

/-- The states of the pool under every schedule of its workers. -/
def Reachable (run : α → β) (tasks : List α) (workers : Nat) (pool : Pool β) : Prop :=
  Relation.ReflTransGen (Step run tasks workers) (submit tasks) pool

/-- Waits for every result and reads them in the order of submission; none while
some task has not finished. -/
def Pool.futures (pool : Pool β) : List Nat → Option (List β)
  | [] => some []
  | index :: indices =>
    match pool.outcome index with
    | none => none
    | some result => (pool.futures indices).map (result :: ·)

/-- A published result is the result of the task with that number. -/
def Faithful (run : α → β) (tasks : List α) (pool : Pool β) : Prop :=
  ∀ (index : Nat) (result : β), pool.outcome index = some result →
    ∃ task, tasks[index]? = some task ∧ result = run task

variable {workers : Nat} {pool : Pool β} {run : α → β} {tasks : List α}

theorem Faithful.step {next : Pool β} (faithful : Faithful run tasks pool)
    (step : Step run tasks workers pool next) :
    Faithful run tasks next := by
  cases step with
  | take index queue running outcome free => exact faithful
  | finish queue before after outcome index task found =>
    intro pos res published
    dsimp only at published
    by_cases same : pos = index
    · subst same
      rw [update_self] at published
      cases published
      exact ⟨task, found, rfl⟩
    · rw [update_of_ne same] at published
      exact faithful pos res published

theorem Reachable.faithful (reachable : Reachable run tasks workers pool) :
    Faithful run tasks pool := by
  induction reachable with
  | refl =>
    intro index res published
    cases published
  | tail _ step ih => exact ih.step step

theorem futures_suffix (rest : List α) (start : Nat) (results : List β)
    (published : ∀ (offset : Nat) (task : α) (res : β), rest[offset]? = some task →
      pool.outcome (start + offset) = some res → res = run task)
    (finished : pool.futures (List.range' start rest.length) = some results) :
    results = rest.map run := by
  induction rest generalizing start results with
  | nil => simpa [Pool.futures] using finished.symm
  | cons task rest ih =>
    rw [List.length_cons, List.range'_succ, Pool.futures] at finished
    cases first : pool.outcome start with
    | none => simp [first] at finished
    | some res =>
      rw [first] at finished
      obtain ⟨others, othersFinished, rfl⟩ := Option.map_eq_some_iff.mp finished
      have firstResult : res = run task := published 0 task res (by simp) (by simpa using first)
      have otherResults : others = rest.map run := by
        refine ih (start + 1) others ?_ othersFinished
        intro offset other otherResult found otherPublished
        refine published (offset + 1) other otherResult (by simpa using found) ?_
        rwa [Nat.add_assoc, Nat.add_comm 1 offset] at otherPublished
      rw [firstResult, otherResults, List.map_cons]

/-- Under every schedule the results that are read are those of running the tasks in
the order of submission. -/
theorem Reachable.futures_eq (reachable : Reachable run tasks workers pool) {results : List β}
    (finished : pool.futures (List.range tasks.length) = some results) :
    results = tasks.map run := by
  rw [List.range_eq_range'] at finished
  refine futures_suffix tasks 0 results ?_ finished
  intro offset task res found published
  rw [Nat.zero_add] at published
  obtain ⟨actual, actualFound, resultEq⟩ := reachable.faithful offset res published
  rw [found] at actualFound
  cases actualFound
  exact resultEq

/-! ## Schedules that finish -/

/-- No task is lost: each is queued, running or published. -/
def Accounted (tasks : List α) (pool : Pool β) : Prop :=
  ∀ index < tasks.length,
    index ∈ pool.queue ∨ index ∈ pool.running ∨ (pool.outcome index).isSome

theorem Accounted.step {next : Pool β} (accounted : Accounted tasks pool)
    (step : Step run tasks workers pool next) : Accounted tasks next := by
  intro index within
  have before := accounted index within
  cases step with
  | take =>
    simp only [List.mem_cons] at before ⊢
    grind
  | finish queue former later outcome finished =>
    by_cases same : index = finished
    · simp [same]
    · simp only [List.mem_append, List.mem_cons, same, false_or] at before ⊢
      rwa [update_of_ne same]

theorem Reachable.accounted (reachable : Reachable run tasks workers pool) :
    Accounted tasks pool := by
  induction reachable with
  | refl => exact fun index within => .inl (List.mem_range.mpr within)
  | tail _ step ih => exact ih.step step

/-- The pool when one worker has run the first `count` tasks. -/
def ranFirst (run : α → β) (tasks : List α) (count : Nat) : Pool β :=
  { queue := List.range' count (tasks.length - count)
    running := []
    outcome := fun index => if index < count then tasks[index]?.map run else none }

theorem reachable_ranFirst (run : α → β) (tasks : List α) (working : 0 < workers) (count : Nat)
    (within : count ≤ tasks.length) :
    Reachable run tasks workers (ranFirst run tasks count) := by
  induction count with
  | zero =>
    have start : ranFirst run tasks 0 = submit tasks := by
      simp [ranFirst, submit, List.range_eq_range']
    rw [start]
    exact Relation.ReflTransGen.refl
  | succ count ih =>
    have reachable := ih (by omega)
    have queueEq : List.range' count (tasks.length - count) =
        count :: List.range' (count + 1) (tasks.length - (count + 1)) := by
      rw [← List.range'_succ]
      congr 1
      omega
    have found : tasks[count]? = some tasks[count] := List.getElem?_eq_getElem (by omega)
    rw [ranFirst, queueEq] at reachable
    have taken := reachable.tail (Step.take count _ [] _ working)
    have finished := taken.tail (Step.finish _ [] [] _ count tasks[count] found)
    have outcomeEq : update (fun index => if index < count then tasks[index]?.map run else none)
          count (some (run tasks[count])) =
        fun index => if index < count + 1 then tasks[index]?.map run else none := by
      funext index
      by_cases same : index = count
      · subst same
        simp [found]
      · rw [update_of_ne same]
        have before : index < count ↔ index < count + 1 := by omega
        simp only [before]
    rw [outcomeEq] at finished
    exact finished

theorem exists_futures (indices : List Nat)
    (published : ∀ index ∈ indices, (pool.outcome index).isSome) :
    ∃ results, pool.futures indices = some results := by
  induction indices with
  | nil => exact ⟨[], rfl⟩
  | cons index indices ih =>
    obtain ⟨res, resultEq⟩ := Option.isSome_iff_exists.mp (published index (by simp))
    obtain ⟨results, resultsEq⟩ := ih (fun other mem => published other (by simp [mem]))
    exact ⟨res :: results, by simp [Pool.futures, resultEq, resultsEq]⟩

/-- With nothing queued or running every result can be read. -/
theorem Reachable.exists_futures_of_idle (reachable : Reachable run tasks workers pool)
    (unqueued : pool.queue = []) (resting : pool.running = []) :
    ∃ results, pool.futures (List.range tasks.length) = some results := by
  apply exists_futures
  intro index mem
  simpa [unqueued, resting] using reachable.accounted index (List.mem_range.mp mem)

/-- A pool with a worker can run every task. -/
theorem exists_idle (run : α → β) (tasks : List α) (working : 0 < workers) :
    ∃ pool, Reachable run tasks workers pool ∧ pool.queue = [] ∧ pool.running = [] :=
  ⟨ranFirst run tasks tasks.length,
    reachable_ranFirst run tasks working tasks.length (Nat.le_refl _), by simp [ranFirst], rfl⟩

end TaskPool
