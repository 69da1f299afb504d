import Champy.BlockSpend
import Champy.SignatureEncodings
import Champy.TaskPool

/-!
# Inline and deferred script checks

`CoreBlockScriptChecker` checks the scripts of a block in one of two ways.  Inline,
every input of a transaction is checked when the transaction is submitted, and a
transaction that passes may be stored in the script execution cache.  Deferred, one
task for each input is kept until `Complete`, which runs them all on the script
thread pool.  Both look the transaction up in the cache first.

The verdict on one input is a parameter, and so is the cache: what a lookup and an
insertion may do to it is all that is known of it.
-/

namespace Champy

open TaskPool Relation.ReflTransGen

/-- `ScriptTaskResult`: the script error and debug message of an input that fails. -/
abbrev ScriptTaskResult : Type := Option (ScriptError × String)

structure ScriptTask where
  output : CTxOut
  tx : CTransaction
  inputIndex : Nat
  flags : ScriptVerifyFlags
  deriving DecidableEq, Repr

/-- `CoreScriptValidationCache`.  A lookup may mark the entry for erasure, and an
insertion may evict other entries; neither adds any entry but the inserted one. -/
class ScriptExecutionCache (C : Type) where
  Holds : C → Uint256 → Prop
  containsScriptExecution : C → Uint256 → Bool → Bool × C
  storeScriptExecution : C → Uint256 → C
  holds_of_contains : ∀ (cache : C) (entry : Uint256) (erase : Bool),
    (containsScriptExecution cache entry erase).1 = true → Holds cache entry
  holds_before_contains : ∀ (cache : C) (entry : Uint256) (erase : Bool) (other : Uint256),
    Holds (containsScriptExecution cache entry erase).2 other → Holds cache other
  holds_before_store : ∀ (cache : C) (entry other : Uint256),
    Holds (storeScriptExecution cache entry) other → Holds cache other ∨ other = entry

def mandatoryScriptVerifyFlags : ScriptVerifyFlags :=
  scriptVerifyP2SH ||| scriptVerifyDerSig ||| scriptVerifyNullDummy |||
    scriptVerifyCheckLockTimeVerify ||| scriptVerifyCheckSequenceVerify |||
    scriptVerifyWitness ||| scriptVerifyTaproot

def standardScriptVerifyFlags : ScriptVerifyFlags :=
  mandatoryScriptVerifyFlags ||| scriptVerifyStrictEnc ||| scriptVerifyMinimalData |||
    scriptVerifyDiscourageUpgradableNops ||| scriptVerifyCleanStack |||
    scriptVerifyMinimalIf ||| scriptVerifyNullFail ||| scriptVerifyLowS |||
    scriptVerifyDiscourageUpgradableWitnessProgram ||| scriptVerifyWitnessPubkeyType |||
    scriptVerifyConstScriptCode ||| scriptVerifyDiscourageUpgradableTaprootVersion |||
    scriptVerifyDiscourageOpSuccess ||| scriptVerifyDiscourageUpgradablePubkeyType

def standardNotMandatoryVerifyFlags : ScriptVerifyFlags :=
  standardScriptVerifyFlags &&& ~~~mandatoryScriptVerifyFlags

/-- The members of `CoreBlockScriptChecker` that stay fixed, with the functions it
calls: the check of one input, the cache key and the text of a script error. -/
structure CoreBlockScriptChecker where
  runChecks : Bool
  cacheResults : Bool
  executesInline : Bool
  runScriptTask : ScriptTask → ScriptTaskResult
  executionCacheEntry : CTransaction → ScriptVerifyFlags → Uint256
  scriptErrorString : ScriptError → String

structure ScriptCheckState (C : Type) where
  cache : C
  deferredTasks : List ScriptTask

/-- The tasks of a transaction: input `i` against spent output `i`. -/
def scriptTasks (check : TransactionScriptCheckPlan) : List ScriptTask :=
  check.spentOutputs.mapIdx fun index output =>
    { output := output, tx := check.tx, inputIndex := index, flags := check.flags }

namespace CoreBlockScriptChecker

variable {C : Type} [ScriptExecutionCache C]

/-- `BlockScriptError` of the state that a failed input leaves. -/
def blockScriptError (checker : CoreBlockScriptChecker) (flags : ScriptVerifyFlags)
    (failure : ScriptError × String) : BlockSpendError :=
  let stage :=
    if flags &&& standardNotMandatoryVerifyFlags ≠ 0 then "mempool" else "block"
  { issue := .consensus
    runtimeIssue := none
    rejectReason :=
      stage ++ "-script-verify-flag-failed (" ++ checker.scriptErrorString failure.1 ++ ")"
    debugMessage := failure.2 }

def blockScriptTaskError (checker : CoreBlockScriptChecker)
    (failure : ScriptError × String) : BlockSpendError :=
  { issue := .consensus
    runtimeIssue := none
    rejectReason :=
      "block-script-verify-flag-failed (" ++ checker.scriptErrorString failure.1 ++ ")"
    debugMessage := failure.2 }

/-- `CheckInputScriptsFromPlan` with `CheckInputScriptsWithPreparedOutputs`. -/
def checkInputScriptsFromPlan (checker : CoreBlockScriptChecker)
    (check : TransactionScriptCheckPlan) (state : ScriptCheckState C) :
    BlockSpendResult Unit × ScriptCheckState C :=
  if check.spentOutputs.length ≠ check.tx.vin.length then
    (.error (.fault .assertion), state)
  else if check.tx.isCoinBase then
    (.ok (), state)
  else
    let entry := checker.executionCacheEntry check.tx check.flags
    let lookup := ScriptExecutionCache.containsScriptExecution state.cache entry
      (!checker.cacheResults)
    let found := { state with cache := lookup.2 }
    if lookup.1 then
      (.ok (), found)
    else if check.spentOutputs.isEmpty then
      -- `Init` leaves `m_spent_outputs_ready` false without spent outputs.
      (.error (.fault .assertion), found)
    else if !checker.executesInline then
      (.ok (), { found with deferredTasks := state.deferredTasks ++ scriptTasks check })
    else
      match (scriptTasks check).findSome? checker.runScriptTask with
      | some failure =>
        (.error (.reject (checker.blockScriptError check.flags failure)), found)
      | none =>
        if checker.cacheResults then
          (.ok (), { found with
            cache := ScriptExecutionCache.storeScriptExecution lookup.2 entry })
        else
          (.ok (), found)

def check (checker : CoreBlockScriptChecker) (plan : TransactionScriptCheckPlan)
    (state : ScriptCheckState C) : BlockSpendResult Unit × ScriptCheckState C :=
  if !checker.runChecks then (.ok (), state) else checker.checkInputScriptsFromPlan plan state

/-- The transactions are submitted in order until one is refused. -/
def checkAll (checker : CoreBlockScriptChecker) :
    List TransactionScriptCheckPlan → ScriptCheckState C →
      BlockSpendResult Unit × ScriptCheckState C
  | [], state => (.ok (), state)
  | plan :: plans, state =>
    match checker.check plan state with
    | (.error failure, after) => (.error failure, after)
    | (.ok (), after) => checkAll checker plans after

end CoreBlockScriptChecker

/-- The loop over the futures in `ThreadPoolScriptTaskExecutor::Execute`: every result
is read, and the first error is kept. -/
def firstError (results : List ScriptTaskResult) : ScriptTaskResult :=
  results.foldl
    (fun firstError result => if result.isSome && firstError.isNone then result else firstError)
    none

/-- `ThreadPoolScriptTaskExecutor::Execute` when the pool that got the tasks is in the
given state; none while it waits for a future. -/
def executeScriptTasks (tasks : List ScriptTask) (pool : Pool ScriptTaskResult) :
    Option ScriptTaskResult :=
  if tasks.isEmpty then some none
  else (pool.futures (List.range tasks.length)).map firstError

def CoreBlockScriptChecker.complete {C : Type} (checker : CoreBlockScriptChecker)
    (pool : Pool ScriptTaskResult) (state : ScriptCheckState C) :
    Option (BlockSpendResult Unit × ScriptCheckState C) :=
  if !checker.runChecks then some (.ok (), state)
  else if checker.executesInline then some (.ok (), state)
  else
    (executeScriptTasks state.deferredTasks pool).map fun taskResult =>
      let after := { state with deferredTasks := [] }
      match taskResult with
      | none => (.ok (), after)
      | some failure => (.error (.reject (checker.blockScriptTaskError failure)), after)

/-- A block's script checks: every transaction is submitted, and `Complete` follows
when none was refused. -/
def CoreBlockScriptChecker.checkBlock {C : Type} [ScriptExecutionCache C]
    (checker : CoreBlockScriptChecker) (pool : Pool ScriptTaskResult)
    (plans : List TransactionScriptCheckPlan) (state : ScriptCheckState C) :
    Option (BlockSpendResult Unit × ScriptCheckState C) :=
  match checker.checkAll plans state with
  | (.error failure, after) => some (.error failure, after)
  | (.ok (), after) => checker.complete pool after

/-! ## What the checks are for -/

/-- The inputs of a transaction that have a script to check: a coinbase has none. -/
def submittedTasks (plan : TransactionScriptCheckPlan) : List ScriptTask :=
  if plan.tx.isCoinBase then [] else scriptTasks plan

/-- The plans that are submitted: each has an input and one spent output for each input,
the one that the prevout commits to, so that the plan is known from the transaction and
the flags; and no two of them have the same key in the cache, which is a hash of both. -/
structure GenuinePlans (executionCacheEntry : CTransaction → ScriptVerifyFlags → Uint256)
    (genuine : TransactionScriptCheckPlan → Prop) : Prop where
  collisionFree : ∀ first second, genuine first → genuine second →
    executionCacheEntry first.tx first.flags =
      executionCacheEntry second.tx second.flags → first = second
  inputs : ∀ plan, genuine plan → plan.tx.vin ≠ []
  sizes : ∀ plan, genuine plan → plan.spentOutputs.length = plan.tx.vin.length

theorem GenuinePlans.prepared {entry : CTransaction → ScriptVerifyFlags → Uint256}
    {genuine : TransactionScriptCheckPlan → Prop} (plansOf : GenuinePlans entry genuine)
    {plan : TransactionScriptCheckPlan} (planGenuine : genuine plan) :
    plan.spentOutputs.isEmpty = false := by
  rw [List.isEmpty_eq_false_iff, ← List.length_pos_iff, plansOf.sizes plan planGenuine]
  exact List.length_pos_iff.mpr (plansOf.inputs plan planGenuine)

namespace CoreBlockScriptChecker

def verdictOf (checker : CoreBlockScriptChecker) : ScriptTaskResult → BlockSpendResult Unit
  | none => .ok ()
  | some failure => .error (.reject (checker.blockScriptTaskError failure))

/-- The verdict on a block: the error of the first input that fails, in the order of
submission. -/
def blockVerdict (checker : CoreBlockScriptChecker)
    (plans : List TransactionScriptCheckPlan) : BlockSpendResult Unit :=
  if checker.runChecks then
    checker.verdictOf ((plans.flatMap submittedTasks).findSome? checker.runScriptTask)
  else .ok ()

variable {C : Type} [ScriptExecutionCache C]

/-- An entry is in the cache only for transactions all of whose inputs pass under its
flags. -/
def SoundCache (checker : CoreBlockScriptChecker)
    (genuine : TransactionScriptCheckPlan → Prop) (cache : C) : Prop :=
  ∀ plan, genuine plan →
    ScriptExecutionCache.Holds cache (checker.executionCacheEntry plan.tx plan.flags) →
    (scriptTasks plan).findSome? checker.runScriptTask = none

theorem blockScriptError_of_blockFlags (checker : CoreBlockScriptChecker)
    {flags : ScriptVerifyFlags} (blockFlags : flags &&& standardNotMandatoryVerifyFlags = 0)
    (failure : ScriptError × String) :
    checker.blockScriptError flags failure = checker.blockScriptTaskError failure := by
  simp [blockScriptError, blockScriptTaskError, blockFlags]

section Steps

variable {checker : CoreBlockScriptChecker} {genuine : TransactionScriptCheckPlan → Prop}
  {plan : TransactionScriptCheckPlan} {state : ScriptCheckState C}

theorem SoundCache.lookup {cache : C} (sound : checker.SoundCache genuine cache)
    (entry : Uint256) (erase : Bool) :
    checker.SoundCache genuine
      (ScriptExecutionCache.containsScriptExecution cache entry erase).2 := by
  intro plan planGenuine holds
  exact sound plan planGenuine
    (ScriptExecutionCache.holds_before_contains cache entry erase _ holds)

variable (plansOf : GenuinePlans checker.executionCacheEntry genuine)

include plansOf

theorem SoundCache.store {cache : C} (sound : checker.SoundCache genuine cache)
    (planGenuine : genuine plan)
    (passes : (scriptTasks plan).findSome? checker.runScriptTask = none) :
    checker.SoundCache genuine (ScriptExecutionCache.storeScriptExecution cache
        (checker.executionCacheEntry plan.tx plan.flags)) := by
  intro other otherGenuine holds
  rcases ScriptExecutionCache.holds_before_store cache _ _ holds with before | stored
  · exact sound other otherGenuine before
  · rw [plansOf.collisionFree other plan otherGenuine planGenuine stored]
    exact passes

theorem checkInputScriptsFromPlan_inline (executesInline : checker.executesInline = true)
    (planGenuine : genuine plan)
    (blockFlags : plan.flags &&& standardNotMandatoryVerifyFlags = 0)
    (sound : checker.SoundCache genuine state.cache) :
    (checker.checkInputScriptsFromPlan plan state).1 =
        checker.verdictOf ((submittedTasks plan).findSome? checker.runScriptTask) ∧
      checker.SoundCache genuine (checker.checkInputScriptsFromPlan plan state).2.cache := by
  unfold checkInputScriptsFromPlan submittedTasks
  rw [if_neg (not_not_intro (plansOf.sizes plan planGenuine))]
  by_cases coinbase : plan.tx.isCoinBase = true
  · simp only [coinbase, if_true]
    exact ⟨rfl, sound⟩
  · simp only [coinbase, executesInline, plansOf.prepared planGenuine, Bool.not_true, if_false,
      Bool.false_eq_true]
    split
    · rename_i cached
      have passes := sound plan planGenuine (ScriptExecutionCache.holds_of_contains _ _ _ cached)
      rw [passes]
      exact ⟨rfl, sound.lookup _ _⟩
    · split
      · rename_i failure failed
        rw [failed, blockScriptError_of_blockFlags checker blockFlags]
        exact ⟨rfl, sound.lookup _ _⟩
      · rename_i passes
        rw [passes]
        split
        · exact ⟨rfl, (sound.lookup _ _).store plansOf planGenuine passes⟩
        · exact ⟨rfl, sound.lookup _ _⟩

/-- Deferred, nothing is refused, and the tasks that are added fail first where the
inputs of the transaction do: what the cache leaves out passes. -/
theorem checkInputScriptsFromPlan_deferred (deferred : checker.executesInline = false)
    (planGenuine : genuine plan)
    (sound : checker.SoundCache genuine state.cache) :
    (checker.checkInputScriptsFromPlan plan state).1 = .ok () ∧
      checker.SoundCache genuine (checker.checkInputScriptsFromPlan plan state).2.cache ∧
      ∃ added, (checker.checkInputScriptsFromPlan plan state).2.deferredTasks =
          state.deferredTasks ++ added ∧
        added.findSome? checker.runScriptTask =
          (submittedTasks plan).findSome? checker.runScriptTask := by
  unfold checkInputScriptsFromPlan submittedTasks
  rw [if_neg (not_not_intro (plansOf.sizes plan planGenuine))]
  by_cases coinbase : plan.tx.isCoinBase = true
  · simp only [coinbase, if_true]
    exact ⟨trivial, sound, [], by simp, rfl⟩
  · simp only [coinbase, deferred, plansOf.prepared planGenuine, Bool.not_false, if_false,
      if_true, Bool.false_eq_true]
    split
    · rename_i cached
      have passes := sound plan planGenuine (ScriptExecutionCache.holds_of_contains _ _ _ cached)
      exact ⟨rfl, sound.lookup _ _, [], by simp, passes.symm⟩
    · exact ⟨rfl, sound.lookup _ _, scriptTasks plan, rfl, rfl⟩

end Steps

/-! ## Whole blocks -/

section Runs

variable {checker : CoreBlockScriptChecker} {genuine : TransactionScriptCheckPlan → Prop}

theorem checkAll_of_not_runChecks (off : checker.runChecks = false)
    (plans : List TransactionScriptCheckPlan) (state : ScriptCheckState C) :
    checker.checkAll plans state = (.ok (), state) := by
  induction plans with
  | nil => rfl
  | cons plan plans ih => simp [checkAll, check, off, ih]

theorem firstError_from (results : List ScriptTaskResult) (found : ScriptTaskResult) : results.foldl
        (fun firstError res =>
          if res.isSome && firstError.isNone then res else firstError) found =
      found.or (results.findSome? id) := by
  induction results generalizing found with
  | nil => simp
  | cons res results ih =>
    rw [List.foldl_cons, ih]
    cases found <;> cases res <;> simp

variable {pool : Pool ScriptTaskResult}

/-- Under every schedule `Execute` returns the first failure in the order of the tasks. -/
theorem executeScriptTasks_eq {run : ScriptTask → ScriptTaskResult} {tasks : List ScriptTask}
    {workers : Nat} (reachable : Reachable run tasks workers pool)
    {res : ScriptTaskResult} (executed : executeScriptTasks tasks pool = some res) :
    res = tasks.findSome? run := by
  unfold executeScriptTasks at executed
  by_cases empty : tasks = []
  · subst empty
    simpa using executed.symm
  · rw [if_neg (by simpa using empty)] at executed
    obtain ⟨results, finished, rfl⟩ := Option.map_eq_some_iff.mp executed
    rw [reachable.futures_eq finished, firstError, firstError_from, List.findSome?_map]
    rfl

variable (plansOf : GenuinePlans checker.executionCacheEntry genuine)

include plansOf

theorem checkAll_inline (runChecks : checker.runChecks = true)
    (executesInline : checker.executesInline = true)
    (plans : List TransactionScriptCheckPlan)
    (plansGenuine : ∀ plan ∈ plans, genuine plan)
    (blockFlags : ∀ plan ∈ plans, plan.flags &&& standardNotMandatoryVerifyFlags = 0)
    (state : ScriptCheckState C) (sound : checker.SoundCache genuine state.cache) :
    (checker.checkAll plans state).1 =
        checker.verdictOf ((plans.flatMap submittedTasks).findSome? checker.runScriptTask) ∧
      checker.SoundCache genuine (checker.checkAll plans state).2.cache := by
  induction plans generalizing state with
  | nil => exact ⟨rfl, sound⟩
  | cons plan plans ih =>
    have planGenuine := plansGenuine plan (by simp)
    obtain ⟨verdictEq, soundAfter⟩ := checkInputScriptsFromPlan_inline
      plansOf executesInline planGenuine (blockFlags plan (by simp)) sound
    have checkEq : checker.check plan state = checker.checkInputScriptsFromPlan plan state := by
      simp [check, runChecks]
    rw [checkAll, checkEq, List.flatMap_cons, List.findSome?_append]
    generalize checker.checkInputScriptsFromPlan plan state = stepped at verdictEq soundAfter
    obtain ⟨verdict, after⟩ := stepped
    dsimp only at verdictEq soundAfter
    subst verdictEq
    cases (submittedTasks plan).findSome? checker.runScriptTask with
    | some failure => exact ⟨rfl, soundAfter⟩
    | none =>
      exact ih (fun other mem => plansGenuine other (by simp [mem]))
        (fun other mem => blockFlags other (by simp [mem])) after soundAfter

theorem checkAll_deferred (runChecks : checker.runChecks = true)
    (deferred : checker.executesInline = false)
    (plans : List TransactionScriptCheckPlan)
    (plansGenuine : ∀ plan ∈ plans, genuine plan)
    (state : ScriptCheckState C) (sound : checker.SoundCache genuine state.cache) :
    (checker.checkAll plans state).1 = .ok () ∧
      checker.SoundCache genuine (checker.checkAll plans state).2.cache ∧
      (checker.checkAll plans state).2.deferredTasks.findSome? checker.runScriptTask =
        (state.deferredTasks ++ plans.flatMap submittedTasks).findSome? checker.runScriptTask := by
  induction plans generalizing state with
  | nil => exact ⟨rfl, sound, by simp [checkAll]⟩
  | cons plan plans ih =>
    have planGenuine := plansGenuine plan (by simp)
    obtain ⟨ok, soundAfter, added, tasksEq, addedEq⟩ :=
      checkInputScriptsFromPlan_deferred plansOf deferred planGenuine sound
    have checkEq : checker.check plan state = checker.checkInputScriptsFromPlan plan state := by
      simp [check, runChecks]
    rw [checkAll, checkEq]
    generalize checker.checkInputScriptsFromPlan plan state = stepped at ok soundAfter tasksEq
    obtain ⟨verdict, after⟩ := stepped
    dsimp only at ok soundAfter tasksEq
    subst ok
    obtain ⟨restAccepted, restSound, restTasks⟩ := ih
      (fun other mem => plansGenuine other (by simp [mem])) after soundAfter
    refine ⟨restAccepted, restSound, ?_⟩
    rw [restTasks, tasksEq]
    simp only [List.flatMap_cons, List.findSome?_append, addedEq, Option.or_assoc]

variable {plans : List TransactionScriptCheckPlan} {workers : Nat} {cache : C}

theorem checkBlock_inline (executesInline : checker.executesInline = true)
    (plansGenuine : ∀ plan ∈ plans, genuine plan)
    (blockFlags : ∀ plan ∈ plans, plan.flags &&& standardNotMandatoryVerifyFlags = 0)
    (sound : checker.SoundCache genuine cache) (pool : Pool ScriptTaskResult) :
    ∃ after, checker.checkBlock pool plans ⟨cache, []⟩ = some (checker.blockVerdict plans, after) ∧
      checker.SoundCache genuine after.cache := by
  unfold checkBlock blockVerdict
  cases runChecks : checker.runChecks with
  | false =>
    rw [checkAll_of_not_runChecks runChecks]
    exact ⟨⟨cache, []⟩, by simp [complete, runChecks], sound⟩
  | true =>
    obtain ⟨verdictEq, soundAfter⟩ := checkAll_inline plansOf runChecks
      executesInline plans plansGenuine blockFlags ⟨cache, []⟩ sound
    generalize checker.checkAll plans ⟨cache, []⟩ = checked at verdictEq soundAfter
    obtain ⟨verdict, after⟩ := checked
    dsimp only at verdictEq
    subst verdictEq
    refine ⟨after, ?_, soundAfter⟩
    cases (plans.flatMap submittedTasks).findSome? checker.runScriptTask with
    | some failure => rfl
    | none => simp [verdictOf, complete, runChecks, executesInline]

theorem checkBlock_deferred (deferred : checker.executesInline = false)
    (plansGenuine : ∀ plan ∈ plans, genuine plan)
    (sound : checker.SoundCache genuine cache)
    {verdict : BlockSpendResult Unit} {after : ScriptCheckState C}
    (reachable : Reachable checker.runScriptTask
      (checker.checkAll plans ⟨cache, []⟩).2.deferredTasks workers pool)
    (completed : checker.checkBlock pool plans ⟨cache, []⟩ = some (verdict, after)) :
    verdict = checker.blockVerdict plans ∧ checker.SoundCache genuine after.cache := by
  unfold checkBlock at completed
  unfold blockVerdict
  cases runChecks : checker.runChecks with
  | false =>
    rw [checkAll_of_not_runChecks runChecks] at completed
    simp only [complete, runChecks, Bool.not_false, if_true, Option.some.injEq,
      Prod.mk.injEq] at completed
    obtain ⟨rfl, rfl⟩ := completed
    exact ⟨rfl, sound⟩
  | true =>
    obtain ⟨ok, soundAfter, tasksEq⟩ := checkAll_deferred plansOf runChecks deferred
      plans plansGenuine ⟨cache, []⟩ sound
    generalize checker.checkAll plans ⟨cache, []⟩ = checked
      at ok soundAfter tasksEq reachable completed
    obtain ⟨submitted, waiting⟩ := checked
    dsimp only at ok soundAfter tasksEq reachable completed
    subst ok
    simp only [complete, runChecks, deferred, Bool.not_true, Bool.false_eq_true,
      if_false] at completed
    obtain ⟨res, executed, outcomeEq⟩ := Option.map_eq_some_iff.mp completed
    have resultEq := executeScriptTasks_eq reachable executed
    rw [tasksEq, List.nil_append] at resultEq
    rw [← resultEq]
    cases res with
    | none =>
      cases outcomeEq
      exact ⟨rfl, soundAfter⟩
    | some failure =>
      cases outcomeEq
      exact ⟨rfl, soundAfter⟩

/-- A pool with nothing queued or running completes. -/
theorem checkBlock_deferred_isSome (deferred : checker.executesInline = false)
    (plansGenuine : ∀ plan ∈ plans, genuine plan)
    (sound : checker.SoundCache genuine cache)
    (reachable : Reachable checker.runScriptTask
      (checker.checkAll plans ⟨cache, []⟩).2.deferredTasks workers pool)
    (unqueued : pool.queue = []) (resting : pool.running = []) :
    (checker.checkBlock pool plans ⟨cache, []⟩).isSome := by
  obtain ⟨results, finished⟩ := reachable.exists_futures_of_idle unqueued resting
  unfold checkBlock
  cases runChecks : checker.runChecks with
  | false =>
    rw [checkAll_of_not_runChecks runChecks]
    simp [complete, runChecks]
  | true =>
    have ok := (checkAll_deferred plansOf runChecks deferred plans plansGenuine ⟨cache, []⟩ sound).1
    generalize checker.checkAll plans ⟨cache, []⟩ = checked at ok finished
    obtain ⟨submitted, waiting⟩ := checked
    dsimp only at ok finished
    subst ok
    simp only [complete, runChecks, deferred, executeScriptTasks, finished, Bool.not_true,
      Bool.false_eq_true, if_false, Option.isSome_map]
    split <;> rfl

end Runs

/-- Deferring the checks changes nothing: under every schedule of the pool, a block that
completes gets the verdict that it gets inline, and the cache stays sound. -/
theorem deferred_checkBlock_eq_inline (checker : CoreBlockScriptChecker)
    (genuine : TransactionScriptCheckPlan → Prop)
    (plansOf : GenuinePlans checker.executionCacheEntry genuine)
    (plans : List TransactionScriptCheckPlan)
    (plansGenuine : ∀ plan ∈ plans, genuine plan)
    (blockFlags : ∀ plan ∈ plans, plan.flags &&& standardNotMandatoryVerifyFlags = 0)
    (cache : C) (sound : checker.SoundCache genuine cache) (workers : Nat) :
    let inlineChecker := { checker with executesInline := true }
    let deferredChecker := { checker with executesInline := false }
    let tasks := (deferredChecker.checkAll plans ⟨cache, []⟩).2.deferredTasks
    (∀ pool, ∃ after,
      inlineChecker.checkBlock pool plans ⟨cache, []⟩ = some (checker.blockVerdict plans, after) ∧
        checker.SoundCache genuine after.cache) ∧
    (∀ pool verdict after, Reachable checker.runScriptTask tasks workers pool →
      deferredChecker.checkBlock pool plans ⟨cache, []⟩ = some (verdict, after) →
      verdict = checker.blockVerdict plans ∧ checker.SoundCache genuine after.cache) ∧
    (∀ pool, Reachable checker.runScriptTask tasks workers pool →
      pool.queue = [] → pool.running = [] →
      (deferredChecker.checkBlock pool plans ⟨cache, []⟩).isSome) ∧
    (0 < workers → ∃ pool, Reachable checker.runScriptTask tasks workers pool ∧
      (deferredChecker.checkBlock pool plans ⟨cache, []⟩).isSome) := by
  intro inlineChecker deferredChecker tasks
  have inlinePlans : GenuinePlans inlineChecker.executionCacheEntry genuine := plansOf
  have deferredPlans : GenuinePlans deferredChecker.executionCacheEntry genuine := plansOf
  have completes : ∀ pool, Reachable checker.runScriptTask tasks workers pool →
      pool.queue = [] → pool.running = [] →
      (deferredChecker.checkBlock pool plans ⟨cache, []⟩).isSome := by
    intro pool reachable
    exact checkBlock_deferred_isSome deferredPlans rfl plansGenuine sound reachable
  refine ⟨?_, ?_, completes, ?_⟩
  · intro pool
    exact checkBlock_inline inlinePlans rfl plansGenuine blockFlags sound pool
  · intro pool verdict after reachable completed
    exact checkBlock_deferred deferredPlans rfl plansGenuine sound reachable completed
  · intro working
    obtain ⟨pool, reachable, unqueued, resting⟩ := exists_idle checker.runScriptTask tasks working
    exact ⟨pool, reachable, completes pool reachable unqueued resting⟩

instance : ScriptExecutionCache (List Uint256) where
  Holds cache entry := entry ∈ cache
  containsScriptExecution cache entry _ := (cache.any fun held => decide (held = entry), cache)
  storeScriptExecution cache entry := entry :: cache
  holds_of_contains cache entry _ found := by
    obtain ⟨held, member, same⟩ := List.any_eq_true.mp found
    rwa [← of_decide_eq_true same]
  holds_before_contains _ _ _ _ held := held
  holds_before_store _ _ _ held := (List.mem_cons.mp held).symm

/-- Refuses every input, naming its index. -/
def refusingChecker : CoreBlockScriptChecker where
  runChecks := true
  cacheResults := true
  executesInline := false
  runScriptTask := fun task => some (.evalFalse, "input " ++ task.inputIndex.repr)
  executionCacheEntry := fun tx _ => tx.hash
  scriptErrorString := fun _ => "Script evaluated without error"

def twoInputPlan : TransactionScriptCheckPlan where
  tx := { vin := [⟨⟨1, 0⟩, [], 0, []⟩, ⟨⟨1, 1⟩, [], 0, []⟩], vout := [], version := 2,
          nLockTime := 0, hash := 2 }
  flags := mandatoryScriptVerifyFlags
  spentOutputs := [⟨5, []⟩, ⟨7, []⟩]

def twoInputTask (index : Nat) (output : CTxOut) : ScriptTask where
  output := output
  tx := twoInputPlan.tx
  inputIndex := index
  flags := twoInputPlan.flags

/-- The pool after its second task was finished before the first. -/
def secondFirstPool : Pool ScriptTaskResult where
  queue := []
  running := []
  outcome := Function.update (Function.update (fun _ => none)
    1 (some (refusingChecker.runScriptTask (twoInputTask 1 ⟨7, []⟩))))
    0 (some (refusingChecker.runScriptTask (twoInputTask 0 ⟨5, []⟩)))

/-- The second input is refused before the first, and the error of the first is reported. -/
theorem deferred_checkBlock_secondFirst :
    Reachable refusingChecker.runScriptTask (scriptTasks twoInputPlan) 2 secondFirstPool ∧
      ∃ after : ScriptCheckState (List Uint256),
        refusingChecker.checkBlock secondFirstPool [twoInputPlan] ⟨[], []⟩ =
          some (refusingChecker.blockVerdict [twoInputPlan], after) := by
  have reachable : Reachable refusingChecker.runScriptTask (scriptTasks twoInputPlan) 2
      secondFirstPool := by
    refine head (Step.take 0 [1] [] _ (by decide)) ?_
    refine head (Step.take 1 [] [0] _ (by decide)) ?_
    refine head (Step.finish [] [] [0] _ 1 (twoInputTask 1 ⟨7, []⟩) rfl) ?_
    exact single (Step.finish [] [] [] _ 0 (twoInputTask 0 ⟨5, []⟩) rfl)
  refine ⟨reachable, ?_⟩
  have plansOf : GenuinePlans refusingChecker.executionCacheEntry (· = twoInputPlan) := by
    constructor
    · intro first second firstEq secondEq _
      rw [firstEq, secondEq]
    · intro plan planEq
      simp [planEq, twoInputPlan]
    · intro plan planEq
      rw [planEq]
      rfl
  obtain ⟨-, deferredVerdict, -⟩ := deferred_checkBlock_eq_inline refusingChecker
    (· = twoInputPlan) plansOf [twoInputPlan] (by simp) (by decide) ([] : List Uint256)
    (fun plan _ held => absurd held (List.not_mem_nil)) 2
  have completes : (refusingChecker.checkBlock secondFirstPool [twoInputPlan]
      (⟨[], []⟩ : ScriptCheckState (List Uint256))).isSome = true := by
    decide +kernel
  obtain ⟨⟨verdict, after⟩, completed⟩ := Option.isSome_iff_exists.mp completes
  refine ⟨after, ?_⟩
  rw [completed, (deferredVerdict _ verdict after reachable completed).1]

end CoreBlockScriptChecker

end Champy
