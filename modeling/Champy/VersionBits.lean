import Champy.BlockTree
import Champy.CheckedExecution
import Champy.FiniteMaps
import Champy.MeasuredLoops

/-!
# Deployment states

`GetStateFor` of `AbstractThresholdConditionChecker`.  The state after a block is that of the
last block of the period before, so the function first goes back to it.  It then walks back
one period after the other to a block whose state is known, and forward again from there.  The
cache keeps the state of every period's end that was computed, whatever chain it is on.

`deploymentState` is the state machine itself, run from the genesis block along one chain.
-/

namespace Champy

inductive ThresholdState
  | defined
  | started
  | lockedIn
  | active
  | failed
  deriving DecidableEq, Repr

/-- The states that a deployment can still have. -/
def ThresholdState.mayBecome : ThresholdState → ThresholdState → Bool
  | .defined, _ => true
  | .started, next => next != .defined
  | .lockedIn, next => next == .lockedIn || next == .active
  | state, next => next == state

/-- The virtual functions of `AbstractThresholdConditionChecker`.  A period has a block. -/
structure ThresholdConditionChecker (Block : Type) where
  condition : Block → Bool
  beginTime : Int64
  endTime : Int64
  minActivationHeight : Int32
  period : Int32
  threshold : Int32
  one_le_period : 1 ≤ period.toInt

/-- The null pointer is `none`. -/
abbrev ThresholdConditionCache (Block : Type) : Type := FinMap (Option Block) ThresholdState

def alwaysActive : Int64 := -1

def neverActive : Int64 := -2

namespace ThresholdConditionChecker

variable {Block : Type} (tree : BlockTree Block) (checker : ThresholdConditionChecker Block)

/-- `GetAncestor(nHeight - ((nHeight + 1) % nPeriod))`. -/
def periodEnd : Option Block → Exec Empty (Option Block)
  | none => pure none
  | some block => do
      let next ← checkedInt32 (tree.nHeight block + 1)
      pure (tree.getAncestor block (tree.nHeight block - next.toInt.tmod checker.period.toInt))

/-- `GetAncestor(nHeight - nPeriod)`.  Both are not negative, so the difference is an `int`. -/
def previousPeriodEnd (block : Block) : Option Block :=
  tree.getAncestor block (tree.nHeight block - checker.period.toInt)

/-- One more than the height, and zero for the null pointer. -/
def heightAbove (tree : BlockTree Block) : Option Block → Nat
  | none => 0
  | some block => tree.nHeight block + 1

theorem heightAbove_previousPeriodEnd (block : Block) :
    heightAbove tree (checker.previousPeriodEnd tree block) < tree.nHeight block + 1 := by
  have pos := checker.one_le_period
  cases previous : checker.previousPeriodEnd tree block with
  | none => exact Nat.succ_pos _
  | some ancestor =>
    have height := BlockTree.nHeight_getAncestor previous
    rw [heightAbove]
    omega

/-- The variables of the walk backwards; the block pushed last comes first. -/
structure WalkState (Block : Type) where
  pindexPrev : Option Block
  vToCompute : List Block
  cache : ThresholdConditionCache Block

variable [DecidableEq Block]

def walkRound (walk : WalkState Block) : Exec Empty (WalkState Block ⊕ WalkState Block) :=
  if walk.pindexPrev ∈ walk.cache then .ok (.inl walk)
  else match walk.pindexPrev with
    | none => .ok (.inl { walk with cache := walk.cache.insert none .defined })
    | some block =>
      if tree.getMedianTimePast block < checker.beginTime.toInt then
        .ok (.inl { walk with cache := walk.cache.insert (some block) .defined })
      else .ok (.inr ⟨checker.previousPeriodEnd tree block, block :: walk.vToCompute, walk.cache⟩)

def walkLoop : MeasuredLoop (WalkState Block) (Failure Empty) (WalkState Block) where
  round := checker.walkRound tree
  measure walk := heightAbove tree walk.pindexPrev
  decreases := by
    intro walk next ran
    rw [walkRound] at ran
    split at ran
    · cases ran
    cases current : walk.pindexPrev with
    | none =>
      rw [current] at ran
      cases ran
    | some block =>
      rw [current] at ran
      dsimp only at ran
      split at ran
      · cases ran
      · cases ran
        exact heightAbove_previousPeriodEnd tree checker block

/-- The loop that counts the blocks of a period for which the condition holds. -/
def countCondition : Nat → Option Block → Exec Empty Nat
  | 0, _ => pure 0
  | _ + 1, none => Exec.abort .nullPointer
  | blocks + 1, some block => do
      let earlier ← countCondition blocks (tree.pprev block)
      pure (earlier + if checker.condition block then 1 else 0)

def stateNext (state : ThresholdState) (pindexPrev : Block) : Exec Empty ThresholdState :=
  match state with
  | .defined =>
    pure (if tree.getMedianTimePast pindexPrev ≥ checker.beginTime.toInt then .started
      else .defined)
  | .started => do
      let count ← checker.countCondition tree checker.period.toInt.toNat (some pindexPrev)
      pure (if (count : Int) ≥ checker.threshold.toInt then .lockedIn
        else if tree.getMedianTimePast pindexPrev ≥ checker.endTime.toInt then .failed
        else .started)
  | .lockedIn => do
      let next ← checkedInt32 (tree.nHeight pindexPrev + 1)
      pure (if next ≥ checker.minActivationHeight then .active else .lockedIn)
  | .failed => pure .failed
  | .active => pure .active

def forwardRound (known : ThresholdState × ThresholdConditionCache Block) (pindexPrev : Block) :
    Exec Empty (ThresholdState × ThresholdConditionCache Block) := do
  let state ← checker.stateNext tree known.1 pindexPrev
  pure (state, known.2.insert (some pindexPrev) state)

def getStateFor (pindexPrev : Option Block) (cache : ThresholdConditionCache Block) :
    Exec Empty (ThresholdState × ThresholdConditionCache Block) :=
  if checker.beginTime = alwaysActive then pure (.active, cache)
  else if checker.beginTime = neverActive then pure (.failed, cache)
  else do
    let pindexPrev ← checker.periodEnd tree pindexPrev
    let walk ← (checker.walkLoop tree).run ⟨pindexPrev, [], cache⟩
    match walk.cache.lookup walk.pindexPrev with
    | none => Exec.abort .assertion
    | some state => walk.vToCompute.foldlM (checker.forwardRound tree) (state, walk.cache)

/-- The answers to queries that share a cache. -/
def getStatesFor : List (Option Block) → ThresholdConditionCache Block →
    Exec Empty (List ThresholdState)
  | [], _ => pure []
  | pindexPrev :: queries, cache => do
      let (state, cache) ← checker.getStateFor tree pindexPrev cache
      let states ← getStatesFor queries cache
      pure (state :: states)

/-! ## The state machine -/

/-- How many of the last blocks of a chain signal. -/
def signalling : Nat → Option Block → Nat
  | 0, _ => 0
  | _ + 1, none => 0
  | blocks + 1, some block =>
    signalling blocks (tree.pprev block) + if checker.condition block then 1 else 0

/-- The rule at the last block of a period. -/
def transition (state : ThresholdState) (last : Block) : ThresholdState :=
  match state with
  | .defined =>
    if checker.beginTime.toInt ≤ tree.getMedianTimePast last then .started else .defined
  | .started =>
    if checker.threshold.toInt ≤
        (checker.signalling tree checker.period.toInt.toNat (some last) : Nat) then .lockedIn
    else if checker.endTime.toInt ≤ tree.getMedianTimePast last then .failed
    else .started
  | .lockedIn =>
    if checker.minActivationHeight.toInt ≤ tree.nHeight last + 1 then .active else .lockedIn
  | .failed => .failed
  | .active => .active

/-- The state after the first periods of a chain. -/
def stateAfter (block : Block) : Nat → ThresholdState
  | 0 => .defined
  | periods + 1 =>
    match tree.getAncestor block ((periods + 1) * checker.period.toInt - 1) with
    | none => stateAfter block periods
    | some last => checker.transition tree (stateAfter block periods) last

/-- The state of the block that comes after a block, or of the genesis block. -/
def deploymentState : Option Block → ThresholdState
  | none => .defined
  | some block =>
    checker.stateAfter tree block ((tree.nHeight block + 1) / checker.period.toInt.toNat)

/-- The two special begin times fix the state. -/
def expectedState (pindexPrev : Option Block) : ThresholdState :=
  if checker.beginTime = alwaysActive then .active
  else if checker.beginTime = neverActive then .failed
  else checker.deploymentState tree pindexPrev

end ThresholdConditionChecker

end Champy
