import Champy.BlockSpend

/-!
# The snapshot spend state

`SnapshotSpendState` holds coins in a map, and the median times of some of them
in a second map.  Its workspace stages the effects of each transaction on a copy,
and `CommitSpendState` applies the effects of a whole block, checking each spent
coin against the recorded one.  Neither changes anything when it fails.
-/

namespace Champy

inductive BlockCommitFailureState
  | unchanged
  | tainted
  deriving DecidableEq, Repr

structure BlockCommitError where
  runtimeIssue : Option ValidationRuntimeIssue
  failureState : BlockCommitFailureState
  rejectReason : String
  deriving DecidableEq, Repr

structure BlockCommitContext where
  newBestBlock : Uint256
  blockHeight : Int32
  previousMedianTimePast : Int64
  deriving DecidableEq, Repr

abbrev BlockCommitResult (α : Type) : Type := Exec BlockCommitError α

/-- Coins, and times for some of them.  Only coins that are there have a time. -/
structure SnapshotSpendState where
  coins : FinMap COutPoint CoinSnapshot
  times : FinMap COutPoint Int64
  timed : ∀ outpoint, times.lookup outpoint ≠ none → coins.lookup outpoint ≠ none

namespace SnapshotSpendState

def empty : SnapshotSpendState :=
  ⟨∅, ∅, by simp⟩

/-- `AddCoin` without a time. -/
def addCoin (state : SnapshotSpendState) (outpoint : COutPoint) (coin : CoinSnapshot) :
    SnapshotSpendState where
  coins := state.coins.insert outpoint coin
  times := state.times.erase outpoint
  timed := by
    intro other present
    by_cases same : other = outpoint
    · subst same
      simp
    · rw [Finmap.lookup_erase_ne same] at present
      rw [Finmap.lookup_insert_of_ne _ same]
      exact state.timed other present

/-- `AddCoin` with a time. -/
def addTimedCoin (state : SnapshotSpendState) (outpoint : COutPoint) (coin : CoinSnapshot)
    (previousMedianTimePast : Int64) : SnapshotSpendState where
  coins := state.coins.insert outpoint coin
  times := state.times.insert outpoint previousMedianTimePast
  timed := by
    intro other present
    by_cases same : other = outpoint
    · subst same
      simp
    · rw [Finmap.lookup_insert_of_ne _ same] at present
      rw [Finmap.lookup_insert_of_ne _ same]
      exact state.timed other present

def eraseCoin (state : SnapshotSpendState) (outpoint : COutPoint) : SnapshotSpendState where
  coins := state.coins.erase outpoint
  times := state.times.erase outpoint
  timed := by
    intro other present
    by_cases same : other = outpoint
    · subst same
      simp at present
    · rw [Finmap.lookup_erase_ne same] at present
      rw [Finmap.lookup_erase_ne same]
      exact state.timed other present

/-- Insert a coin and leave the times alone. -/
def insertCoin (state : SnapshotSpendState) (outpoint : COutPoint) (coin : CoinSnapshot) :
    SnapshotSpendState where
  coins := state.coins.insert outpoint coin
  times := state.times
  timed := by
    intro other present
    by_cases same : other = outpoint
    · subst same
      simp
    · rw [Finmap.lookup_insert_of_ne _ same]
      exact state.timed other present

end SnapshotSpendState

/-- The two maps of a workspace, and the time of coins that have none of their own. -/
structure SnapshotSpendWorkspace where
  staged : SnapshotSpendState
  previousMedianTimePast : Int64

def snapshotSpendStateError (rejectReason debugMessage : String) : BlockSpendError :=
  ⟨.consensus, none, rejectReason, debugMessage⟩

def snapshotSpendCommitError (rejectReason : String) : BlockCommitError :=
  ⟨some .commitConflict, .unchanged, rejectReason⟩

namespace SnapshotSpendState

variable (state : SnapshotSpendState)

/-- One round of the spend loop of the workspace. -/
def stageSpend (spend : SpentCoinEffect) : BlockSpendResult SnapshotSpendState :=
  match state.coins.lookup spend.outpoint with
  | none => Exec.reject (snapshotSpendStateError "bad-txns-inputs-missingorspent"
      "SnapshotSpendWorkspace: staged spend missing coin")
  | some _ => pure (state.eraseCoin spend.outpoint)

def stageCreate (create : CreatedCoinEffect) : BlockSpendResult SnapshotSpendState :=
  match state.coins.lookup create.outpoint with
  | some _ => Exec.reject (snapshotSpendStateError "bad-txns-BIP30"
      "SnapshotSpendWorkspace: staged create overwrote unspent coin")
  | none => pure (state.insertCoin create.outpoint create.coin)

def stageEffects (effects : TransactionCoinEffects) : BlockSpendResult SnapshotSpendState := do
  let spent ← effects.spends.foldlM stageSpend state
  effects.creates.foldlM stageCreate spent

/-- `BeginBlockSpend`, which never fails. -/
def beginBlockSpend (context : BlockSpendContext) : SnapshotSpendWorkspace :=
  ⟨state, context.previousMedianTimePast⟩

/-- One round of the spend loop of `CommitSpendState`. -/
def commitSpend (spend : SpentCoinEffect) : BlockCommitResult SnapshotSpendState :=
  match state.coins.lookup spend.outpoint with
  | none => Exec.reject (snapshotSpendCommitError "snapshot-commit-missing-spend")
  | some coin =>
    if coin = spend.coin then pure (state.eraseCoin spend.outpoint)
    else Exec.reject (snapshotSpendCommitError "snapshot-commit-spend-mismatch")

def commitCreate (context : BlockCommitContext) (state : SnapshotSpendState)
    (create : CreatedCoinEffect) : BlockCommitResult SnapshotSpendState :=
  if create.coin.height = context.blockHeight then
    match state.coins.lookup create.outpoint with
    | some _ => Exec.reject (snapshotSpendCommitError "snapshot-commit-duplicate-create")
    | none =>
      pure (state.addTimedCoin create.outpoint create.coin context.previousMedianTimePast)
  else Exec.reject (snapshotSpendCommitError "snapshot-commit-create-height-mismatch")

def commitTransaction (context : BlockCommitContext) (state : SnapshotSpendState)
    (effects : TransactionCoinEffects) : BlockCommitResult SnapshotSpendState := do
  let spent ← effects.spends.foldlM commitSpend state
  effects.creates.foldlM (commitCreate context) spent

def commitSpendState (context : BlockCommitContext) (effects : BlockSpendEffects) :
    BlockCommitResult SnapshotSpendState :=
  effects.transactionEffects.foldlM (commitTransaction context) state

/-- A snapshot with the coin that the sample spend takes, and its time. -/
def sampleFunded : SnapshotSpendState :=
  empty.addTimedCoin ⟨9, 0⟩ ⟨⟨10, [0x51]⟩, 1, false⟩ 0

end SnapshotSpendState

instance : SpendWorkspace SnapshotSpendWorkspace where
  haveCoin workspace outpoint :=
    ((workspace.staged.coins.lookup outpoint).isSome, workspace)
  getCoin workspace outpoint := (workspace.staged.coins.lookup outpoint, workspace)
  previousMedianTimePast workspace outpoint _ :=
    (workspace.staged.times.lookup outpoint).getD workspace.previousMedianTimePast
  stageTransactionEffects workspace effects _ := do
    let staged ← workspace.staged.stageEffects effects
    pure { workspace with staged := staged }

end Champy
