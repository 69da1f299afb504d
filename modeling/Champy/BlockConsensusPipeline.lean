import Champy.BlockEvaluation
import Champy.SnapshotSpendLaws

/-!
# The spend stage of the block pipeline

After the transactions of a block are validated and staged, the coinbase may pay the
fees and the subsidy.  Over a snapshot of coins the effects are then committed.  The
context of a block carries what the three steps need, and a chain of blocks is run one
after the other.
-/

namespace Champy

structure BlockConsensusContext where
  spend : BlockSpendContext
  commit : BlockCommitContext
  blockSubsidy : CAmount
  deriving DecidableEq, Repr

def checkCoinbaseReward (transactions : List CTransaction) (blockSubsidy : CAmount)
    (effects : BlockSpendEffects) : BlockSpendResult Unit := do
  let blockReward ← addInt64 effects.fees blockSubsidy
  match transactions with
  | [] => Exec.abort .assertion
  | coinbase :: _ => checkCoinbasePaysNoMoreThan coinbase blockReward

/-- `CompleteSpendStage`.  The script checker is completed also after an error, which
then stands. -/
def completeSpendStage (transactions : List CTransaction) (blockSubsidy : CAmount)
    (spendEffects : BlockSpendResult BlockSpendEffects) (scriptChecker : BlockScriptChecker) :
    BlockSpendResult BlockSpendEffects :=
  let rewarded := spendEffects >>= fun effects =>
    checkCoinbaseReward transactions blockSubsidy effects >>= fun _ => pure effects
  match rewarded with
  | .error (.fault fault) => .error (.fault fault)
  | .error (.reject error) =>
    match scriptChecker.complete with
    | .error (.fault fault) => .error (.fault fault)
    | _ => Exec.reject error
  | .ok effects => scriptChecker.complete >>= fun _ => pure effects

/-- Why a block of a run was not connected. -/
inductive BlockRunError
  | spend (error : BlockSpendError)
  | commit (error : BlockCommitError)
  deriving DecidableEq, Repr

namespace SnapshotSpendState

/-- `BeginBlockSpend`, `ValidateAndStageBlockTransactions`, `CheckCoinbaseReward` and
`CommitSpendState` for one block. -/
def connectBlock (scriptChecker : BlockScriptChecker) (options : BlockSpendConsensusOptions)
    (state : SnapshotSpendState) (context : BlockConsensusContext)
    (transactions : List CTransaction) :
    Exec BlockRunError (BlockSpendEffects × SnapshotSpendState) := do
  let staged ← Exec.mapReject .spend (validateAndStageBlockTransactions transactions
    (state.beginBlockSpend context.spend) scriptChecker context.spend options)
  Exec.mapReject .spend (checkCoinbaseReward transactions context.blockSubsidy staged.1)
  let committed ← Exec.mapReject .commit (state.commitSpendState context.commit staged.1)
  pure (staged.1, committed)

theorem connectBlock_eq_ok {checker : BlockScriptChecker}
    {options : BlockSpendConsensusOptions} {state final : SnapshotSpendState}
    {ctx : BlockConsensusContext} {txs : List CTransaction}
    {effects : BlockSpendEffects} :
    connectBlock checker options state ctx txs = .ok (effects, final) ↔
      (∃ staged, validateAndStageBlockTransactions txs
          (state.beginBlockSpend ctx.spend) checker ctx.spend options = .ok (effects, staged)) ∧
        checkCoinbaseReward txs ctx.blockSubsidy effects = .ok () ∧
        state.commitSpendState ctx.commit effects = .ok final := by
  rw [connectBlock]
  simp only [Exec.bind_eq_ok, Exec.mapReject_eq_ok]
  constructor
  · rintro ⟨⟨effects', staged⟩, stages, ⟨⟩, rewarded, committed, commits, ret⟩
    cases ret
    exact ⟨⟨staged, stages⟩, rewarded, commits⟩
  · rintro ⟨⟨staged, stages⟩, rewarded, commits⟩
    exact ⟨(effects, staged), stages, (), rewarded, final, commits, rfl⟩

end SnapshotSpendState

end Champy
