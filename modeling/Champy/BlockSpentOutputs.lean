import Champy.FiniteMaps
import Champy.StructuralStage

/-!
# Coin effects and the join of a block's spent outputs

A transaction spends coins and creates coins.  `JoinBlockSpentOutputs` finds the
coins for all inputs of a block at once: inputs that spend an output of the same
block are joined by position, all others are looked up in one batch before
anything of the block is staged.

Lookups may fill caches, so a backend is a state that every lookup returns
again.
-/

namespace Champy

inductive ValidationRuntimeIssue
  | systemError
  | staleWork
  | resourceLimit
  | backendUnavailable
  | cancelled
  | commitConflict
  deriving DecidableEq, Repr

structure BlockSpendError where
  issue : BlockConsensusIssue
  runtimeIssue : Option ValidationRuntimeIssue
  rejectReason : String
  debugMessage : String
  deriving DecidableEq, Repr

abbrev BlockSpendResult (α : Type) : Type := Exec BlockSpendError α

/-! ## Coin effects -/

structure SpentCoinEffect where
  outpoint : COutPoint
  coin : CoinSnapshot
  deriving DecidableEq, Repr

structure CreatedCoinEffect where
  outpoint : COutPoint
  coin : CoinSnapshot
  deriving DecidableEq, Repr

structure TransactionCoinEffects where
  spends : List SpentCoinEffect
  creates : List CreatedCoinEffect
  deriving DecidableEq, Repr

/-- The spendable outputs of a transaction, as the coins they become. -/
def createdCoinEffects (tx : CTransaction) (blockHeight : Int32) : List CreatedCoinEffect :=
  tx.vout.zipIdx.filterMap fun output =>
    if isUnspendable output.1.scriptPubKey then none
    else some ⟨outpointAt tx.hash output.2, ⟨output.1, blockHeight, tx.isCoinBase⟩⟩

def buildTransactionCoinEffectsForBlock (tx : CTransaction) (inputCoins : List CoinSnapshot)
    (blockHeight : Int32) : BlockSpendResult TransactionCoinEffects := do
  let spends ←
    if tx.isCoinBase then do
      Exec.assertThat inputCoins.isEmpty
      pure []
    else do
      Exec.assertThat (inputCoins.length == tx.vin.length)
      pure ((tx.vin.zip inputCoins).map fun input => SpentCoinEffect.mk input.1.prevout input.2)
  pure ⟨spends, createdCoinEffects tx blockHeight⟩

/-! ## Backends -/

class SpendLookupBackend (W : Type) where
  haveCoin : W → COutPoint → Bool × W
  getCoin : W → COutPoint → Option CoinSnapshot × W

/-- `SpendLookupBatchBackend`: a batch of lookups, answered in order. -/
abbrev SpendLookupBatch (W : Type) : Type :=
  W → List COutPoint → List (Option CoinSnapshot) × W

/-- `SpendLookupBatchBackendAdapter`: one lookup after the other. -/
def getCoins {W : Type} [SpendLookupBackend W] : SpendLookupBatch W
  | state, [] => ([], state)
  | state, outpoint :: outpoints =>
    let found := SpendLookupBackend.getCoin state outpoint
    let rest := getCoins found.2 outpoints
    (found.1 :: rest.1, rest.2)

/-! ## Planning the lookups -/

structure BlockSpentOutputLookup where
  outpoint : COutPoint
  transactionIndex : Nat
  inputIndex : Nat
  deriving DecidableEq, Repr

inductive BlockSpentOutputSource
  | external
  | earlierTransaction
  | sameOrLaterTransaction
  deriving DecidableEq, Repr

inductive BlockSpentOutputJoinStatus
  | complete
  | missingOrSpent
  | duplicateSpend
  | invalidSpendOrder
  | backendMismatch
  deriving DecidableEq, Repr

structure BlockSpentOutputBatchMismatch where
  requestedCount : Nat
  resultCount : Nat
  deriving DecidableEq, Repr

structure BlockSpentOutputDependency where
  lookup : BlockSpentOutputLookup
  createdByTransaction : Nat
  source : BlockSpentOutputSource
  deriving DecidableEq, Repr

structure BlockSpentOutputLookupPlan where
  externalLookups : List BlockSpentOutputLookup
  intraBlockDependencies : List BlockSpentOutputDependency
  invalidOrderDependencies : List BlockSpentOutputDependency
  deriving DecidableEq, Repr

structure BlockSpentOutputJoin where
  status : BlockSpentOutputJoinStatus
  failedLookup : Option BlockSpentOutputLookup
  inputCoinsByTransaction : List (List CoinSnapshot)
  backendMismatch : Option BlockSpentOutputBatchMismatch
  deriving DecidableEq, Repr

/-- The lookups for one transaction.  A coinbase has none. -/
def transactionLookups (tx : CTransaction) (transactionIndex : Nat) : List BlockSpentOutputLookup :=
  tx.spentOutpoints.zipIdx.map fun input => ⟨input.1, transactionIndex, input.2⟩

variable (transactions : List CTransaction)

def extractBlockSpentOutputLookups : List BlockSpentOutputLookup :=
  transactions.zipIdx.flatMap fun tx => transactionLookups tx.1 tx.2

def spendableOutpoints (tx : CTransaction) : List COutPoint :=
  tx.vout.zipIdx.filterMap fun output =>
    if isUnspendable output.1.scriptPubKey then none else some (outpointAt tx.hash output.2)

/-- Which transaction creates an outpoint first. -/
def createdByTransaction : FinMap COutPoint Nat :=
  transactions.zipIdx.foldl (fun created tx =>
    (spendableOutpoints tx.1).foldl (fun created outpoint => created.emplace outpoint tx.2)
      created) ∅

def planLookup (created : FinMap COutPoint Nat) (plan : BlockSpentOutputLookupPlan)
    (lookup : BlockSpentOutputLookup) : BlockSpentOutputLookupPlan :=
  match created.lookup lookup.outpoint with
  | none => { plan with externalLookups := plan.externalLookups ++ [lookup] }
  | some creator =>
    if creator < lookup.transactionIndex then
      { plan with intraBlockDependencies := plan.intraBlockDependencies ++
          [⟨lookup, creator, .earlierTransaction⟩] }
    else
      { plan with invalidOrderDependencies := plan.invalidOrderDependencies ++
          [⟨lookup, creator, .sameOrLaterTransaction⟩] }

def planBlockSpentOutputLookups : BlockSpentOutputLookupPlan :=
  (extractBlockSpentOutputLookups transactions).foldl
    (planLookup (createdByTransaction transactions)) ⟨[], [], []⟩

/-- The first lookup whose outpoint is in the set of those before it. -/
def firstDuplicateLookup (seen : List COutPoint) :
    List BlockSpentOutputLookup → Option BlockSpentOutputLookup
  | [] => none
  | lookup :: lookups =>
    if seen.contains lookup.outpoint then some lookup
    else firstDuplicateLookup (lookup.outpoint :: seen) lookups

def firstDuplicateSpend : Option BlockSpentOutputLookup :=
  firstDuplicateLookup [] (extractBlockSpentOutputLookups transactions)

def lookupBefore (first second : BlockSpentOutputLookup) : Bool :=
  first.transactionIndex < second.transactionIndex ||
    (first.transactionIndex == second.transactionIndex && first.inputIndex < second.inputIndex)

def keepFirstFailure {S L : Type} (before : L → L → Bool) (status : S) (lookup : L)
    (failure : Option (S × L)) : Option (S × L) :=
  match failure with
  | none => some (status, lookup)
  | some pending => if before lookup pending.2 then some (status, lookup) else some pending

def updateFailure (status : BlockSpentOutputJoinStatus) (lookup : BlockSpentOutputLookup)
    (failure : Option (BlockSpentOutputJoinStatus × BlockSpentOutputLookup)) :
    Option (BlockSpentOutputJoinStatus × BlockSpentOutputLookup) :=
  keepFirstFailure lookupBefore status lookup failure

/-! ## The join -/

def setInputCoin (inputCoins : List (List (Option CoinSnapshot))) (lookup : BlockSpentOutputLookup)
    (coin : CoinSnapshot) : List (List (Option CoinSnapshot)) :=
  inputCoins.modify lookup.transactionIndex fun row => row.set lookup.inputIndex (some coin)

/-- What the join has so far: the first failure and the coins found. -/
structure PendingJoin where
  failure : Option (BlockSpentOutputJoinStatus × BlockSpentOutputLookup)
  inputCoins : List (List (Option CoinSnapshot))

def joinExternal (pending : PendingJoin) (result : BlockSpentOutputLookup × Option CoinSnapshot) :
    PendingJoin :=
  match result.2 with
  | none => { pending with failure := updateFailure .missingOrSpent result.1 pending.failure }
  | some coin => { pending with inputCoins := setInputCoin pending.inputCoins result.1 coin }

/-- The coin that an input takes from an earlier transaction of the block. -/
def dependencyCoin (blockHeight : Int32) (dependency : BlockSpentOutputDependency) :
    BlockSpendResult CoinSnapshot :=
  match transactions[dependency.createdByTransaction]? with
  | none => Exec.abort .assertion
  | some created =>
    match created.vout[dependency.lookup.outpoint.n.toNat]? with
    | none => Exec.abort .assertion
    | some txout => pure ⟨txout, blockHeight, created.isCoinBase⟩

def joinDependency (blockHeight : Int32) (pending : PendingJoin)
    (dependency : BlockSpentOutputDependency) : BlockSpendResult PendingJoin := do
  let coin ← dependencyCoin transactions blockHeight dependency
  pure { pending with inputCoins := setInputCoin pending.inputCoins dependency.lookup coin }

def requireInputCoin (coin : Option CoinSnapshot) : BlockSpendResult CoinSnapshot :=
  match coin with
  | some coin => pure coin
  | none => Exec.abort .assertion

def failedJoin (failure : BlockSpentOutputJoinStatus × BlockSpentOutputLookup) :
    BlockSpentOutputJoin :=
  ⟨failure.1, some failure.2, transactions.map fun _ => [], none⟩

/-- A row for each transaction with a place for each of its inputs. -/
def emptyInputCoins : List (List (Option CoinSnapshot)) :=
  transactions.map fun tx => tx.spentOutpoints.map fun _ => none

/-- The failures that show before any lookup. -/
def planFailure (plan : BlockSpentOutputLookupPlan) :
    Option (BlockSpentOutputJoinStatus × BlockSpentOutputLookup) :=
  let duplicate := (firstDuplicateSpend transactions).elim none fun lookup =>
    updateFailure .duplicateSpend lookup none
  plan.invalidOrderDependencies.head?.elim duplicate fun dependency =>
    updateFailure .invalidSpendOrder dependency.lookup duplicate

def joinBlockSpentOutputs {W : Type} (lookupCoins : SpendLookupBatch W)
    (transactions : List CTransaction) (blockHeight : Int32) (state : W) :
    BlockSpendResult (BlockSpentOutputJoin × W) := do
  let plan := planBlockSpentOutputLookups transactions
  match planFailure transactions plan with
  | some failure => pure (failedJoin transactions failure, state)
  | none =>
    let answer := lookupCoins state (plan.externalLookups.map BlockSpentOutputLookup.outpoint)
    let coins := answer.1
    if coins.length ≠ plan.externalLookups.length then
      pure (⟨.backendMismatch, none, transactions.map fun _ => [],
        some ⟨plan.externalLookups.length, coins.length⟩⟩, answer.2)
    else do
      let looked := (plan.externalLookups.zip coins).foldl joinExternal
        ⟨none, emptyInputCoins transactions⟩
      let joined ← plan.intraBlockDependencies.foldlM (joinDependency transactions blockHeight)
        looked
      match joined.failure with
      | some failure => pure (failedJoin transactions failure, answer.2)
      | none => do
          let inputCoins ← joined.inputCoins.mapM fun row => row.mapM requireInputCoin
          pure (⟨.complete, none, inputCoins, none⟩, answer.2)

end Champy
