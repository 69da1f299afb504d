import Champy.BlockSpend

/-!
# Spend validation of a segment

A segment is a list of blocks that are validated together against one snapshot of
coins.  `PlanSegmentSpendInputs` walks over all inputs and outputs of the segment:
an input spends an output of the segment that is unspent at that point, or it is
looked up in the snapshot.  `JoinSegmentSpentOutputs` puts the coins in place, and
`ValidateResolvedSegmentBlockSpend` evaluates each block with them.
-/

namespace Champy

open Exec

structure SegmentBlockContext where
  hash : Uint256
  parentHash : Uint256
  height : Int32
  previousMedianTimePast : Int64
  spendOptions : BlockSpendConsensusOptions
  blockSubsidy : CAmount
  deriving DecidableEq, Repr

structure SegmentBlockView where
  context : SegmentBlockContext
  transactions : List CTransaction
  deriving DecidableEq, Repr

structure SegmentCreatedOutput where
  outpoint : COutPoint
  coin : CoinSnapshot
  blockIndex : Nat
  transactionIndex : Nat
  outputIndex : Nat
  previousMedianTimePast : Int64
  deriving DecidableEq, Repr

structure SegmentSpentOutputLookup where
  lookup : BlockSpentOutputLookup
  blockIndex : Nat
  deriving DecidableEq, Repr

structure SegmentCoinSnapshot where
  coin : CoinSnapshot
  previousMedianTimePast : Int64
  deriving DecidableEq, Repr

structure SegmentSpentOutputLookupResult where
  lookup : SegmentSpentOutputLookup
  coin : Option SegmentCoinSnapshot
  deriving DecidableEq, Repr

structure SegmentCreatedOutputLookupResult where
  createdOutput : SegmentCreatedOutput
  existingCoin : Option CoinSnapshot
  deriving DecidableEq, Repr

/-- `SegmentSpendBatchView`: one answer for each outpoint, in order. -/
abbrev SegmentSpendBatchView : Type :=
  List COutPoint → BlockSpendResult (List (Option SegmentCoinSnapshot))

/-- `SegmentSpendBatchViewAdapter`: coins from one view, times from another. -/
def segmentSpendBatchViewAdapter (getCoins : List COutPoint → List (Option CoinSnapshot))
    (sequenceLockTimes : COutPoint → Int32 → Int64) : SegmentSpendBatchView :=
  fun outpoints => do
    let coins := getCoins outpoints
    assertThat (coins.length == outpoints.length)
    pure ((outpoints.zip coins).map fun entry => entry.2.map fun coin =>
      ⟨coin, sequenceLockTimes entry.1 coin.height⟩)

structure SegmentUtxoSnapshotBackend where
  lookupSpentOutputs : List SegmentBlockView → List SegmentSpentOutputLookup →
    BlockSpendResult (List SegmentSpentOutputLookupResult)
  lookupCreatedOutputs : List SegmentBlockView → List SegmentCreatedOutput →
    BlockSpendResult (List SegmentCreatedOutputLookupResult)

inductive SegmentSpentOutputSource
  | external
  | earlierSegmentOutput
  | sameOrLaterSegmentOutput
  deriving DecidableEq, Repr

structure SegmentSpentOutputDependency where
  lookup : SegmentSpentOutputLookup
  createdOutput : SegmentCreatedOutput
  source : SegmentSpentOutputSource
  deriving DecidableEq, Repr

structure SegmentSpendInputPlan where
  createdOutputs : List SegmentCreatedOutput
  externalOverwriteChecks : List SegmentCreatedOutput
  externalLookups : List SegmentSpentOutputLookup
  intraSegmentDependencies : List SegmentSpentOutputDependency
  invalidOrderDependencies : List SegmentSpentOutputDependency
  duplicateSpends : List SegmentSpentOutputLookup
  deriving DecidableEq, Repr

inductive SegmentSpentOutputJoinStatus
  | complete
  | missingOrSpent
  | duplicateSpend
  | invalidSpendOrder
  | backendMismatch
  deriving DecidableEq, Repr

/-- The coins of each input of each transaction of each block. -/
abbrev SegmentInputCoins : Type := List (List (List SegmentCoinSnapshot))

structure SegmentSpentOutputJoin where
  status : SegmentSpentOutputJoinStatus
  failedLookup : Option SegmentSpentOutputLookup
  inputCoinsByBlock : SegmentInputCoins
  deriving DecidableEq, Repr

structure SegmentSpendSummary where
  createdOutputs : List SegmentCreatedOutput
  spentOutputs : List SegmentSpentOutputLookupResult
  deriving DecidableEq, Repr

structure SegmentSpendValidation where
  joinedInputs : SegmentSpentOutputJoin
  blockStages : List BlockSpendStageResult
  summary : SegmentSpendSummary
  deriving DecidableEq, Repr

/-! ## Errors -/

def missingOrSpentSegmentInputOf (tx : CTransaction) : BlockSpendError :=
  ⟨.consensus, none, "bad-txns-inputs-missingorspent",
    "CheckTxInputs: inputs missing/spent in transaction " ++ tx.hash.toHex⟩

def missingOrSpentSegmentInput : BlockSpendError :=
  ⟨.consensus, none, "bad-txns-inputs-missingorspent", "CheckTxInputs: inputs missing/spent"⟩

def invalidSegmentSpend (rejectReason debugMessage : String) : BlockSpendError :=
  ⟨.consensus, none, rejectReason, debugMessage⟩

def segmentBackendMismatch : BlockSpendError :=
  ⟨.validationRuntime, some .systemError, "segment-backend-mismatch",
    "segment spend backend returned results that do not match the requested lookup batch"⟩

/-! ## Lookups -/

/-- The lookup part of one transaction of a block. -/
def segmentLookups (blockIndex : Nat) (tx : CTransaction × Nat) : List SegmentSpentOutputLookup :=
  (transactionLookups tx.1 tx.2).map fun lookup => ⟨lookup, blockIndex⟩

/-- The spendable outputs of one transaction of a block. -/
def segmentOutputs (context : SegmentBlockContext) (blockIndex : Nat) (tx : CTransaction × Nat) :
    List SegmentCreatedOutput :=
  tx.1.vout.zipIdx.filterMap fun output =>
    if isUnspendable output.1.scriptPubKey then none
    else some ⟨outpointAt tx.1.hash output.2, ⟨output.1, context.height, tx.1.isCoinBase⟩,
      blockIndex, tx.2, output.2, context.previousMedianTimePast⟩

def extractBlockCreatedOutputs (block : SegmentBlockView) (blockIndex : Nat) :
    List SegmentCreatedOutput :=
  block.transactions.zipIdx.flatMap (segmentOutputs block.context blockIndex)

variable (blocks : List SegmentBlockView)

def extractSegmentCreatedOutputs : List SegmentCreatedOutput :=
  blocks.zipIdx.flatMap fun block => extractBlockCreatedOutputs block.1 block.2

def lookupSegmentSpentOutputs (lookups : List SegmentSpentOutputLookup)
    (spendState : SegmentSpendBatchView) :
    BlockSpendResult (List SegmentSpentOutputLookupResult) := do
  let coins ← spendState (lookups.map fun lookup => lookup.lookup.outpoint)
  assertThat (coins.length == lookups.length)
  pure ((lookups.zip coins).map fun entry => ⟨entry.1, entry.2⟩)

def lookupSegmentCreatedOutputs (createdOutputs : List SegmentCreatedOutput)
    (spendState : SegmentSpendBatchView) :
    BlockSpendResult (List SegmentCreatedOutputLookupResult) := do
  let coins ← spendState (createdOutputs.map SegmentCreatedOutput.outpoint)
  assertThat (coins.length == createdOutputs.length)
  pure ((createdOutputs.zip coins).map fun entry =>
    ⟨entry.1, entry.2.map SegmentCoinSnapshot.coin⟩)

/-- `SegmentBatchViewUtxoSnapshotBackend`. -/
def SegmentUtxoSnapshotBackend.ofBatchView (spendState : SegmentSpendBatchView) :
    SegmentUtxoSnapshotBackend where
  lookupSpentOutputs _ lookups := lookupSegmentSpentOutputs lookups spendState
  lookupCreatedOutputs _ createdOutputs := lookupSegmentCreatedOutputs createdOutputs spendState

/-! ## The plan -/

def lookupBeforeCreatedOutput (lookup : SegmentSpentOutputLookup)
    (created : SegmentCreatedOutput) : Bool :=
  lookup.blockIndex < created.blockIndex ||
    (lookup.blockIndex == created.blockIndex &&
      lookup.lookup.transactionIndex ≤ created.transactionIndex)

def firstSameOrLaterCreatedOutput (lookup : SegmentSpentOutputLookup)
    (createdOutputs : List SegmentCreatedOutput) : Option SegmentCreatedOutput :=
  createdOutputs.find? fun output =>
    output.outpoint == lookup.lookup.outpoint && lookupBeforeCreatedOutput lookup output

/-- What the walk over the segment keeps. -/
structure SegmentPlanning where
  unspentSegmentOutputs : FinMap COutPoint SegmentCreatedOutput
  modifiedBeforeTransaction : Finset COutPoint
  modifiedInBlock : Finset COutPoint
  plan : SegmentSpendInputPlan

namespace SegmentPlanning

def modified (state : SegmentPlanning) (outpoint : COutPoint) : SegmentPlanning :=
  { state with
    modifiedBeforeTransaction := insert outpoint state.modifiedBeforeTransaction
    modifiedInBlock := insert outpoint state.modifiedInBlock }

/-- An input that spends an unspent output of the segment. -/
def planDependency (state : SegmentPlanning) (lookup : SegmentSpentOutputLookup)
    (output : SegmentCreatedOutput) : SegmentPlanning :=
  { state.modified lookup.lookup.outpoint with
    unspentSegmentOutputs := state.unspentSegmentOutputs.erase lookup.lookup.outpoint
    plan := { state.plan with intraSegmentDependencies :=
      state.plan.intraSegmentDependencies ++ [⟨lookup, output, .earlierSegmentOutput⟩] } }

def planDuplicate (state : SegmentPlanning) (lookup : SegmentSpentOutputLookup) : SegmentPlanning :=
  { state with plan := { state.plan with
      duplicateSpends := state.plan.duplicateSpends ++ [lookup] } }

variable (allCreatedOutputs : List SegmentCreatedOutput)

/-- An input that is looked up.  It is noted if the segment creates its outpoint in
the same transaction or later. -/
def planExternal (state : SegmentPlanning) (lookup : SegmentSpentOutputLookup) : SegmentPlanning :=
  { state.modified lookup.lookup.outpoint with
    plan := { state.plan with
      invalidOrderDependencies := state.plan.invalidOrderDependencies ++
        (firstSameOrLaterCreatedOutput lookup allCreatedOutputs).toList.map fun output =>
          ⟨lookup, output, .sameOrLaterSegmentOutput⟩
      externalLookups := state.plan.externalLookups ++ [lookup] } }

/-- One input.  Its coin is an output of the segment, or has been spent or created
before, or comes from the snapshot. -/
def planLookup (state : SegmentPlanning) (lookup : SegmentSpentOutputLookup) : SegmentPlanning :=
  match state.unspentSegmentOutputs.lookup lookup.lookup.outpoint with
  | some output => state.planDependency lookup output
  | none =>
    if lookup.lookup.outpoint ∈ state.modifiedBeforeTransaction then state.planDuplicate lookup
    else state.planExternal allCreatedOutputs lookup

def planOutput (state : SegmentPlanning) (output : SegmentCreatedOutput) : SegmentPlanning :=
  { state.modified output.outpoint with
    unspentSegmentOutputs := state.unspentSegmentOutputs.insert output.outpoint output }

def planTransaction (context : SegmentBlockContext) (blockIndex : Nat) (state : SegmentPlanning)
    (tx : CTransaction × Nat) : SegmentPlanning :=
  (segmentOutputs context blockIndex tx).foldl planOutput
    ((segmentLookups blockIndex tx).foldl (planLookup allCreatedOutputs) state)

/-- The outputs of a block that have to be looked up for the overwrite check. -/
def planOverwriteChecks (modifiedBeforeBlock : Finset COutPoint) (state : SegmentPlanning)
    (block : SegmentBlockView × Nat) : SegmentPlanning :=
  if block.1.context.spendOptions.checkNoUnspentOutputOverwrite then
    let outputs := state.plan.createdOutputs.filter fun output =>
      output.blockIndex == block.2 && output.outpoint ∉ modifiedBeforeBlock
    { state with plan := { state.plan with
        externalOverwriteChecks := state.plan.externalOverwriteChecks ++ outputs } }
  else state

def beginBlock (modifiedBeforeBlock : Finset COutPoint) (state : SegmentPlanning)
    (block : SegmentBlockView × Nat) : SegmentPlanning :=
  { state.planOverwriteChecks modifiedBeforeBlock block with modifiedInBlock := ∅ }

/-- One block, with the outpoints that the blocks before it modified. -/
def planBlock (state : SegmentPlanning × Finset COutPoint) (block : SegmentBlockView × Nat) :
    SegmentPlanning × Finset COutPoint :=
  let planned := block.1.transactions.zipIdx.foldl
    (planTransaction allCreatedOutputs block.1.context block.2) (state.1.beginBlock state.2 block)
  (planned, state.2 ∪ planned.modifiedInBlock)

def start : SegmentPlanning × Finset COutPoint :=
  (⟨∅, ∅, ∅, ⟨allCreatedOutputs, [], [], [], [], []⟩⟩, ∅)

end SegmentPlanning

def planSegmentSpendInputs : SegmentSpendInputPlan :=
  let allCreatedOutputs := extractSegmentCreatedOutputs blocks
  (blocks.zipIdx.foldl (SegmentPlanning.planBlock allCreatedOutputs)
    (SegmentPlanning.start allCreatedOutputs)).1.plan

/-! ## The overwrite check -/

/-- The unspent outputs of the segment after one transaction. -/
def updateUnspentOutputs (context : SegmentBlockContext) (blockIndex : Nat)
    (unspent : FinMap COutPoint SegmentCreatedOutput) (tx : CTransaction × Nat) :
    FinMap COutPoint SegmentCreatedOutput :=
  (segmentOutputs context blockIndex tx).foldl
    (fun unspent output => unspent.insert output.outpoint output)
    ((segmentLookups blockIndex tx).foldl
      (fun unspent lookup => unspent.erase lookup.lookup.outpoint) unspent)

/-- One block of `CheckNoUnspentIntraSegmentOutputOverwrite`. -/
def checkIntraSegmentBlock (plan : SegmentSpendInputPlan)
    (unspent : FinMap COutPoint SegmentCreatedOutput) (block : SegmentBlockView × Nat) :
    BlockSpendResult (FinMap COutPoint SegmentCreatedOutput) := do
  if block.1.context.spendOptions.checkNoUnspentOutputOverwrite then
    ensure (plan.createdOutputs.all fun output =>
        output.blockIndex != block.2 || (unspent.lookup output.outpoint).isNone)
      (invalidSegmentSpend "bad-txns-BIP30" "tried to overwrite transaction")
  pure (block.1.transactions.zipIdx.foldl (updateUnspentOutputs block.1.context block.2) unspent)

def checkNoUnspentIntraSegmentOutputOverwrite (plan : SegmentSpendInputPlan) :
    BlockSpendResult Unit := do
  let _ ← blocks.zipIdx.foldlM (checkIntraSegmentBlock plan) ∅
  pure ()

def sameCreatedOutput (first second : SegmentCreatedOutput) : Bool :=
  first.outpoint == second.outpoint && first.blockIndex == second.blockIndex &&
    first.transactionIndex == second.transactionIndex && first.outputIndex == second.outputIndex

def checkOverwriteResult
    (entry : SegmentCreatedOutputLookupResult × SegmentCreatedOutput) : BlockSpendResult Unit := do
  ensure (sameCreatedOutput entry.1.createdOutput entry.2) segmentBackendMismatch
  ensure entry.1.existingCoin.isNone
    (invalidSegmentSpend "bad-txns-BIP30" "tried to overwrite transaction")

/-- Look outputs up in the snapshot, where none may be found. -/
def checkNotInSnapshot (checks : List SegmentCreatedOutput)
    (utxoSnapshot : SegmentUtxoSnapshotBackend) : BlockSpendResult Unit :=
  if checks.isEmpty then pure ()
  else do
    let results ← utxoSnapshot.lookupCreatedOutputs blocks checks
    ensure (results.length == checks.length) segmentBackendMismatch
    (results.zip checks).forM checkOverwriteResult

def checkSegmentNoUnspentOutputOverwrite (plan : SegmentSpendInputPlan)
    (utxoSnapshot : SegmentUtxoSnapshotBackend) : BlockSpendResult Unit := do
  checkNoUnspentIntraSegmentOutputOverwrite blocks plan
  ensure (plan.externalOverwriteChecks.all fun output =>
    blocks[output.blockIndex]?.any fun block =>
      block.context.spendOptions.checkNoUnspentOutputOverwrite) segmentBackendMismatch
  checkNotInSnapshot blocks plan.externalOverwriteChecks utxoSnapshot

/-! ## The join -/

def sameLookup (first second : SegmentSpentOutputLookup) : Bool :=
  first.blockIndex == second.blockIndex && first.lookup.outpoint == second.lookup.outpoint &&
    first.lookup.transactionIndex == second.lookup.transactionIndex &&
    first.lookup.inputIndex == second.lookup.inputIndex

def segmentLookupBefore (first second : SegmentSpentOutputLookup) : Bool :=
  first.blockIndex < second.blockIndex ||
    (first.blockIndex == second.blockIndex && lookupBefore first.lookup second.lookup)

abbrev SegmentJoinFailure : Type := SegmentSpentOutputJoinStatus × SegmentSpentOutputLookup

def updateSegmentFailure (status : SegmentSpentOutputJoinStatus)
    (lookup : SegmentSpentOutputLookup) (failure : Option SegmentJoinFailure) :
    Option SegmentJoinFailure :=
  keepFirstFailure segmentLookupBefore status lookup failure

def lookupWithinSegment (lookup : SegmentSpentOutputLookup) : Bool :=
  (blocks[lookup.blockIndex]?.bind fun block =>
    block.transactions[lookup.lookup.transactionIndex]?).any fun tx =>
      !tx.isCoinBase && lookup.lookup.inputIndex < tx.vin.length

def lookupHasInvalidOrderDependency (lookup : SegmentSpentOutputLookup)
    (dependencies : List SegmentSpentOutputDependency) : Bool :=
  dependencies.any fun dependency => sameLookup lookup dependency.lookup

/-- A place that has not been written: a null output at height 0. -/
def SegmentCoinSnapshot.unset : SegmentCoinSnapshot :=
  ⟨⟨⟨-1, []⟩, 0, false⟩, 0⟩

/-- A place for each input of the segment. -/
def emptySegmentInputs : SegmentInputCoins :=
  blocks.map fun block => block.transactions.map fun tx =>
    tx.spentOutpoints.map fun _ => SegmentCoinSnapshot.unset

def setSegmentInput (inputCoins : SegmentInputCoins)
    (lookup : SegmentSpentOutputLookup) (coin : SegmentCoinSnapshot) :
    SegmentInputCoins :=
  inputCoins.modify lookup.blockIndex fun rows =>
    rows.modify lookup.lookup.transactionIndex fun row => row.set lookup.lookup.inputIndex coin

structure PendingSegmentJoin where
  failure : Option SegmentJoinFailure
  inputCoins : SegmentInputCoins

/-- One answer of the snapshot.  An answer to another question ends the join. -/
def joinSegmentExternal (plan : SegmentSpendInputPlan) (pending : PendingSegmentJoin)
    (entry : SegmentSpentOutputLookupResult × SegmentSpentOutputLookup) :
    Except SegmentSpentOutputJoin PendingSegmentJoin :=
  let lookup := entry.1.lookup
  if sameLookup lookup entry.2 && lookupWithinSegment blocks lookup then
    match entry.1.coin with
    | none =>
      let status := if lookupHasInvalidOrderDependency lookup plan.invalidOrderDependencies then
        SegmentSpentOutputJoinStatus.invalidSpendOrder else .missingOrSpent
      .ok { pending with failure := updateSegmentFailure status lookup pending.failure }
    | some coin => .ok { pending with inputCoins := setSegmentInput pending.inputCoins lookup coin }
  else .error ⟨.backendMismatch, some lookup, pending.inputCoins⟩

def joinSegmentDependency (inputCoins : SegmentInputCoins)
    (dependency : SegmentSpentOutputDependency) : SegmentInputCoins :=
  setSegmentInput inputCoins dependency.lookup
    ⟨dependency.createdOutput.coin, dependency.createdOutput.previousMedianTimePast⟩

def joinSegmentSpentOutputsFromExternalLookups
    (externalResults : List SegmentSpentOutputLookupResult) : SegmentSpentOutputJoin :=
  let plan := planSegmentSpendInputs blocks
  if externalResults.length ≠ plan.externalLookups.length then
    ⟨.backendMismatch, none, emptySegmentInputs blocks⟩
  else
    let duplicates := plan.duplicateSpends.foldl
      (fun failure duplicate => updateSegmentFailure .duplicateSpend duplicate failure) none
    match (externalResults.zip plan.externalLookups).foldlM (joinSegmentExternal blocks plan)
        ⟨duplicates, emptySegmentInputs blocks⟩ with
    | .error joined => joined
    | .ok pending =>
      let inputCoins :=
        plan.intraSegmentDependencies.foldl joinSegmentDependency pending.inputCoins
      match pending.failure with
      | none => ⟨.complete, none, inputCoins⟩
      | some failure => ⟨failure.1, some failure.2, inputCoins⟩

def joinSegmentSpentOutputs (utxoSnapshot : SegmentUtxoSnapshotBackend) :
    BlockSpendResult SegmentSpentOutputJoin := do
  let results ← utxoSnapshot.lookupSpentOutputs blocks
    (planSegmentSpendInputs blocks).externalLookups
  pure (joinSegmentSpentOutputsFromExternalLookups blocks results)

/-! ## Validation -/

/-- `SegmentSequenceLockTimeView`: the times of the resolved inputs. -/
def segmentSequenceLockTimes (previousMedianTimePast : Int64)
    (inputs : List (COutPoint × SegmentCoinSnapshot)) : COutPoint → Int32 → Int64 :=
  let times := inputs.foldl (fun times input =>
    FinMap.emplace times input.1 input.2.previousMedianTimePast) ∅
  fun outpoint _ => (times.lookup outpoint).getD previousMedianTimePast

/-- One transaction with its resolved inputs. -/
def stageResolvedTransaction (context : SegmentBlockContext)
    (collection : ScriptCheckPlanCollection) (stage : BlockSpendStageResult)
    (input : CTransaction × List SegmentCoinSnapshot) : BlockSpendResult BlockSpendStageResult := do
  let tx := input.1
  let resolvedInputs := input.2
  ensure (if tx.isCoinBase then resolvedInputs.isEmpty
    else resolvedInputs.length == tx.vin.length) segmentBackendMismatch
  let transactionContext : TransactionSpendContext :=
    ⟨context.height, context.previousMedianTimePast,
      segmentSequenceLockTimes context.previousMedianTimePast
        ((tx.vin.map CTxIn.prevout).zip resolvedInputs)⟩
  let added ← addTransactionToStage transactionContext context.spendOptions collection stage tx
    (resolvedInputs.map SegmentCoinSnapshot.coin)
  pure added.1

/-- The error for a join that is not complete, in the block that is validated. -/
def resolvedJoinError (block : SegmentBlockView) (joined : SegmentSpentOutputJoin)
    (blockIndex : Nat) : BlockSpendResult Unit :=
  match joined.status with
  | .complete => pure ()
  | .backendMismatch => reject segmentBackendMismatch
  | _ =>
    match (joined.failedLookup.filter fun lookup => lookup.blockIndex == blockIndex).bind
      fun lookup => block.transactions[lookup.lookup.transactionIndex]? with
    | some tx => reject (missingOrSpentSegmentInputOf tx)
    | none => reject missingOrSpentSegmentInput

/-- The coinbase may pay the fees and the subsidy. -/
def checkBlockReward (block : SegmentBlockView) (fees : CAmount) : BlockSpendResult Unit := do
  let blockReward ← addInt64 fees block.context.blockSubsidy
  match block.transactions with
  | [] => abort .assertion
  | coinbase :: _ => checkCoinbasePaysNoMoreThan coinbase blockReward

def validateResolvedSegmentBlockSpend (block : SegmentBlockView) (joined : SegmentSpentOutputJoin)
    (blockIndex : Nat) (collection : ScriptCheckPlanCollection) :
    BlockSpendResult BlockSpendStageResult := do
  ensure (block.transactions.head?.any CTransaction.isCoinBase)
    (invalidSegmentSpend "bad-cb-missing" "first transaction is not a coinbase")
  match joined.inputCoinsByBlock[blockIndex]? with
  | none => reject segmentBackendMismatch
  | some inputCoins => do
      resolvedJoinError block joined blockIndex
      ensure (inputCoins.length == block.transactions.length) segmentBackendMismatch
      let stage ← (block.transactions.zip inputCoins).foldlM
        (stageResolvedTransaction block.context collection) BlockSpendStageResult.empty
      checkBlockReward block stage.effects.fees
      pure stage

/-- The summary that `SummarizeSegmentSpend` returns. -/
def segmentSpendSummary (joined : SegmentSpentOutputJoin) : SegmentSpendSummary :=
  ⟨(planSegmentSpendInputs blocks).createdOutputs,
    if joined.status = .complete then
      (blocks.zip joined.inputCoinsByBlock).zipIdx.flatMap fun block =>
        (block.1.1.transactions.zip block.1.2).zipIdx.flatMap fun tx =>
          ((segmentLookups block.2 (tx.1.1, tx.2)).zip tx.1.2).map fun input =>
            ⟨input.1, some input.2⟩
    else []⟩

/-- The number of coins of every transaction is asserted. -/
def summarizeSegmentSpend (joined : SegmentSpentOutputJoin) :
    BlockSpendResult SegmentSpendSummary := do
  if joined.status = .complete then
    assertThat ((blocks.zip joined.inputCoinsByBlock).all fun block =>
      (block.1.transactions.zip block.2).all fun tx =>
        tx.1.isCoinBase || tx.2.length == tx.1.vin.length)
  pure (segmentSpendSummary blocks joined)

/-- The error for a join of a whole segment that is not complete. -/
def segmentJoinError (joined : SegmentSpentOutputJoin) : BlockSpendResult Unit :=
  match joined.status with
  | .complete => pure ()
  | .backendMismatch => reject segmentBackendMismatch
  | _ =>
    match joined.failedLookup with
    | none => abort .assertion
    | some lookup =>
      match blocks[lookup.blockIndex]? with
      | none => reject missingOrSpentSegmentInput
      | some block =>
        match block.transactions[lookup.lookup.transactionIndex]? with
        | none => abort .assertion
        | some tx => reject (missingOrSpentSegmentInputOf tx)

def validateSegmentSpend (utxoSnapshot : SegmentUtxoSnapshotBackend)
    (collection : ScriptCheckPlanCollection) : BlockSpendResult SegmentSpendValidation := do
  checkSegmentNoUnspentOutputOverwrite blocks (planSegmentSpendInputs blocks) utxoSnapshot
  let joined ← joinSegmentSpentOutputs blocks utxoSnapshot
  segmentJoinError blocks joined
  let blockStages ← blocks.zipIdx.mapM fun block =>
    validateResolvedSegmentBlockSpend block.1 joined block.2 collection
  let summary ← summarizeSegmentSpend blocks joined
  pure ⟨joined, blockStages, summary⟩

end Champy
