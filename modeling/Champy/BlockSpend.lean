import Champy.BlockSpentOutputs
import Champy.SequenceLocks

/-!
# Spend validation of a block

Each transaction is evaluated against the coins that the join found for its
inputs: values, coinbase maturity, relative locks, fees and signature operations.
`ValidateAndStageBlockTransactions` evaluates the transactions in order and
stages the coin effects of each one in a workspace.

A workspace is any state with lookups, median times for relative locks, and a
staging step.  The script checker is a value: whether it wants checks, its verdict
on each plan, and its verdict at the end.
-/

namespace Champy

open Exec

structure TransactionSpendContext where
  blockHeight : Int32
  previousMedianTimePast : Int64
  sequenceLockTimes : COutPoint → Int32 → Int64

structure BlockSpendContext where
  blockHeight : Int32
  previousMedianTimePast : Int64
  deriving DecidableEq, Repr

structure BlockSpendConsensusOptions where
  locktimeFlags : Int32
  scriptFlags : ScriptVerifyFlags
  checkNoUnspentOutputOverwrite : Bool
  deriving DecidableEq, Repr

structure BlockSpendAccounting where
  fees : CAmount
  sigopCost : Int64
  deriving DecidableEq, Repr

structure TransactionSpendResult where
  accounting : BlockSpendAccounting
  coinEffects : TransactionCoinEffects
  deriving DecidableEq, Repr

structure TransactionScriptCheckPlan where
  tx : CTransaction
  flags : ScriptVerifyFlags
  spentOutputs : List CTxOut
  deriving DecidableEq, Repr

structure BlockSpendEffects where
  transactionEffects : List TransactionCoinEffects
  fees : CAmount
  inputs : Int32
  sigopCost : Int64
  deriving DecidableEq, Repr

structure BlockSpendStageResult where
  effects : BlockSpendEffects
  scriptChecks : List TransactionScriptCheckPlan
  deriving DecidableEq, Repr

inductive ScriptCheckPlanCollection
  | skip
  | collect
  deriving DecidableEq, Repr

structure BlockScriptChecker where
  wantsChecks : Bool
  check : TransactionScriptCheckPlan → BlockSpendResult Unit
  complete : BlockSpendResult Unit

class SpendWorkspace (W : Type) extends SpendLookupBackend W where
  previousMedianTimePast : W → COutPoint → Int32 → Int64
  stageTransactionEffects : W → TransactionCoinEffects → Nat → BlockSpendResult W

/-! ## Errors -/

/-- The digits after the point: two at least, and no further zeros at the end. -/
def trimFraction (digits : List Char) : List Char :=
  let trimmed := (digits.reverse.dropWhile (· == '0')).reverse
  if trimmed.length < 2 then digits.take 2 else trimmed

def formatConsensusAmount (amount : CAmount) : String :=
  let magnitude := amount.toInt.natAbs
  let remainder := (toString (magnitude % 100000000)).toList
  let padded := List.replicate (8 - remainder.length) '0' ++ remainder
  let formatted := toString (magnitude / 100000000) ++ "." ++ String.ofList (trimFraction padded)
  if amount < 0 then "-" ++ formatted else formatted

def invalidBlockForSpend (rejectReason debugMessage : String) : BlockSpendError :=
  ⟨.consensus, none, rejectReason, debugMessage⟩

variable (tx : CTransaction) (inputCoins : List CoinSnapshot)

def invalidTransactionForBlock (rejectReason debugMessage : String) : BlockSpendError :=
  invalidBlockForSpend rejectReason (debugMessage ++ " in transaction " ++ tx.hash.toHex)

def missingOrSpentInputForBlock : BlockSpendError :=
  invalidTransactionForBlock tx "bad-txns-inputs-missingorspent"
    "CheckTxInputs: inputs missing/spent"

def spendInputValueOutOfRange : BlockSpendError :=
  invalidTransactionForBlock tx "bad-txns-inputvalues-outofrange" ""

def spendLookupBackendMismatch (mismatch : BlockSpentOutputBatchMismatch) : BlockSpendError :=
  ⟨.validationRuntime, some .backendUnavailable, "spend-state-batch-mismatch",
    "spend lookup backend returned " ++ toString mismatch.resultCount ++ " results for " ++
      toString mismatch.requestedCount ++ " requested outpoints"⟩

/-! ## One transaction -/

def addInputValueForBlock (valueIn inputValue : CAmount) : BlockSpendResult CAmount := do
  assertThat (moneyRange valueIn)
  ensure (moneyRange inputValue) (spendInputValueOutOfRange tx)
  let headroom ← subInt64 maxMoney inputValue
  ensure (valueIn ≤ headroom) (spendInputValueOutOfRange tx)
  let total ← addInt64 valueIn inputValue
  assertThat (moneyRange total)
  pure total

/-- A coinbase output may be spent only when it is deep enough. -/
def checkCoinbaseMaturity (spendHeight : Int32) (coin : CoinSnapshot) : BlockSpendResult Unit :=
  if coin.isCoinbase then do
    let depth ← subInt32 spendHeight coin.height
    ensure (coinbaseMaturity ≤ depth)
      (invalidTransactionForBlock tx "bad-txns-premature-spend-of-coinbase"
        ("tried to spend coinbase at depth " ++ toString depth.toInt))
  else pure ()

/-- One round of the input loop of `CheckTransactionInputValuesForBlock`. -/
def addInputCoin (spendHeight : Int32) (valueIn : CAmount) (coin : CoinSnapshot) :
    BlockSpendResult CAmount := do
  checkCoinbaseMaturity tx spendHeight coin
  addInputValueForBlock tx valueIn coin.output.nValue

def checkTransactionInputValuesForBlock (coins : List CoinSnapshot) (spendHeight : Int32) :
    BlockSpendResult CAmount := do
  assertThat (coins.length == tx.vin.length)
  let valueIn ← coins.foldlM (addInputCoin tx spendHeight) 0
  let valueOut ← tx.getValueOut
  ensure (valueOut ≤ valueIn)
    (invalidTransactionForBlock tx "bad-txns-in-belowout"
      ("value in (" ++ formatConsensusAmount valueIn ++ ") < value out (" ++
        formatConsensusAmount valueOut ++ ")"))
  let fee ← subInt64 valueIn valueOut
  ensure (moneyRange fee) (invalidTransactionForBlock tx "bad-txns-fee-outofrange" "")
  pure fee

/-- The height of a coin, and its median time if the input has a relative lock by
time. -/
def sequenceLockInput (context : TransactionSpendContext) (locktimeFlags : Int32)
    (input : CTxIn × CoinSnapshot) : SequenceLockInputContext :=
  let timed := enforceBIP68SequenceLocks tx locktimeFlags && hasRelativeLocktime input.1 &&
    relativeLocktimeIsTime input.1
  ⟨input.2.height, if timed then context.sequenceLockTimes input.1.prevout input.2.height else 0⟩

def buildSequenceLockInputContext (coins : List CoinSnapshot) (context : TransactionSpendContext)
    (locktimeFlags : Int32) : BlockSpendResult (List SequenceLockInputContext) := do
  assertThat (coins.length == tx.vin.length)
  pure ((tx.vin.zip coins).map (sequenceLockInput tx context locktimeFlags))

def checkTransactionInputCoinsForBlock (context : TransactionSpendContext) (locktimeFlags : Int32) :
    BlockSpendResult CAmount := do
  assertThat (!tx.isCoinBase)
  assertThat (inputCoins.length == tx.vin.length)
  let fee ← checkTransactionInputValuesForBlock tx inputCoins context.blockHeight
  let inputs ← buildSequenceLockInputContext tx inputCoins context locktimeFlags
  let sequenceContext : SequenceLockContext :=
    ⟨context.blockHeight, context.previousMedianTimePast, inputs⟩
  let lockPair ← calculateSequenceLocks tx locktimeFlags sequenceContext
  ensure (evaluateSequenceLocks sequenceContext lockPair)
    (invalidBlockForSpend "bad-txns-nonfinal"
      ("contains a non-BIP68-final transaction " ++ tx.hash.toHex))
  pure fee

def addTransactionFeeForBlock (blockFees txFee : CAmount) : BlockSpendResult CAmount := do
  let totalFees ← addInt64 blockFees txFee
  ensure (moneyRange totalFees)
    (invalidBlockForSpend "bad-txns-accumulated-fee-outofrange"
      "accumulated fee in the block out of range")
  pure totalFees

/-- One round of the input loop of `GetTransactionSigOpCostForBlock`.  The count of
a redeem script is an `unsigned int`, the witness count a `size_t`. -/
def addInputSigOpCost (flags : ScriptVerifyFlags) (cost : Int64) (input : CTxIn × CoinSnapshot) :
    BlockSpendResult Int64 := do
  let scriptPubKey := input.2.output.scriptPubKey
  let legacy ←
    if (flags &&& scriptVerifyP2SH) != 0 && isPayToScriptHash scriptPubKey then
      addInt64 cost (Int64.ofNat
        (getScriptHashSigOpCount scriptPubKey input.1.scriptSig *
          UInt32.ofNat witnessScaleFactor).toNat)
    else pure cost
  let witness ← countWitnessSigOps input.1.scriptSig scriptPubKey input.1.scriptWitness flags
  pure (legacy.toUInt64 + UInt64.ofNat witness).toInt64

def getTransactionSigOpCostForBlock (flags : ScriptVerifyFlags) : BlockSpendResult Int64 := do
  let legacy := Int64.ofNat (getLegacySigOpCount tx * UInt32.ofNat witnessScaleFactor).toNat
  if tx.isCoinBase then do
    assertThat inputCoins.isEmpty
    pure legacy
  else do
    assertThat (inputCoins.length == tx.vin.length)
    (tx.vin.zip inputCoins).foldlM (addInputSigOpCost flags) legacy

def addTransactionSigOpCostForBlock (flags : ScriptVerifyFlags) (blockSigopCost : Int64) :
    BlockSpendResult Int64 := do
  let cost ← getTransactionSigOpCostForBlock tx inputCoins flags
  let totalSigopCost ← addInt64 blockSigopCost cost
  ensure (totalSigopCost ≤ maxBlockSigOpsCost)
    (invalidBlockForSpend "bad-blk-sigops" "too many sigops")
  pure totalSigopCost

def buildTransactionScriptCheckPlan (flags : ScriptVerifyFlags) :
    BlockSpendResult TransactionScriptCheckPlan := do
  assertThat (!tx.isCoinBase)
  assertThat (inputCoins.length == tx.vin.length)
  pure ⟨tx, flags, inputCoins.map CoinSnapshot.output⟩

def addFeeOfTransaction (context : TransactionSpendContext) (locktimeFlags : Int32) (fees : CAmount) :
    BlockSpendResult CAmount :=
  if tx.isCoinBase then do
    assertThat inputCoins.isEmpty
    pure fees
  else do
    let fee ← checkTransactionInputCoinsForBlock tx inputCoins context locktimeFlags
    addTransactionFeeForBlock fees fee

def evaluateTransactionSpendForBlock (context : TransactionSpendContext)
    (options : BlockSpendConsensusOptions) (accounting : BlockSpendAccounting) :
    BlockSpendResult TransactionSpendResult := do
  let fees ← addFeeOfTransaction tx inputCoins context options.locktimeFlags accounting.fees
  let sigopCost ← addTransactionSigOpCostForBlock tx inputCoins options.scriptFlags
    accounting.sigopCost
  let coinEffects ← buildTransactionCoinEffectsForBlock tx inputCoins context.blockHeight
  pure ⟨⟨fees, sigopCost⟩, coinEffects⟩

def submitTransactionScriptCheckForBlock (scriptChecker : BlockScriptChecker)
    (flags : ScriptVerifyFlags) : BlockSpendResult Unit :=
  if tx.isCoinBase || !scriptChecker.wantsChecks then pure ()
  else do
    let plan ← buildTransactionScriptCheckPlan tx inputCoins flags
    scriptChecker.check plan

/-- `ValidateTransactionSpendForBlock` for coins that are known. -/
def validateTransactionSpendWithCoins (scriptChecker : BlockScriptChecker)
    (context : TransactionSpendContext) (options : BlockSpendConsensusOptions)
    (accounting : BlockSpendAccounting) : BlockSpendResult TransactionSpendResult := do
  let result ← evaluateTransactionSpendForBlock tx inputCoins context options accounting
  submitTransactionScriptCheckForBlock tx inputCoins scriptChecker options.scriptFlags
  pure result

section Lookups

variable {W : Type} [SpendLookupBackend W]

/-- Look up the coins of some inputs, stopping at the first that is missing. -/
def getInputCoins (tx : CTransaction) : List COutPoint → W →
    BlockSpendResult (List CoinSnapshot × W)
  | [], state => pure ([], state)
  | outpoint :: outpoints, state =>
    let found := SpendLookupBackend.getCoin state outpoint
    match found.1 with
    | none => reject (missingOrSpentInputForBlock tx)
    | some coin => do
        let rest ← getInputCoins tx outpoints found.2
        pure (coin :: rest.1, rest.2)

def getTransactionInputCoinsForBlock (tx : CTransaction) (state : W) :
    BlockSpendResult (List CoinSnapshot × W) :=
  getInputCoins tx (tx.vin.map CTxIn.prevout) state

/-- `ValidateTransactionSpendForBlock` for coins that are looked up. -/
def validateTransactionSpendForBlock (tx : CTransaction) (state : W)
    (scriptChecker : BlockScriptChecker) (context : TransactionSpendContext)
    (options : BlockSpendConsensusOptions) (accounting : BlockSpendAccounting) :
    BlockSpendResult (TransactionSpendResult × W) := do
  let inputCoins ←
    if tx.isCoinBase then pure ([], state) else getTransactionInputCoinsForBlock tx state
  let result ← validateTransactionSpendWithCoins tx inputCoins.1 scriptChecker context options
    accounting
  pure (result, inputCoins.2)

/-- Whether one of the outpoints is unspent. -/
def checkNoCoins : List COutPoint → W → BlockSpendResult W
  | [], state => pure state
  | outpoint :: outpoints, state =>
    let found := SpendLookupBackend.haveCoin state outpoint
    if found.1 then
      reject (invalidBlockForSpend "bad-txns-BIP30" "tried to overwrite transaction")
    else checkNoCoins outpoints found.2

def checkBlockNoUnspentOutputOverwrite (transactions : List CTransaction) (state : W) :
    BlockSpendResult W :=
  checkNoCoins (transactions.flatMap CTransaction.outputOutpoints) state

end Lookups

def checkCoinbasePaysNoMoreThan (coinbase : CTransaction) (maxReward : CAmount) :
    BlockSpendResult Unit := do
  assertThat coinbase.isCoinBase
  let coinbaseValue ← coinbase.getValueOut
  ensure (coinbaseValue ≤ maxReward)
    (invalidBlockForSpend "bad-cb-amount"
      ("coinbase pays too much (actual=" ++ toString coinbaseValue.toInt ++ " vs limit=" ++
        toString maxReward.toInt ++ ")"))

/-! ## The transactions of a block -/

def BlockSpendStageResult.empty : BlockSpendStageResult :=
  ⟨⟨[], 0, 0, 0⟩, []⟩

/-- The number of inputs is an `int`, to which a `size_t` is added. -/
def addInputCount (inputs : Int32) (tx : CTransaction) : Int32 :=
  inputs + Int32.ofNat tx.vin.length

/-- The plan for the scripts of a transaction, if plans are collected. -/
def scriptCheckPlans (collection : ScriptCheckPlanCollection) (tx : CTransaction)
    (inputCoins : List CoinSnapshot) (flags : ScriptVerifyFlags) :
    BlockSpendResult (List TransactionScriptCheckPlan) :=
  if collection = .collect ∧ tx.isCoinBase = false then do
    let plan ← buildTransactionScriptCheckPlan tx inputCoins flags
    pure [plan]
  else pure []

/-- Evaluate a transaction and add it to the stage of its block: its inputs, fees,
signature operations, script plan and coin effects. -/
def addTransactionToStage (context : TransactionSpendContext)
    (options : BlockSpendConsensusOptions) (collection : ScriptCheckPlanCollection)
    (stage : BlockSpendStageResult) (tx : CTransaction) (inputCoins : List CoinSnapshot) :
    BlockSpendResult (BlockSpendStageResult × TransactionCoinEffects) := do
  let effects := stage.effects
  let result ← evaluateTransactionSpendForBlock tx inputCoins context options
    ⟨effects.fees, effects.sigopCost⟩
  let plans ← scriptCheckPlans collection tx inputCoins options.scriptFlags
  pure (⟨⟨effects.transactionEffects ++ [result.coinEffects], result.accounting.fees,
      addInputCount effects.inputs tx, result.accounting.sigopCost⟩,
    stage.scriptChecks ++ plans⟩, result.coinEffects)

def submitBlockScriptChecksForSpendStage (scriptChecks : List TransactionScriptCheckPlan)
    (scriptChecker : BlockScriptChecker) : BlockSpendResult Unit :=
  if scriptChecker.wantsChecks then scriptChecks.forM scriptChecker.check else pure ()

section Stages

variable {W : Type} [SpendWorkspace W]

/-- One round of the loop of `ValidateAndStageBlockTransactions`. -/
def stageTransaction (spendContext : BlockSpendContext) (options : BlockSpendConsensusOptions)
    (collection : ScriptCheckPlanCollection) (state : BlockSpendStageResult × W)
    (input : (CTransaction × List CoinSnapshot) × Nat) :
    BlockSpendResult (BlockSpendStageResult × W) := do
  let context : TransactionSpendContext :=
    ⟨spendContext.blockHeight, spendContext.previousMedianTimePast,
      SpendWorkspace.previousMedianTimePast state.2⟩
  let added ← addTransactionToStage context options collection state.1 input.1.1 input.1.2
  let workspace ← SpendWorkspace.stageTransactionEffects state.2 added.2 input.2
  pure (added.1, workspace)

def joinError (transactions : List CTransaction) (joined : BlockSpentOutputJoin) :
    BlockSpendResult Unit :=
  match joined.status with
  | .complete => pure ()
  | .backendMismatch =>
    match joined.backendMismatch with
    | none => abort .assertion
    | some mismatch => reject (spendLookupBackendMismatch mismatch)
  | _ =>
    match joined.failedLookup.bind fun lookup => transactions[lookup.transactionIndex]? with
    | none => abort .assertion
    | some tx => reject (missingOrSpentInputForBlock tx)

abbrev BlockSpendJoiner (W : Type) : Type :=
  List CTransaction → Int32 → W → BlockSpendResult (BlockSpentOutputJoin × W)

/-- `ValidateAndStageBlockTransactions`, with the plans for the scripts as a
result. -/
def validateAndStageWithPlans (joiner : BlockSpendJoiner W) (transactions : List CTransaction)
    (workspace : W) (spendContext : BlockSpendContext) (options : BlockSpendConsensusOptions)
    (collection : ScriptCheckPlanCollection) : BlockSpendResult (BlockSpendStageResult × W) := do
  assertThat (!transactions.isEmpty)
  let workspace ←
    if options.checkNoUnspentOutputOverwrite then
      checkBlockNoUnspentOutputOverwrite transactions workspace
    else pure workspace
  let joined ← joiner transactions spendContext.blockHeight workspace
  joinError transactions joined.1
  (transactions.zip joined.1.inputCoinsByTransaction).zipIdx.foldlM
    (stageTransaction spendContext options collection) (BlockSpendStageResult.empty, joined.2)

/-- `ValidateAndStageBlockTransactions`, with a script checker. -/
def validateAndStageWithJoiner (joiner : BlockSpendJoiner W) (transactions : List CTransaction)
    (workspace : W) (scriptChecker : BlockScriptChecker) (spendContext : BlockSpendContext)
    (options : BlockSpendConsensusOptions) : BlockSpendResult (BlockSpendEffects × W) := do
  let collection := if scriptChecker.wantsChecks then ScriptCheckPlanCollection.collect else .skip
  let stage ← validateAndStageWithPlans joiner transactions workspace spendContext options
    collection
  submitBlockScriptChecksForSpendStage stage.1.scriptChecks scriptChecker
  pure (stage.1.effects, stage.2)

/-- `ValidateAndStageBlockTransactions`, with the joiner that looks the coins up in
the workspace. -/
def validateAndStageBlockTransactions (transactions : List CTransaction) (workspace : W)
    (scriptChecker : BlockScriptChecker) (spendContext : BlockSpendContext)
    (options : BlockSpendConsensusOptions) : BlockSpendResult (BlockSpendEffects × W) :=
  validateAndStageWithJoiner (joinBlockSpentOutputs getCoins) transactions workspace
    scriptChecker spendContext options

end Stages

end Champy
