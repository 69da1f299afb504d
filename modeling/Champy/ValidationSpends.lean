import Champy.CoreSerialization
import Champy.FiniteMaps
import Champy.SequenceLocks
import Champy.ValidationBlocks

/-!
# Spend rules of the value library

A coin source answers a lookup with a coin, with a coin that is missing or spent, or with a
failure; a source can also throw.  `assess_block_spends` reads coins only through these
lookups and through a tracker of the outputs that the block itself creates.  The script
interpreter of the consensus library is a parameter: for each input it accepts, rejects or
throws.

Counts and sizes are natural numbers; no block holds enough data for them to wrap around.
-/

namespace Champy

namespace Validation

open Protocol

/-! ## Coin lookups -/

inductive CoinLookupFailure
  | unavailable
  | malformedStoredData
  | interrupted
  | ioFailure
  deriving DecidableEq, Repr

/-- What a coin source does when it is asked: it returns a `coin_lookup_result` or throws. -/
inductive CoinLookup
  | found (value : Coin)
  | missing
  | spent
  | failed (failure : CoinLookupFailure)
  | throws (exhausted : Bool)
  deriving DecidableEq, Repr

/-- A `fallible_coin_source`. -/
abbrev CoinSource : Type := COutPoint → CoinLookup

def coinLookupError : CoinLookupFailure → OperationError
  | .unavailable => ⟨.dataUnavailable, "coin lookup data is unavailable"⟩
  | .malformedStoredData => ⟨.malformedStoredData, "stored coin data is malformed"⟩
  | .interrupted => ⟨.interruption, "coin lookup interrupted"⟩
  | .ioFailure => ⟨.ioRead, "coin lookup read failed"⟩

def lookupCoin (coins : CoinSource) (point : COutPoint) : VerifyResult (Option Coin) :=
  match coins point with
  | .found value => pure (some value)
  | .missing => pure none
  | .spent => pure none
  | .failed failure => Exec.reject (.failed (coinLookupError failure))
  | .throws true => Exec.reject (.failed ⟨.resourceExhaustion, "coin index lookup exhausted resources"⟩)
  | .throws false => Exec.reject (.failed ⟨.callbackFailure, "coin index lookup threw an exception"⟩)

/-! ## Contexts -/

structure LocktimeFlags where
  mask : UInt32 := 0
  deriving DecidableEq, Repr

def LocktimeFlags.verifySequence (flags : LocktimeFlags) : Bool :=
  flags.mask &&& 1 != 0

structure SpendContext where
  height : Int32
  previousMedianTimePast : Int64
  limits : TransactionLimits := {}
  locktime : LocktimeFlags := {}
  coinbaseMaturity : Int32 := 100
  deriving DecidableEq, Repr

namespace VerificationFlags

def dersig : ScriptVerifyFlags := (1 : UInt64) <<< 2

def nulldummy : ScriptVerifyFlags := (1 : UInt64) <<< 4

def checklocktimeverify : ScriptVerifyFlags := (1 : UInt64) <<< 9

def checksequenceverify : ScriptVerifyFlags := (1 : UInt64) <<< 10

def taproot : ScriptVerifyFlags := (1 : UInt64) <<< 17

def knownMask : ScriptVerifyFlags :=
  scriptVerifyP2SH ||| dersig ||| nulldummy ||| checklocktimeverify ||| checksequenceverify |||
    scriptVerifyWitness ||| taproot

end VerificationFlags

/-- `verification_flags`: masks without unknown flags. -/
structure VerificationFlags where
  mask : ScriptVerifyFlags
  known : mask &&& ~~~VerificationFlags.knownMask = 0
  deriving DecidableEq, Repr

def VerificationFlags.none : VerificationFlags := ⟨0, by decide⟩

structure ScriptContext where
  flags : VerificationFlags
  deriving DecidableEq, Repr

structure DeploymentState where
  enforceBip30 : Bool := false
  deriving DecidableEq, Repr

structure BlockSpendContext where
  localContext : BlockLocalContext := {}
  spend : SpendContext
  scripts : ScriptContext
  deployments : DeploymentState := {}
  subsidy : Int64
  maxSigopCost : Nat := 80000
  deriving DecidableEq, Repr

/-! ## Transactions -/

def inMoneyRange (value maxMoney : Int64) : Bool :=
  0 ≤ value && value ≤ maxMoney

/-- `sequence_locks_satisfied`, of the parts that it reads. -/
def sequenceLocksSatisfied (tx : Transaction) (context : SpendContext) (inputCoins : List Coin) :
    VerifyResult Bool :=
  Bitcoin.sequenceLocksSatisfied ⟨tx.version, tx.inputs.map fun input => ⟨input.sequence⟩⟩
    ⟨context.height, context.previousMedianTimePast, context.locktime.verifySequence⟩
    (inputCoins.map fun coin => ⟨coin.height, coin.previousMedianTimePast⟩)

/-- One round of the loop over the input coins. -/
def addInputCoin (context : SpendContext) (inputSum : Int64) (coin : Coin) :
    VerifyResult Int64 := do
  require (!(coin.coinbase &&
      decide (context.height.toInt - coin.height.toInt < context.coinbaseMaturity.toInt)))
    .s09CoinbaseMaturity "coinbase input is not mature"
  require (inMoneyRange coin.output.value context.limits.maxMoney) .s06InputValueAndFeeRange
    "transaction input value is outside money range"
  let room ← subInt64 context.limits.maxMoney coin.output.value
  require (inputSum ≤ room) .s06InputValueAndFeeRange "transaction input sum exceeds maximum money"
  addInt64 inputSum coin.output.value

def assessTransactionSpendsWithCoins (tx : Transaction) (facts : TransactionFacts)
    (context : SpendContext) (inputCoins : List Coin) : VerifyResult SpendFacts := do
  Exec.ensure (inputCoins.length == tx.inputs.length) (.failed ⟨.invariantViolation,
    "input coin count does not match transaction inputs"⟩)
  let inputSum ← inputCoins.foldlM (addInputCoin context) 0
  require (facts.outputValue ≤ inputSum) .s05OutputsDoNotExceedInputs
    "transaction outputs exceed inputs"
  let fee ← subInt64 inputSum facts.outputValue
  require (inMoneyRange fee context.limits.maxMoney) .s06InputValueAndFeeRange
    "transaction fee is outside money range"
  let satisfied ← sequenceLocksSatisfied tx context inputCoins
  require satisfied .s08SequenceLocks "transaction sequence locks are not satisfied"
  pure ⟨inputSum, facts.outputValue, fee⟩

/-! ## Scripts -/

inductive ScriptExecutionResult
  | valid
  | invalid (reason : String)
  | failed (error : OperationError)
  deriving DecidableEq, Repr

/-- How a call of `VerifyScript` ends. -/
inductive InterpreterOutcome
  | accepts
  | rejects
  | throws (exhausted : Bool)
  deriving DecidableEq, Repr

/-- `VerifyScript` for one input of a transaction, given the outputs that its inputs spend. -/
abbrev ScriptInterpreter : Type :=
  CTransaction → Nat → ScriptVerifyFlags → List CTxOut → InterpreterOutcome

def toCoreFlags (flags : ScriptVerifyFlags) : ScriptVerifyFlags :=
  let carry (flag : ScriptVerifyFlags) : ScriptVerifyFlags := if containsFlags flags flag then flag else 0
  carry scriptVerifyP2SH ||| carry VerificationFlags.dersig ||| carry VerificationFlags.nulldummy |||
    carry VerificationFlags.checklocktimeverify ||| carry VerificationFlags.checksequenceverify |||
    (if containsFlags flags scriptVerifyWitness || containsFlags flags VerificationFlags.taproot then
      scriptVerifyP2SH ||| scriptVerifyWitness else 0) |||
    carry VerificationFlags.taproot

def InterpreterOutcome.result : InterpreterOutcome → ScriptExecutionResult
  | .accepts => .valid
  | .rejects => .invalid "script interpreter rejected the input"
  | .throws true => .failed ⟨.resourceExhaustion, "script verification exhausted resources"⟩
  | .throws false => .failed ⟨.internalBug, "script verification threw an exception"⟩

def requireScript : ScriptExecutionResult → VerifyResult Unit
  | .valid => pure ()
  | .invalid reason => invalid .s07ScriptsValidate reason
  | .failed error => Exec.reject (.failed error)

section Scripts

variable (doubleSha256 : ByteHash) (interpreter : ScriptInterpreter)

def verifyScript (previousScript : List UInt8) (spentAmount : Int64) (tx : Transaction)
    (inputIndex : Nat) (flags : VerificationFlags) (prevouts : List TxOutput) :
    ScriptExecutionResult :=
  if tx.inputs.length ≤ inputIndex then
    .failed ⟨.invariantViolation, "script input index is outside the transaction input range"⟩
  else if prevouts.length ≠ tx.inputs.length then
    .failed ⟨.invariantViolation, "script prevout count does not match transaction input count"⟩
  else if (prevouts.getD inputIndex ⟨0, []⟩).value ≠ spentAmount ∨
      (prevouts.getD inputIndex ⟨0, []⟩).script ≠ previousScript then
    .failed ⟨.invariantViolation, "script prevout evidence does not match the input being verified"⟩
  else if 2 ^ 32 - 1 < inputIndex then
    .failed ⟨.invariantViolation, "script input index exceeds the interpreter input range"⟩
  else
    (interpreter (toCoreTransaction doubleSha256 tx) inputIndex (toCoreFlags flags.mask)
      (prevouts.map toCoreTxOutput)).result

def verifyTransactionScripts (tx : Transaction) (spend : SpendContext) (scripts : ScriptContext)
    (inputCoins : List Coin) : VerifyResult SpendFacts := do
  let facts ← assessTransactionIntrinsic doubleSha256 tx ⟨spend.limits⟩
  if facts.kind = .coinbase then pure ⟨0, facts.outputValue, 0⟩
  else
    let spendFacts ← assessTransactionSpendsWithCoins tx facts spend inputCoins
    let prevouts := inputCoins.map Coin.output
    (List.range tx.inputs.length).forM fun inputIndex =>
      let previousOutput := prevouts.getD inputIndex ⟨0, []⟩
      requireScript (verifyScript doubleSha256 interpreter previousOutput.script
        previousOutput.value tx inputIndex scripts.flags prevouts)
    pure spendFacts

end Scripts

def transactionSigopCost (tx : Transaction) (inputCoins : List Coin) (flags : ScriptVerifyFlags) :
    Nat :=
  let sigopCost := legacySigopCount tx * witnessScaleFactor
  if isCoinbase tx then sigopCost
  else
    (tx.inputs.zip inputCoins).foldl (fun sigopCost input =>
      let sigopCost :=
        if containsFlags flags scriptVerifyP2SH then
          sigopCost + p2shSigopCount input.1 input.2.output.script * witnessScaleFactor
        else sigopCost
      sigopCost + witnessSigopCount input.1 input.2.output.script flags) sigopCost

/-! ## The outputs that a block creates -/

structure CreatedEntry where
  output : CreatedOutput
  spent : Bool
  deriving DecidableEq, Repr

structure BlockSpendTracker where
  created : List CreatedEntry
  createdByPoint : FinMap COutPoint Nat
  spentPoints : List COutPoint

inductive SpendSource
  | coinIndex
  | createdOutput (index : Nat)
  deriving DecidableEq, Repr

namespace BlockSpendTracker

def empty : BlockSpendTracker :=
  ⟨[], ∅, []⟩

variable (tracker : BlockSpendTracker)

def spent (point : COutPoint) : Bool :=
  tracker.spentPoints.contains point

def containsCreated (point : COutPoint) : Bool :=
  (tracker.createdByPoint.lookup point).isSome

def coinOf (output : CreatedOutput) : Coin :=
  ⟨output.output, output.height, output.coinbase, output.previousMedianTimePast⟩

def findUnspentCreated (point : COutPoint) : Option (Nat × Coin) :=
  match tracker.createdByPoint.lookup point with
  | none => none
  | some index =>
    match tracker.created[index]? with
    | none => none
    | some entry => if entry.spent then none else some (index, coinOf entry.output)

def markSpent (point : COutPoint) (source : SpendSource) : VerifyResult BlockSpendTracker := do
  Exec.assertThat (!tracker.spent point)
  let spentPoints := point :: tracker.spentPoints
  match source with
  | .coinIndex => pure ⟨tracker.created, tracker.createdByPoint, spentPoints⟩
  | .createdOutput index => do
      Exec.assertThat (index < tracker.created.length)
      pure ⟨tracker.created.modify index fun entry => ⟨entry.output, true⟩, tracker.createdByPoint,
        spentPoints⟩

/-- The tracker with a new output, unless its outpoint was created before. -/
def addCreated (output : CreatedOutput) : Option BlockSpendTracker :=
  if tracker.containsCreated output.point then none
  else some ⟨tracker.created ++ [⟨output, false⟩],
    tracker.createdByPoint.insert output.point tracker.created.length, tracker.spentPoints⟩

end BlockSpendTracker

/-! ## Blocks -/

/-- The local variables of `assess_block_spends_with_callbacks`. -/
structure SpendProgress where
  overlay : BlockSpendTracker
  createdOutputs : List CreatedOutput
  spentOutputs : List SpentOutput
  spends : List SpendFacts
  totalFees : Int64
  sigopCost : Nat

def SpendProgress.start : SpendProgress :=
  ⟨BlockSpendTracker.empty, [], [], [], 0, 0⟩

def addSigopCost (maxSigopCost sigopCost transactionCost : Nat) : VerifyResult Nat := do
  require (transactionCost ≤ maxSigopCost && sigopCost ≤ maxSigopCost - transactionCost)
    .s03SigopCost "block sigop cost exceeds limit"
  pure (sigopCost + transactionCost)

section Blocks

variable (doubleSha256 : ByteHash) (interpreter : ScriptInterpreter)
  (coins : CoinSource)

/-- The coin that an input spends, and where it comes from. -/
def findInputCoin (overlay : BlockSpendTracker) (point : COutPoint) :
    VerifyResult (Coin × SpendSource) := do
  require (!overlay.spent point) .s02PrevoutsUnspent
    "transaction double-spends a prevout in this block"
  match overlay.findUnspentCreated point with
  | some (index, value) => pure (value, .createdOutput index)
  | none => do
      match ← lookupCoin coins point with
      | none => invalid .s02PrevoutsUnspent "transaction input prevout is not present"
      | some value => pure (value, .coinIndex)

/-- The loop at the end of a transaction that marks its inputs as spent. -/
def markInputsSpent (overlay : BlockSpendTracker) (inputs : List (TxInput × SpendSource)) :
    VerifyResult BlockSpendTracker :=
  inputs.foldlM (fun overlay input => overlay.markSpent input.1.previousOutput input.2) overlay

def spendInputs (context : BlockSpendContext) (progress : SpendProgress) (tx : Transaction)
    (facts : TransactionFacts) : VerifyResult SpendProgress :=
  if facts.kind = .coinbase then do
    let sigopCost ← addSigopCost context.maxSigopCost progress.sigopCost
      (transactionSigopCost tx [] context.scripts.flags.mask)
    pure { progress with sigopCost := sigopCost }
  else do
    let inputs ← tx.inputs.mapM fun input =>
      findInputCoin coins progress.overlay input.previousOutput
    let inputCoins := inputs.map Prod.fst
    let spend ← assessTransactionSpendsWithCoins tx facts context.spend inputCoins
    let room ← subInt64 context.spend.limits.maxMoney spend.fee
    require (progress.totalFees ≤ room) .s06InputValueAndFeeRange
      "block fee total exceeds maximum money"
    let totalFees ← addInt64 progress.totalFees spend.fee
    let sigopCost ← addSigopCost context.maxSigopCost progress.sigopCost
      (transactionSigopCost tx inputCoins context.scripts.flags.mask)
    let _ ← verifyTransactionScripts doubleSha256 interpreter tx context.spend context.scripts
      inputCoins
    let overlay ← markInputsSpent progress.overlay (tx.inputs.zip (inputs.map Prod.snd))
    pure
      { progress with
        overlay := overlay
        spentOutputs := progress.spentOutputs ++ List.zipWith
          (fun input coin => ⟨input.previousOutput, coin⟩) tx.inputs inputCoins
        spends := progress.spends ++ [spend]
        totalFees := totalFees
        sigopCost := sigopCost }

/-- The check that an output overwrites nothing, when it is enforced. -/
def requireNoOverwrite (enforceBip30 : Bool) (overlay : BlockSpendTracker) (point : COutPoint) :
    VerifyResult Unit :=
  if enforceBip30 then do
    require (!overlay.containsCreated point) .s01Bip30DuplicateUnspent
      "block creates a duplicate unspent output"
    let lookup ← lookupCoin coins point
    require lookup.isNone .s01Bip30DuplicateUnspent "block overwrites an unspent output"
  else pure ()

def createOutput (context : BlockSpendContext) (facts : TransactionFacts)
    (progress : SpendProgress) (output : TxOutput × Nat) : VerifyResult SpendProgress := do
  let created : CreatedOutput :=
    ⟨⟨facts.id, UInt32.ofNat output.2⟩, output.1, context.spend.height,
      facts.kind = .coinbase, context.spend.previousMedianTimePast⟩
  requireNoOverwrite coins context.deployments.enforceBip30 progress.overlay created.point
  match progress.overlay.addCreated created with
  | none => invalid .s01Bip30DuplicateUnspent "block creates a duplicate output"
  | some overlay =>
    pure { progress with
      overlay := overlay
      createdOutputs := progress.createdOutputs ++ [created] }

def spendTransaction (context : BlockSpendContext) (progress : SpendProgress)
    (transaction : Transaction × TransactionFacts) : VerifyResult SpendProgress := do
  let progress ← spendInputs doubleSha256 interpreter coins context progress transaction.1
    transaction.2
  transaction.1.outputs.zipIdx.foldlM (createOutput coins context transaction.2) progress

def assessBlockSpends (candidate : Block) (context : BlockSpendContext) :
    VerifyResult BlockFacts := do
  let localFacts ← assessBlockIntrinsic doubleSha256 candidate context.localContext
  let progress ← (candidate.transactions.zip localFacts.transactions).foldlM
    (spendTransaction doubleSha256 interpreter coins context) .start
  let coinbaseValue := (localFacts.transactions.head?.map TransactionFacts.outputValue).getD 0
  let room ← subInt64 context.spend.limits.maxMoney progress.totalFees
  require (context.subsidy ≤ room) .s04CoinbaseSubsidy
    "block subsidy plus fees exceeds maximum money"
  let allowedReward ← addInt64 context.subsidy progress.totalFees
  require (coinbaseValue ≤ allowedReward) .s04CoinbaseSubsidy
    "coinbase pays more than subsidy plus fees"
  pure
    { localFacts with
      sigopCost := progress.sigopCost
      spends := progress.spends
      spentOutputs := progress.spentOutputs
      createdOutputs := progress.createdOutputs
      totalFees := progress.totalFees
      coinbaseOutputValue := coinbaseValue }

end Blocks

end Validation

end Champy
