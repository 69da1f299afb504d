import Champy.CheckedExecution
import Champy.ProtocolCodec
import Champy.SortedLists
import Mathlib.Data.List.Lex

/-!
# Transaction rules of the value library

`bitcoin/validation` decides about values of `bitcoin/protocol`.  A verification ends
with facts, with a rejection that names the rule, or with a failed operation; the last
two are the two `Stop`s here.  A run that faults is neither.

The catch-all handlers around each function only turn exceptions into failed operations.
Nothing that the functions here compute throws, so the handlers are left out.
-/

namespace Champy

namespace Validation

open Protocol

inductive RuleId
  | h01PreviousHashParent
  | h02ProofOfWork
  | h03DifficultyTransition
  | h04MedianTimePast
  | h05FutureTime
  | h06RetiredVersion
  | h07Timewarp
  | l01BlockNonEmpty
  | l02MerkleRoot
  | l03MerkleMutation
  | l04OriginalBlockSize
  | l05CoinbasePosition
  | l06LegacySigops
  | l07TransactionInputsNonEmpty
  | l08TransactionOutputsNonEmpty
  | l09TransactionSize
  | l10OutputValueNonNegative
  | l11OutputValueRange
  | l12UniqueInputs
  | l13CoinbaseScriptSize
  | l14NonCoinbasePrevout
  | c01TransactionFinality
  | c02PreSegwitNoWitness
  | c03BlockWeight
  | c04CoinbaseHeight
  | c05WitnessCommitmentPresence
  | c06WitnessNoncePresence
  | c07WitnessMerkleCommitment
  | s01Bip30DuplicateUnspent
  | s02PrevoutsUnspent
  | s03SigopCost
  | s04CoinbaseSubsidy
  | s05OutputsDoNotExceedInputs
  | s06InputValueAndFeeRange
  | s07ScriptsValidate
  | s08SequenceLocks
  | s09CoinbaseMaturity
  deriving DecidableEq, Repr

/-- A `validation_rejection` whose code is `rule_violation`. -/
structure Rejection where
  rule : RuleId
  reason : String
  deriving DecidableEq, Repr

inductive OperationErrorCode
  | resourceExhaustion
  | dataUnavailable
  | ioRead
  | ioWrite
  | seek
  | storageCorruption
  | malformedStoredData
  | interruption
  | callbackFailure
  | invariantViolation
  | unsupportedOperation
  | internalBug
  deriving DecidableEq, Repr

structure OperationError where
  code : OperationErrorCode
  reason : String
  deriving DecidableEq, Repr

/-- How a verification ends without facts. -/
inductive Stop
  | invalid (rejection : Rejection)
  | failed (error : OperationError)
  deriving DecidableEq, Repr

abbrev VerifyResult (α : Type) : Type := Exec Stop α

def invalid {α : Type} (rule : RuleId) (reason : String) : VerifyResult α :=
  Exec.reject (.invalid ⟨rule, reason⟩)

/-- Return `invalid` unless the condition holds. -/
def require (condition : Bool) (rule : RuleId) (reason : String) : VerifyResult Unit :=
  Exec.ensure condition (.invalid ⟨rule, reason⟩)

structure TransactionLimits where
  maxMoney : Int64 := 2100000000000000
  maxStrippedWeight : Nat := 4000000
  deriving DecidableEq, Repr

structure TransactionContext where
  limits : TransactionLimits := {}
  deriving DecidableEq, Repr

structure TransactionFinalityContext where
  limits : TransactionLimits := {}
  height : Int32
  timestamp : UInt32
  deriving DecidableEq, Repr

inductive TransactionKind
  | ordinary
  | coinbase
  deriving DecidableEq, Repr

structure TransactionFacts where
  id : Txid
  witnessId : Uint256
  outputValue : Int64
  kind : TransactionKind
  strippedWeight : Nat
  deriving DecidableEq, Repr

def isCoinbase (tx : Transaction) : Bool :=
  match tx.inputs with
  | [input] => input.previousOutput.isNull
  | _ => false

/-- The order of outpoints compares the bytes of the hash first, then the index. -/
def outpointKey (point : COutPoint) : List Nat :=
  (hashBytes point.hash).map UInt8.toNat ++ [point.n.toNat]

def outpointLe (first second : COutPoint) : Bool :=
  decide (outpointKey first ≤ outpointKey second)

def hasDuplicateInputs (tx : Transaction) : Bool :=
  hasEqualNeighbours ((tx.inputs.map TxInput.previousOutput).mergeSort outpointLe)

def coinbaseScriptSizeValid (tx : Transaction) : Bool :=
  let size := (tx.inputs.headD ⟨⟨0, 0⟩, [], 0, []⟩).script.length
  2 ≤ size && size ≤ 100

def strippedWeightExceedsLimit (strippedSize limit : Nat) : Bool :=
  limit / witnessScaleFactor < strippedSize

def strippedWeight (strippedSize : Nat) : Nat :=
  strippedSize * witnessScaleFactor

def locktimeThreshold : UInt32 := 500000000

def finalUnderLocktime (tx : Transaction) (context : TransactionFinalityContext) : Bool :=
  if tx.locktime = 0 then true
  else
    let comparison : Int :=
      if tx.locktime < locktimeThreshold then context.height.toInt
      else (context.timestamp.toNat : Int)
    if (tx.locktime.toNat : Int) < comparison then true
    else tx.inputs.all fun input => input.sequence == 0xffffffff

/-- One round of the loop over the outputs. -/
def addOutputValue (maxMoney outputSum : Int64) (output : TxOutput) : VerifyResult Int64 := do
  require (0 ≤ output.value) .l10OutputValueNonNegative "transaction output value is negative"
  require (output.value ≤ maxMoney) .l11OutputValueRange
    "transaction output value exceeds maximum money"
  let room ← subInt64 maxMoney output.value
  require (outputSum ≤ room) .l11OutputValueRange "transaction output sum exceeds maximum money"
  addInt64 outputSum output.value

/-- The rule that a coinbase has for its script, and the one that the others have for their
previous outputs. -/
def requireInputRules (tx : Transaction) : VerifyResult Unit :=
  if isCoinbase tx then
    require (coinbaseScriptSizeValid tx) .l13CoinbaseScriptSize
      "coinbase script size is outside consensus range"
  else
    require (tx.inputs.all fun input => !input.previousOutput.isNull) .l14NonCoinbasePrevout
      "non-coinbase transaction spends null prevout"

section Assessment

variable (doubleSha256 : ByteHash)

def assessTransactionIntrinsic (tx : Transaction) (context : TransactionContext) :
    VerifyResult TransactionFacts := do
  require (!tx.inputs.isEmpty) .l07TransactionInputsNonEmpty "transaction has no inputs"
  require (!tx.outputs.isEmpty) .l08TransactionOutputsNonEmpty "transaction has no outputs"
  let serializedWithoutWitness := tx.strippedSerializedSize
  require (!strippedWeightExceedsLimit serializedWithoutWitness context.limits.maxStrippedWeight)
    .l09TransactionSize "transaction stripped size exceeds maximum weight"
  let outputSum ← tx.outputs.foldlM (addOutputValue context.limits.maxMoney) 0
  require (!hasDuplicateInputs tx) .l12UniqueInputs "transaction contains duplicate inputs"
  requireInputRules tx
  pure ⟨tx.id doubleSha256, tx.witnessId doubleSha256, outputSum,
    if isCoinbase tx then .coinbase else .ordinary, strippedWeight serializedWithoutWitness⟩

def assessTransactionFinality (tx : Transaction) (context : TransactionFinalityContext) :
    VerifyResult TransactionFacts := do
  let facts ← assessTransactionIntrinsic doubleSha256 tx ⟨context.limits⟩
  require (finalUnderLocktime tx context) .c01TransactionFinality
    "transaction locktime is not final"
  pure facts

end Assessment

end Validation

end Champy
