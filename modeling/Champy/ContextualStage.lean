import Champy.CoreSerialization
import Champy.ScriptValues
import Champy.StructuralStage

/-!
# The contextual stage of block validation

`ValidateBlockContextualBodyStage` checks what depends on where the block stands: the lock
times of its transactions, the height in the coinbase, the witness commitment and the
weight.  The facts it reads are computed from the block before.
-/

namespace Champy

open Exec

/-! ## Facts about the witnesses -/

namespace CTransaction

def hasWitness (tx : CTransaction) : Bool :=
  tx.vin.any fun txin => !txin.scriptWitness.isEmpty

def toMutable (tx : CTransaction) : Consensus.CMutableTransaction :=
  ⟨tx.vin, tx.vout, tx.version, tx.nLockTime⟩

/-- `GetWitnessHash`: the hash itself when there is no witness. -/
def witnessHash (doubleSha256 : ByteHash) (tx : CTransaction) : Uint256 :=
  if tx.hasWitness then doubleSha256 (Consensus.serializeTransaction tx.toMutable true)
  else tx.hash

end CTransaction

variable (doubleSha256 : ByteHash) (transactions : List CTransaction)

/-- `SHA256D64` on one pair of hashes. -/
def sha256D64 (left right : Uint256) : Uint256 :=
  doubleSha256 (hashBytes left ++ hashBytes right)

def witnessMerkleLeaves : List CTransaction → List Uint256
  | [] => []
  | _ :: later => 0 :: later.map (CTransaction.witnessHash doubleSha256)

def blockWitnessMerkleRoot : Uint256 :=
  (computeMerkleRootWithMutation (sha256D64 doubleSha256)
    (witnessMerkleLeaves doubleSha256 transactions)).1

def hasWitnessCommitmentPrefix (script : CScript) : Bool :=
  38 ≤ script.length && script[0]? == some Opcode.opReturn && script[1]? == some 0x24 &&
    script[2]? == some 0xaa && script[3]? == some 0x21 && script[4]? == some 0xa9 &&
    script[5]? == some 0xed

/-- `GetWitnessCommitmentIndex`, with the conversion of the index to `int`. -/
def getWitnessCommitmentIndex (coinbase : CTransaction) : Int32 :=
  coinbase.vout.zipIdx.foldl (fun commitpos entry =>
    if hasWitnessCommitmentPrefix entry.1.scriptPubKey then Int32.ofNat entry.2 else commitpos) (-1)

def serializeBlock (block : CBlock) (allowWitness : Bool) : List UInt8 :=
  Consensus.serializeBlockHeader block.header ++
    Consensus.serializeVector
      (fun tx => Consensus.serializeTransaction (CTransaction.toMutable tx) allowWitness) block.vtx

def getBlockWeight (block : CBlock) : Nat :=
  block.strippedSize * (witnessScaleFactor - 1) + (serializeBlock block true).length

structure BlockFacts where
  structural : BlockStructuralFacts
  witnessMerkleRoot : Uint256
  hasWitness : Bool
  witnessCommitmentIndex : Option Int32
  weight : Nat

def computeBlockFacts (block : CBlock) : BlockFacts :=
  let index := (block.vtx.head?.map getWitnessCommitmentIndex).getD (-1)
  ⟨computeBlockStructuralFacts (sha256D64 doubleSha256) block,
    blockWitnessMerkleRoot doubleSha256 block.vtx, block.vtx.any CTransaction.hasWitness,
    if index = -1 then none else some index, getBlockWeight block⟩

/-! ## Witness rules -/

def invalidValidationView (debugMessage : String) : BlockCheckError :=
  invalidBlockCheck .consensus "bad-validation-view" debugMessage

/-- The coinbase and the script of its output at the index of the commitment. -/
def commitmentScript (index : Int32) : Exec BlockCheckError (CTransaction × CScript) :=
  match transactions.head? with
  | none =>
    reject (invalidValidationView "witness commitment index without coinbase transaction")
  | some coinbase =>
    if index < 0 then
      reject (invalidValidationView "witness commitment index outside coinbase outputs")
    else
      match coinbase.vout[index.toNatClampNeg]? with
      | none =>
        reject (invalidValidationView "witness commitment index outside coinbase outputs")
      | some txout =>
        if hasWitnessCommitmentPrefix txout.scriptPubKey then
          pure (coinbase, txout.scriptPubKey)
        else
          reject (invalidValidationView
            "witness commitment index does not identify a commitment output")

def checkBlockFactsMatchTransactions (facts : BlockFacts) : Exec BlockCheckError Unit := do
  ensure (facts.structural.transactionCount == transactions.length)
    (invalidValidationView "structural facts do not match transaction view")
  match facts.witnessCommitmentIndex with
  | none => pure ()
  | some index =>
    let _ ← commitmentScript transactions index

/-- The commitment of the coinbase matches the witnesses. -/
def checkWitnessCommitment (witnessMerkleRoot : Uint256) (coinbase : CTransaction)
    (script : CScript) : Exec BlockCheckError Unit := do
  match coinbase.vin with
  | [] =>
    reject (invalidValidationView "witness commitment check requires coinbase input")
  | txin :: _ =>
    ensure (txin.scriptWitness.length == 1 && (txin.scriptWitness.headD []).length == 32)
      (invalidBlockCheck .mutated "bad-witness-nonce-size"
        "CheckBlockWitnessMalleation : invalid witness reserved value size")
    let hashWitness := doubleSha256 (hashBytes witnessMerkleRoot ++ txin.scriptWitness.headD [])
    ensure (hashBytes hashWitness == (script.drop 6).take 32)
      (invalidBlockCheck .mutated "bad-witness-merkle-match"
        "CheckBlockWitnessMalleation : witness merkle commitment mismatch")

def checkBlockWitnessMalleation (facts : BlockFacts) (expectWitnessCommitment : Bool) :
    Exec BlockCheckError Unit := do
  checkBlockFactsMatchTransactions transactions facts
  match expectWitnessCommitment, facts.witnessCommitmentIndex with
  | true, some index =>
    let committed ← commitmentScript transactions index
    checkWitnessCommitment doubleSha256 facts.witnessMerkleRoot committed.1 committed.2
  | _, _ =>
    ensure (!facts.hasWitness)
      (invalidBlockCheck .mutated "unexpected-witness"
        "CheckBlockWitnessMalleation : unexpected witness data found")

def checkBlockWeight (facts : BlockFacts) (debugContext : String) : Exec BlockCheckError Unit :=
  ensure (facts.weight ≤ maxBlockWeight)
    (invalidBlockCheck .consensus "bad-blk-weight" (debugContext ++ " : weight limit failed"))

def checkBlockWitnessRules (facts : BlockFacts) (expectWitnessCommitment : Bool)
    (debugContext : String) : Exec BlockCheckError Unit := do
  checkBlockWitnessMalleation doubleSha256 transactions facts expectWitnessCommitment
  checkBlockWeight facts debugContext

/-! ## Lock times and the height in the coinbase -/

def lockTimeThreshold : Int := 500000000

def isFinalTx (tx : CTransaction) (blockHeight : Int32) (blockTime : Int64) : Bool :=
  if tx.nLockTime = 0 then true
  else
    let cutoff : Int :=
      if (tx.nLockTime.toNat : Int) < lockTimeThreshold then blockHeight.toInt else blockTime.toInt
    if (tx.nLockTime.toNat : Int) < cutoff then true
    else tx.vin.all fun txin => txin.nSequence == CTxIn.sequenceFinal

def checkBlockFinalTransactions (blockHeight : Int32) (locktimeCutoff : Int64) :
    Exec BlockCheckError Unit :=
  transactions.forM fun tx =>
    ensure (isFinalTx tx blockHeight locktimeCutoff)
      (invalidBlockCheck .consensus "bad-txns-nonfinal" "non-final transaction")

/-- `CScript{} << n`. -/
def pushInt64 (n : Int64) : CScript :=
  if n = -1 || (1 ≤ n && n ≤ 16) then [UInt8.ofNat ((n + 0x50).toUInt64.toNat % 256)]
  else if n = 0 then [Opcode.op0]
  else
    let data := scriptNumSerialize n
    appendDataSize data.length ++ data

def checkBlockCoinbaseHeight (coinbase : CTransaction) (blockHeight : Int32) :
    Exec BlockCheckError Unit := do
  ensure (coinbase.isCoinBase && !coinbase.vin.isEmpty)
    (invalidValidationView "coinbase height check requires a coinbase transaction")
  let expect := pushInt64 blockHeight.toInt64
  let scriptSig := (coinbase.vin.headD ⟨⟨0, 0⟩, [], 0, []⟩).scriptSig
  ensure (expect.length ≤ scriptSig.length && expect == scriptSig.take expect.length)
    (invalidBlockCheck .consensus "bad-cb-height" "block height mismatch in coinbase")

structure BlockContextualTransactionOptions where
  blockHeight : Int32
  locktimeCutoff : Int64
  enforceCoinbaseHeight : Bool
  deriving DecidableEq, Repr

def checkBlockContextualTransactionRules (options : BlockContextualTransactionOptions) :
    Exec BlockCheckError Unit := do
  checkBlockFinalTransactions transactions options.blockHeight options.locktimeCutoff
  if options.enforceCoinbaseHeight then
    match transactions with
    | [] =>
      reject (invalidValidationView "coinbase height check requires a transaction")
    | coinbase :: _ => checkBlockCoinbaseHeight coinbase options.blockHeight

/-! ## The stage -/

structure BlockContextualBodyOptions where
  transactions : BlockContextualTransactionOptions
  expectWitnessCommitment : Bool
  deriving DecidableEq, Repr

structure BlockContextualBodyValidation where
  facts : BlockFacts
  checkedWitnessCommitment : Bool

def validateBlockContextualBodyStage (block : CBlock) (options : BlockContextualBodyOptions)
    (debugContext : String) : Exec BlockCheckError BlockContextualBodyValidation := do
  let facts := computeBlockFacts doubleSha256 block
  checkBlockContextualTransactionRules block.vtx options.transactions
  checkBlockWitnessRules doubleSha256 block.vtx facts options.expectWitnessCommitment debugContext
  pure ⟨facts, options.expectWitnessCommitment && facts.witnessCommitmentIndex.isSome⟩

/-! ## The options of a chain position -/

structure BlockDeploymentContext where
  heightInCoinbaseActive : Bool
  csvActive : Bool
  segwitActive : Bool
  deriving DecidableEq, Repr

structure BlockHeaderContext where
  height : Int32
  previousMedianTimePast : Int64
  deployments : BlockDeploymentContext
  deriving DecidableEq, Repr

def buildBlockContextualTransactionOptions (header : CBlockHeader) (headers : BlockHeaderContext) :
    BlockContextualTransactionOptions :=
  ⟨headers.height,
    if headers.deployments.csvActive then headers.previousMedianTimePast
    else Int64.ofNat header.nTime.toNat,
    headers.deployments.heightInCoinbaseActive⟩

end Champy
