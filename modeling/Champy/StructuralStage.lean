import Champy.Primitives
import Champy.Scripts
import Mathlib.Data.List.Nodup

/-!
# The structural stage of block validation

`ValidateBlockStructuralStage` looks only at the block: its Merkle root, its
stripped size, where its coinbase stands, and each transaction by itself.  The
double SHA-256 of a pair of hashes is a parameter.

The stage is read through `StructurallyValid`, which keeps what the spend stages
rely on: a coinbase first and nowhere else, inputs without repetition, amounts in
range, and fewer inputs and outputs than a 32-bit index can count.
-/

namespace Champy

open Exec List CTransaction

inductive BlockConsensusIssue
  | consensus
  | invalidHeader
  | mutated
  | timeFuture
  | validationRuntime
  deriving DecidableEq, Repr

structure CBlockHeader where
  nVersion : Int32 := 0
  hashPrevBlock : Uint256
  hashMerkleRoot : Uint256
  nTime : UInt32 := 0
  nBits : UInt32 := 0
  nNonce : UInt32 := 0
  deriving DecidableEq, Repr

structure CBlock where
  header : CBlockHeader
  vtx : List CTransaction
  deriving DecidableEq, Repr

/-! ## Stripped sizes -/

def getSizeOfCompactSize (size : Nat) : Nat :=
  if size < 253 then 1 else if size ≤ 0xffff then 3 else if size ≤ 0xffffffff then 5 else 9

def serializedScriptSize (script : CScript) : Nat :=
  getSizeOfCompactSize script.length + script.length

def CTxIn.strippedSize (txin : CTxIn) : Nat :=
  36 + serializedScriptSize txin.scriptSig + 4

def CTxOut.strippedSize (txout : CTxOut) : Nat :=
  8 + serializedScriptSize txout.scriptPubKey

/-- The size that `TX_NO_WITNESS` serialization gives. -/
def CTransaction.strippedSize (tx : CTransaction) : Nat :=
  4 + (getSizeOfCompactSize tx.vin.length + (tx.vin.map CTxIn.strippedSize).sum) +
    (getSizeOfCompactSize tx.vout.length + (tx.vout.map CTxOut.strippedSize).sum) + 4

def CBlock.strippedSize (block : CBlock) : Nat :=
  80 + getSizeOfCompactSize block.vtx.length + (block.vtx.map CTransaction.strippedSize).sum

/-! ## Merkle roots -/

section Merkle

variable (hashPair : HashPair)

/-- One level of the tree, an odd last hash being paired with itself. -/
def merkleLevel : List Uint256 → List Uint256
  | [] => []
  | [last] => [hashPair last last]
  | first :: second :: rest => hashPair first second :: merkleLevel rest

def merkleLevelMutated : List Uint256 → Bool
  | first :: second :: rest => first == second || merkleLevelMutated rest
  | _ => false

theorem length_merkleLevel (hashes : List Uint256) :
    (merkleLevel hashPair hashes).length = (hashes.length + 1) / 2 := by
  fun_induction merkleLevel hashPair hashes with
  | case1 => rfl
  | case2 last => simp
  | case3 first second rest ih =>
    simp only [length_cons, ih]
    omega

/-- The root, and whether two equal hashes were paired on some level. -/
def computeMerkleRootWithMutation (hashes : List Uint256) : Uint256 × Bool :=
  if 1 < hashes.length then
    let above := computeMerkleRootWithMutation (merkleLevel hashPair hashes)
    (above.1, merkleLevelMutated hashes || above.2)
  else (hashes.headD 0, false)
  termination_by hashes.length
  decreasing_by
    rw [length_merkleLevel]
    omega

end Merkle

structure BlockStructuralFacts where
  transactionCount : Nat
  merkleRoot : Uint256
  merkleMutated : Bool
  strippedSize : Nat

def computeBlockStructuralFacts (hashPair : HashPair) (block : CBlock) :
    BlockStructuralFacts :=
  let merkle := computeMerkleRootWithMutation hashPair (block.vtx.map hash)
  ⟨block.vtx.length, merkle.1, merkle.2, block.strippedSize⟩

/-! ## Transactions by themselves -/

structure TransactionCheckError where
  rejectReason : String
  debugMessage : String
  deriving DecidableEq, Repr

structure BlockCheckError where
  issue : BlockConsensusIssue
  rejectReason : String
  debugMessage : String
  deriving DecidableEq, Repr

def invalidConsensusTransaction (rejectReason : String) : TransactionCheckError :=
  ⟨rejectReason, ""⟩

/-- One round of the output loop of `CheckTransaction`. -/
def checkOutputValue (total : CAmount) (txout : CTxOut) : Exec TransactionCheckError CAmount := do
  ensure (0 ≤ txout.nValue) (invalidConsensusTransaction "bad-txns-vout-negative")
  ensure (txout.nValue ≤ maxMoney) (invalidConsensusTransaction "bad-txns-vout-toolarge")
  let sum ← addInt64 total txout.nValue
  ensure (moneyRange sum) (invalidConsensusTransaction "bad-txns-txouttotal-toolarge")
  pure sum

/-- Inserting outpoints into a set, until one is there already. -/
def outpointsUnique (seen : List COutPoint) : List COutPoint → Bool
  | [] => true
  | outpoint :: outpoints =>
    !seen.contains outpoint && outpointsUnique (outpoint :: seen) outpoints

def checkTransaction (tx : CTransaction) : Exec TransactionCheckError Unit := do
  ensure (!tx.vin.isEmpty) (invalidConsensusTransaction "bad-txns-vin-empty")
  ensure (!tx.vout.isEmpty) (invalidConsensusTransaction "bad-txns-vout-empty")
  ensure (tx.strippedSize * witnessScaleFactor ≤ maxBlockWeight)
    (invalidConsensusTransaction "bad-txns-oversize")
  let _ ← tx.vout.foldlM checkOutputValue 0
  ensure (outpointsUnique [] (tx.vin.map CTxIn.prevout))
    (invalidConsensusTransaction "bad-txns-inputs-duplicate")
  if tx.isCoinBase then
    let scriptSize := (tx.vin.headD ⟨⟨0, 0⟩, [], 0, []⟩).scriptSig.length
    ensure (2 ≤ scriptSize && scriptSize ≤ 100) (invalidConsensusTransaction "bad-cb-length")
  else
    ensure (tx.vin.all fun txin => !txin.prevout.isNull)
      (invalidConsensusTransaction "bad-txns-prevout-null")

/-! ## The stage -/

def invalidBlockCheck (issue : BlockConsensusIssue) (rejectReason debugMessage : String) :
    BlockCheckError :=
  ⟨issue, rejectReason, debugMessage⟩

def checkBlockMerkleRoot (header : CBlockHeader) (facts : BlockStructuralFacts) :
    Exec BlockCheckError Unit := do
  ensure (header.hashMerkleRoot == facts.merkleRoot)
    (invalidBlockCheck .mutated "bad-txnmrklroot" "hashMerkleRoot mismatch")
  ensure (!facts.merkleMutated)
    (invalidBlockCheck .mutated "bad-txns-duplicate" "duplicate transaction")

def checkTransactionOfBlock (tx : CTransaction) : Exec BlockCheckError Unit :=
  match checkTransaction tx with
  | .ok () => .ok ()
  | .error (.fault fault) => abort fault
  | .error (.reject error) =>
    reject (invalidBlockCheck .consensus error.rejectReason
      ("Transaction check failed (tx hash " ++ tx.hash.toHex ++ ") " ++ error.debugMessage))

/-- `CheckBlockTransactions`.  The transactions are values here, so the check for
a null pointer among them has nothing to find. -/
def checkBlockTransactions (transactions : List CTransaction) (facts : BlockStructuralFacts) :
    Exec BlockCheckError Unit := do
  ensure (facts.transactionCount == transactions.length)
    (invalidBlockCheck .consensus "bad-validation-view"
      "structural facts do not match transaction view")
  ensure (facts.transactionCount != 0 &&
      facts.transactionCount * witnessScaleFactor ≤ maxBlockWeight &&
      facts.strippedSize * witnessScaleFactor ≤ maxBlockWeight)
    (invalidBlockCheck .consensus "bad-blk-length" "size limits failed")
  ensure (transactions.head?.any isCoinBase)
    (invalidBlockCheck .consensus "bad-cb-missing" "first tx is not coinbase")
  ensure (transactions.tail.all fun tx => !tx.isCoinBase)
    (invalidBlockCheck .consensus "bad-cb-multiple" "more than one coinbase")
  transactions.forM checkTransactionOfBlock
  let sigOps := transactions.foldl (fun count tx => count + getLegacySigOpCount tx) 0
  ensure ((sigOps * UInt32.ofNat witnessScaleFactor).toNat ≤ maxBlockSigOpsCost.toInt)
    (invalidBlockCheck .consensus "bad-blk-sigops" "out-of-bounds SigOpCount")

structure BlockStructuralConsensusOptions where
  checkMerkleRoot : Bool

def validateBlockStructuralStage (hashPair : HashPair) (block : CBlock)
    (options : BlockStructuralConsensusOptions) : Exec BlockCheckError Unit := do
  let facts := computeBlockStructuralFacts hashPair block
  if options.checkMerkleRoot then
    checkBlockMerkleRoot block.header facts
  checkBlockTransactions block.vtx facts

/-! ## What an accepted block satisfies -/

/-- What `CheckTransaction` establishes. -/
structure CheckedTransaction (tx : CTransaction) : Prop where
  vin_ne_nil : tx.vin ≠ []
  vin_length : tx.vin.length ≤ 1000000
  vout_length : tx.vout.length ≤ 1000000
  valueOut : ∃ total : CAmount, (∀ txout ∈ tx.vout, moneyRange txout.nValue = true) ∧
    moneyRange total = true ∧ total.toInt = (tx.vout.map fun txout => txout.nValue.toInt).sum
  inputs_nodup : (tx.vin.map CTxIn.prevout).Nodup
  prevout_not_null : tx.isCoinBase = false → ∀ txin ∈ tx.vin, txin.prevout.isNull = false

/-- What the structural stage establishes about the transactions of a block. -/
structure StructurallyValid (transactions : List CTransaction) : Prop where
  coinbase_first : ∃ coinbase later, transactions = coinbase :: later ∧
    coinbase.isCoinBase = true ∧ ∀ tx ∈ later, tx.isCoinBase = false
  checked : ∀ tx ∈ transactions, CheckedTransaction tx

theorem checkOutputValue_eq_ok {start total : CAmount} {txout : CTxOut} :
    checkOutputValue start txout = .ok total ↔
      (addOutputValue start txout : Exec TransactionCheckError CAmount) = .ok total := by
  rw [addOutputValue_eq_ok, moneyRange, Bool.and_eq_true]
  simp only [checkOutputValue, bind_eq_ok, ensure_eq_ok, addInt64_eq_ok,
    pure_eq_ok, Except.ok.injEq, exists_const]
  constructor
  · rintro ⟨nonneg, small, sum, sumEq, inRange, rfl⟩
    exact ⟨⟨nonneg, small⟩, inRange, sumEq⟩
  · rintro ⟨⟨nonneg, small⟩, inRange, totalEq⟩
    exact ⟨nonneg, small, total, totalEq, inRange, rfl⟩

theorem outpointsUnique_iff {seen points : List COutPoint} :
    outpointsUnique seen points = true ↔ points.Nodup ∧ ∀ point ∈ points, point ∉ seen := by
  induction points generalizing seen with
  | nil => simp [outpointsUnique]
  | cons point points ih =>
    rw [outpointsUnique, Bool.and_eq_true, Bool.not_eq_true', contains_eq_mem,
      decide_eq_false_iff_not, ih, nodup_cons, forall_mem_cons]
    simp only [mem_cons, not_or]
    constructor
    · rintro ⟨unseen, nodup, fresh⟩
      exact ⟨⟨fun mem => (fresh point mem).1 rfl, nodup⟩, unseen,
        fun other mem => (fresh other mem).2⟩
    · rintro ⟨⟨notMem, nodup⟩, unseen, fresh⟩
      exact ⟨unseen, nodup, fun other mem => ⟨fun same => notMem (same ▸ mem), fresh other mem⟩⟩

theorem CTransaction.lengths_le_strippedSize (tx : CTransaction) :
    tx.vin.length ≤ tx.strippedSize ∧ tx.vout.length ≤ tx.strippedSize := by
  have inputs : tx.vin.length ≤ (tx.vin.map CTxIn.strippedSize).sum := by
    have bound := length_le_sum_of_one_le (tx.vin.map CTxIn.strippedSize)
    rw [length_map] at bound
    apply bound
    intro size mem
    obtain ⟨txin, -, rfl⟩ := mem_map.mp mem
    simp only [CTxIn.strippedSize]
    omega
  have outputs : tx.vout.length ≤ (tx.vout.map CTxOut.strippedSize).sum := by
    have bound := length_le_sum_of_one_le (tx.vout.map CTxOut.strippedSize)
    rw [length_map] at bound
    apply bound
    intro size mem
    obtain ⟨txout, -, rfl⟩ := mem_map.mp mem
    simp only [CTxOut.strippedSize]
    omega
  rw [strippedSize]
  omega

theorem checkedTransaction_of_checkTransaction {tx : CTransaction}
    (ok : checkTransaction tx = .ok ()) : CheckedTransaction tx := by
  simp only [checkTransaction, bind_eq_ok, ensure_eq_ok, exists_const] at ok
  obtain ⟨vinNonempty, -, size, total, outputs, unique, rest⟩ := ok
  have sizes := tx.lengths_le_strippedSize
  have sizeBound : tx.strippedSize * 4 ≤ 4000000 := of_decide_eq_true size
  have values := (foldlM_eq_ok_congr (fun _ _ _ => checkOutputValue_eq_ok) tx.vout 0 total).mp
    outputs
  refine ⟨?_, by omega, by omega, ⟨total, getValueOut_eq_ok.mp values⟩,
    (outpointsUnique_iff.mp unique).1, ?_⟩
  · intro empty
    simp [empty] at vinNonempty
  · intro notCoinbase txin mem
    rw [if_neg (by simp [notCoinbase]), ensure_eq_ok, all_eq_true] at rest
    simpa using rest txin mem

theorem checkTransactionOfBlock_eq_ok {tx : CTransaction} :
    checkTransactionOfBlock tx = .ok () ↔ checkTransaction tx = .ok () := by
  unfold checkTransactionOfBlock
  cases checkTransaction tx with
  | ok value => simp
  | error failure => cases failure <;> simp

theorem structurallyValid_of_checkBlockTransactions {txs : List CTransaction}
    {facts : BlockStructuralFacts} (ok : checkBlockTransactions txs facts = .ok ()) :
    StructurallyValid txs := by
  simp only [checkBlockTransactions, bind_eq_ok, ensure_eq_ok, exists_const] at ok
  obtain ⟨-, -, first, others, ⟨⟩, checks, -⟩ := ok
  refine ⟨?_, ?_⟩
  · cases txs with
    | nil => simp at first
    | cons coinbase later =>
      refine ⟨coinbase, later, rfl, by simpa using first, ?_⟩
      intro tx mem
      simpa using all_eq_true.mp others tx mem
  · intro tx mem
    have ok := forM_eq_ok.mp checks tx mem
    exact checkedTransaction_of_checkTransaction (checkTransactionOfBlock_eq_ok.mp ok)

variable {hashPair : HashPair} {options : BlockStructuralConsensusOptions}

/-- The reading of the stage that the spend stages use. -/
theorem structurallyValid_of_stage {block : CBlock}
    (ok : validateBlockStructuralStage hashPair block options = .ok ()) :
    StructurallyValid block.vtx := by
  unfold validateBlockStructuralStage at ok
  cases checkMerkleRoot : options.checkMerkleRoot with
  | false =>
    simp only [checkMerkleRoot] at ok
    exact structurallyValid_of_checkBlockTransactions ok
  | true =>
    simp only [checkMerkleRoot, if_true, bind_eq_ok] at ok
    obtain ⟨-, -, txs⟩ := ok
    exact structurallyValid_of_checkBlockTransactions txs

/-! ## Blocks that pass -/

theorem validateBlockStructuralStage_of_merkle
    {block : CBlock} (merkle : computeMerkleRootWithMutation hashPair
      (block.vtx.map hash) = (block.header.hashMerkleRoot, false))
    (txs : checkBlockTransactions block.vtx (computeBlockStructuralFacts hashPair block) = .ok ())
    (options : BlockStructuralConsensusOptions) :
    validateBlockStructuralStage hashPair block options = .ok () := by
  have root : checkBlockMerkleRoot block.header (computeBlockStructuralFacts hashPair block) =
      .ok () := by
    simp [checkBlockMerkleRoot, computeBlockStructuralFacts, merkle, ensure]
  unfold validateBlockStructuralStage
  cases options.checkMerkleRoot with
  | false => exact txs
  | true => exact bind_eq_ok.mpr ⟨(), root, txs⟩

def CBlock.ofCoinbase (hashPrevBlock : Uint256) (coinbase : CTransaction) : CBlock :=
  ⟨{ hashPrevBlock := hashPrevBlock, hashMerkleRoot := coinbase.hash }, [coinbase]⟩

theorem validateBlockStructuralStage_ofCoinbase {hashPrevBlock : Uint256} {coinbase : CTransaction}
    (isCoinbase : coinbase.isCoinBase = true)
    (checked : checkTransaction coinbase = .ok ())
    (size : (CBlock.ofCoinbase hashPrevBlock coinbase).strippedSize * witnessScaleFactor ≤
      maxBlockWeight)
    (sigOps : ((0 + getLegacySigOpCount coinbase) * UInt32.ofNat witnessScaleFactor).toNat ≤
      maxBlockSigOpsCost.toInt) :
    validateBlockStructuralStage hashPair (CBlock.ofCoinbase hashPrevBlock coinbase) options =
      .ok () := by
  have merkle : computeMerkleRootWithMutation hashPair [coinbase.hash] =
      (coinbase.hash, false) := by
    rw [computeMerkleRootWithMutation]
    rfl
  have txs : checkBlockTransactions (CBlock.ofCoinbase hashPrevBlock coinbase).vtx
      (computeBlockStructuralFacts hashPair (CBlock.ofCoinbase hashPrevBlock coinbase)) =
        .ok () := by
    simp only [checkBlockTransactions, bind_eq_ok, ensure_eq_ok, exists_const]
    refine ⟨by simp [computeBlockStructuralFacts], ?_, by simp [CBlock.ofCoinbase, isCoinbase],
      by simp [CBlock.ofCoinbase], (), ?_, ?_⟩
    · have sizeEq : (computeBlockStructuralFacts hashPair
          (CBlock.ofCoinbase hashPrevBlock coinbase)).strippedSize =
          (CBlock.ofCoinbase hashPrevBlock coinbase).strippedSize := rfl
      have single : 1 * witnessScaleFactor ≤ maxBlockWeight := by decide
      rw [Bool.and_eq_true, Bool.and_eq_true, decide_eq_true_iff, decide_eq_true_iff, sizeEq]
      exact ⟨⟨rfl, single⟩, size⟩
    · apply forM_eq_ok.mpr
      intro tx mem
      rw [mem_singleton.mp mem]
      exact checkTransactionOfBlock_eq_ok.mpr checked
    · exact decide_eq_true sigOps
  exact validateBlockStructuralStage_of_merkle merkle txs options

/-- A coinbase that pays one spendable output. -/
def sampleCoinbase : CTransaction :=
  ⟨[⟨⟨0, 0xffffffff⟩, [0x51, 0x51], 0xffffffff, []⟩], [⟨5000000000, [0x51]⟩], 1, 0, 7⟩

theorem sampleCoinbase_accepted (hashPair : HashPair)
    (hashPrevBlock : Uint256) (options : BlockStructuralConsensusOptions) :
    validateBlockStructuralStage hashPair (CBlock.ofCoinbase hashPrevBlock sampleCoinbase)
      options = .ok () := by
  have size : (CBlock.ofCoinbase 0 sampleCoinbase).strippedSize * witnessScaleFactor ≤
      maxBlockWeight := by decide
  exact validateBlockStructuralStage_ofCoinbase (by decide) (by decide) size (by decide)

/-- A transaction that moves ten satoshis from an outpoint of another transaction. -/
def sampleSpend : CTransaction :=
  ⟨[⟨⟨9, 0⟩, [], 0xffffffff, []⟩], [⟨10, [0x51]⟩], 1, 0, 8⟩

/-- A transaction that spends the output of the sample spend. -/
def sampleChild : CTransaction :=
  ⟨[⟨⟨8, 0⟩, [], 0xffffffff, []⟩], [⟨7, [0x51]⟩], 1, 0, 10⟩

/-- A block that spends a coin from outside and an output of its own, for a hash that
adds. -/
def sampleSpendBlock : CBlock :=
  ⟨{ hashPrevBlock := 0, hashMerkleRoot := 35 }, [sampleCoinbase, sampleSpend, sampleChild]⟩

/-- A block that spends an output of the block before. -/
def sampleNextBlock : CBlock :=
  ⟨{ hashPrevBlock := 1, hashMerkleRoot := 23 },
    [{ sampleCoinbase with hash := 11 },
      ⟨[⟨⟨10, 0⟩, [], 0xffffffff, []⟩], [⟨5, [0x51]⟩], 1, 0, 12⟩]⟩

theorem sampleSpendBlock_accepted :
    validateBlockStructuralStage (· + ·) sampleSpendBlock ⟨true⟩ = .ok () := by
  apply validateBlockStructuralStage_of_merkle
  · rw [computeMerkleRootWithMutation, computeMerkleRootWithMutation, computeMerkleRootWithMutation]
    decide
  · rfl

theorem sampleNextBlock_accepted :
    validateBlockStructuralStage (· + ·) sampleNextBlock ⟨true⟩ = .ok () := by
  apply validateBlockStructuralStage_of_merkle
  · rw [computeMerkleRootWithMutation, computeMerkleRootWithMutation]
    decide
  · rfl

end Champy
