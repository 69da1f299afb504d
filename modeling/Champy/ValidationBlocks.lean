import Champy.ValidationScripts

/-!
# Block rules of the value library

`assess_block_intrinsic` looks only at the block; `assess_block_contextual` adds the rules
that depend on the height, the deployments and the cutoff for lock times.  The Merkle
loops work on one vector: an odd level gets a copy of its last hash, then each pair is
replaced by the hash of its bytes.
-/

namespace Champy

namespace Validation

open Protocol

structure BlockLimits where
  transactions : TransactionContext := {}
  maxBlockWeight : Nat := 4000000
  maxLegacySigopCost : Nat := 80000
  deriving DecidableEq, Repr

structure BlockLocalContext where
  limits : BlockLimits := {}
  checkMerkleRoot : Bool := true
  deriving DecidableEq, Repr

structure BlockDeployments where
  segwitActive : Bool
  heightInCoinbaseActive : Bool
  deriving DecidableEq, Repr

structure BlockContextualContext where
  localContext : BlockLocalContext := {}
  height : Int32
  locktimeCutoff : UInt32
  deployments : BlockDeployments
  deriving DecidableEq, Repr

/-- `witness_commitment::found`; `witness_commitment::none` is `none`. -/
structure WitnessCommitment where
  outputIndex : UInt32
  hash : Uint256
  deriving DecidableEq, Repr

def exceedsWeightUnits (size maxWeight : Nat) : Bool :=
  maxWeight / witnessScaleFactor < size

/-! ## Merkle roots -/

section Merkle

variable (doubleSha256 : ByteHash)

def hashPair (left right : Uint256) : Uint256 :=
  doubleSha256 (hashBytes left ++ hashBytes right)

/-- The loop that looks for two equal hashes in one pair. -/
def pairsRepeat : List Uint256 → Bool
  | first :: second :: rest => first == second || pairsRepeat rest
  | _ => false

/-- `hashes.push_back(hashes.back())` on an odd level. -/
def padLevel (hashes : List Uint256) : List Uint256 :=
  if hashes.length % 2 = 1 then hashes ++ hashes.getLast?.toList else hashes

/-- The loop that replaces each pair by its hash. -/
def hashPairs : List Uint256 → List Uint256
  | left :: right :: rest => hashPair doubleSha256 left right :: hashPairs rest
  | _ => []

variable (hashes : List Uint256)

theorem length_hashPairs : (hashPairs doubleSha256 hashes).length = hashes.length / 2 := by
  fun_induction hashPairs doubleSha256 hashes with
  | case1 left right rest ih =>
    rw [List.length_cons, List.length_cons, List.length_cons, ih]
    omega
  | case2 hashes short =>
    rcases hashes with - | ⟨first, - | ⟨second, rest⟩⟩
    · rfl
    · simp
    · exact absurd rfl (short first second rest)

theorem length_padLevel : (padLevel hashes).length = (hashes.length + 1) / 2 * 2 := by
  rw [padLevel]
  split
  next odd =>
    cases hashes with
    | nil => cases odd
    | cons first rest =>
      rw [List.getLast?_cons, Option.toList_some, List.length_append, List.length_singleton]
      omega
  next even => omega

/-- The loop of `merkle_root`: the root, and whether a level paired equal hashes. -/
def merkleLoop (hashes : List Uint256) : Uint256 × Bool :=
  if 1 < hashes.length then
    let above := merkleLoop (hashPairs doubleSha256 (padLevel hashes))
    (above.1, pairsRepeat hashes || above.2)
  else (hashes.headD 0, false)
  termination_by hashes.length
  decreasing_by
    rw [length_hashPairs, length_padLevel]
    omega

def merkleRoot (transactions : List Transaction) : Uint256 × Bool :=
  merkleLoop doubleSha256 (transactions.map (Transaction.id doubleSha256))

/-- The leaves of the witness tree: the coinbase stands as a zero hash. -/
def witnessLeaves : List Transaction → List Uint256
  | [] => []
  | _ :: later => 0 :: later.map (Transaction.witnessId doubleSha256)

/-- `witness_merkle_root`, whose loop is the one of `merkle_root` without the search for
equal pairs. -/
def witnessMerkleRoot (transactions : List Transaction) : Uint256 :=
  (merkleLoop doubleSha256 (witnessLeaves doubleSha256 transactions)).1

end Merkle

/-! ## Witness commitments and the height in the coinbase -/

def hasWitness (transactions : List Transaction) : Bool :=
  transactions.any Transaction.hasWitness

def hasWitnessCommitmentPrefix (script : List UInt8) : Bool :=
  38 ≤ script.length && script[0]? == some 0x6a && script[1]? == some 0x24 &&
    script[2]? == some 0xaa && script[3]? == some 0x21 && script[4]? == some 0xa9 &&
    script[5]? == some 0xed

def hashOfBytes (bytes : List UInt8) : Uint256 :=
  BitVec.ofNat 256 (readLE bytes)

/-- The last output that has the form of a commitment. -/
def findWitnessCommitment (coinbase : Transaction) : Option WitnessCommitment :=
  coinbase.outputs.zipIdx.foldl (fun result entry =>
    if hasWitnessCommitmentPrefix entry.1.script then
      some ⟨UInt32.ofNat entry.2, hashOfBytes ((entry.1.script.drop 6).take 32)⟩
    else result) none

/-- The loop of `script_number` over the bytes that are left. -/
def scriptNumberBytes (remaining : Nat) : List UInt8 :=
  if 0 < remaining then UInt8.ofNat (remaining % 256) :: scriptNumberBytes (remaining / 256)
  else []

/-- `script_number`, which reads the value as unsigned. -/
def scriptNumber (value : Int32) : List UInt8 :=
  let result := scriptNumberBytes value.toUInt32.toNat
  if result.getLast?.any fun byte => byte &&& 0x80 != 0 then result ++ [0] else result

def coinbaseHeightPrefix (height : Int32) : List UInt8 :=
  if height = 0 then [0]
  else if 1 ≤ height && height ≤ 16 then [UInt8.ofNat (0x50 + height.toUInt32.toNat)]
  else
    let number := scriptNumber height
    UInt8.ofNat number.length :: number

def startsWith (bytes start : List UInt8) : Bool :=
  start.length ≤ bytes.length && start == bytes.take start.length

def witnessCommitmentHash (doubleSha256 : ByteHash) (witnessRoot : Uint256)
    (nonce : List UInt8) : Uint256 :=
  doubleSha256 (hashBytes witnessRoot ++ nonce)

/-! ## Facts -/

structure Coin where
  output : TxOutput
  height : Int32
  coinbase : Bool
  previousMedianTimePast : Int64
  deriving DecidableEq, Repr

structure SpendFacts where
  inputValue : Int64
  outputValue : Int64
  fee : Int64
  deriving DecidableEq, Repr

structure SpentOutput where
  point : COutPoint
  previousCoin : Coin
  deriving DecidableEq, Repr

structure CreatedOutput where
  point : COutPoint
  output : TxOutput
  height : Int32
  coinbase : Bool
  previousMedianTimePast : Int64
  deriving DecidableEq, Repr

structure BlockFacts where
  hash : Uint256
  merkleRoot : Uint256
  transactionCount : Nat
  serializedSize : Nat
  strippedSize : Nat
  weight : Nat
  legacySigopCost : Nat
  sigopCost : Nat
  witnessMerkleRoot : Uint256
  hasWitness : Bool
  commitment : Option WitnessCommitment
  transactions : List TransactionFacts
  spends : List SpendFacts := []
  spentOutputs : List SpentOutput := []
  createdOutputs : List CreatedOutput := []
  totalFees : Int64 := 0
  coinbaseOutputValue : Int64 := 0
  deriving DecidableEq, Repr

/-! ## The rules -/

section Assessment

variable (doubleSha256 : ByteHash)

def blockLegacySigopCount (transactions : List Transaction) : Nat :=
  transactions.foldl (fun count tx => count + legacySigopCount tx) 0

def intrinsicFacts (candidate : Block) (transactionFacts : List TransactionFacts) : BlockFacts :=
  let transactions := candidate.transactions
  let sigopCost := blockLegacySigopCount transactions * witnessScaleFactor
  { hash := candidate.header.hash doubleSha256
    merkleRoot := (merkleRoot doubleSha256 transactions).1
    transactionCount := transactions.length
    serializedSize := candidate.serializedSize
    strippedSize := candidate.strippedSerializedSize
    weight := candidate.weight
    legacySigopCost := sigopCost
    sigopCost := sigopCost
    witnessMerkleRoot := witnessMerkleRoot doubleSha256 transactions
    hasWitness := hasWitness transactions
    commitment := transactions.head?.bind findWitnessCommitment
    transactions := transactionFacts }

def assessBlockIntrinsic (candidate : Block) (context : BlockLocalContext) :
    VerifyResult BlockFacts := do
  let transactions := candidate.transactions
  require (!transactions.isEmpty) .l01BlockNonEmpty "block has no transactions"
  require (!(exceedsWeightUnits transactions.length context.limits.maxBlockWeight ||
      exceedsWeightUnits candidate.strippedSerializedSize context.limits.maxBlockWeight))
    .l04OriginalBlockSize "block stripped size exceeds maximum weight"
  let merkle := merkleRoot doubleSha256 transactions
  require (!(context.checkMerkleRoot && candidate.header.merkleRoot != merkle.1))
    .l02MerkleRoot "block merkle root does not match transactions"
  require (!(context.checkMerkleRoot && merkle.2))
    .l03MerkleMutation "block merkle tree is mutated by duplicate hashes"
  require (transactions.head?.any isCoinbase) .l05CoinbasePosition
    "first transaction is not coinbase"
  require (transactions.tail.all fun tx => !isCoinbase tx) .l05CoinbasePosition
    "block contains more than one coinbase"
  let transactionFacts ← transactions.mapM fun tx =>
    assessTransactionIntrinsic doubleSha256 tx context.limits.transactions
  require (blockLegacySigopCount transactions ≤
      context.limits.maxLegacySigopCost / witnessScaleFactor)
    .l06LegacySigops "block legacy sigop count exceeds limit"
  pure (intrinsicFacts doubleSha256 candidate transactionFacts)

/-- The input that a block rule reads first.  A block that passed the intrinsic rules has
one. -/
def firstInput (candidate : Block) : TxInput :=
  (candidate.transactions.head?.bind fun tx => tx.inputs.head?).getD ⟨⟨0, 0⟩, [], 0, []⟩

/-- The rules for a commitment that is present, once they are active. -/
def requireWitnessCommitment (segwitActive : Bool) (facts : BlockFacts)
    (coinbaseWitness : List (List UInt8)) : VerifyResult Unit :=
  match segwitActive, facts.commitment with
  | true, some commitment => do
      let nonce := coinbaseWitness.headD []
      require (coinbaseWitness.length == 1 && nonce.length == 32) .c06WitnessNoncePresence
        "coinbase witness nonce is not exactly one 32-byte item"
      require (commitment.hash == witnessCommitmentHash doubleSha256 facts.witnessMerkleRoot nonce)
        .c07WitnessMerkleCommitment "witness commitment hash does not match witness merkle root"
  | _, _ => pure ()

def assessBlockContextual (candidate : Block) (context : BlockContextualContext) :
    VerifyResult BlockFacts := do
  let facts ← assessBlockIntrinsic doubleSha256 candidate context.localContext
  require (!(!context.deployments.segwitActive && facts.hasWitness)) .c02PreSegwitNoWitness
    "pre-segwit block contains witness data"
  require (facts.weight ≤ context.localContext.limits.maxBlockWeight) .c03BlockWeight
    "block weight exceeds maximum weight"
  candidate.transactions.forM fun tx => do
    let _ ← assessTransactionFinality doubleSha256 tx
      ⟨context.localContext.limits.transactions.limits, context.height, context.locktimeCutoff⟩
  require (!context.deployments.heightInCoinbaseActive ||
      startsWith (firstInput candidate).script (coinbaseHeightPrefix context.height))
    .c04CoinbaseHeight "coinbase height commitment is invalid"
  require (!(context.deployments.segwitActive && facts.hasWitness && facts.commitment.isNone))
    .c05WitnessCommitmentPresence "segwit block with witness data has no witness commitment"
  requireWitnessCommitment doubleSha256 context.deployments.segwitActive facts
    (firstInput candidate).witness
  pure facts

end Assessment

end Validation

end Champy
