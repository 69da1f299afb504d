import Champy.BlockChecksAgreement
import Mathlib.Tactic.IntervalCases

/-!
# Agreement of the contextual block checks

The rules about lock times, the height in the coinbase, the witness commitment and the
weight, read once as `ContextuallyValid` and compared with both libraries.
-/

namespace Champy

open Protocol Exec List Consensus.CMutableTransaction Int32

namespace Validation

/-! ## Lock times -/

theorem isFinalTx_toCoreTransaction (hash256 : ByteHash) (tx : Transaction)
    (limits : TransactionLimits) (height : Int32) (cutoff : UInt32) :
    isFinalTx (toCoreTransaction hash256 tx) height (Int64.ofNat cutoff.toNat) =
      finalUnderLocktime tx ⟨limits, height, cutoff⟩ := by
  have threshold : (tx.locktime.toNat : Int) < lockTimeThreshold ↔
      tx.locktime < locktimeThreshold := by
    rw [UInt32.lt_iff_toNat_lt, lockTimeThreshold]
    exact Int.ofNat_lt
  have sequences : ((toCoreTransaction hash256 tx).vin.all fun txin =>
      txin.nSequence == CTxIn.sequenceFinal) =
        tx.inputs.all fun input => input.sequence == 0xffffffff := all_map
  have locktime : (toCoreTransaction hash256 tx).nLockTime = tx.locktime := rfl
  simp only [isFinalTx, finalUnderLocktime, locktime, threshold, toInt_ofNat_toNat, sequences]

/-! ## The height in the coinbase -/

theorem scriptNumMagnitude_eq (value : Nat) : scriptNumMagnitude value = scriptNumberBytes value := by
  fun_induction scriptNumMagnitude value with
  | case1 value pos ih => rw [scriptNumberBytes, if_pos pos, ih]
  | case2 value zero => rw [scriptNumberBytes, if_neg zero]

variable {hash256 : ByteHash} {block : Block} {height : Int32}
  {coinbase : CTransaction} {cutoff : UInt32} {value : Nat} {input : TxInput}

theorem length_scriptNumberBytes_le {width : Nat} (bound : value < 256 ^ width) :
    (scriptNumberBytes value).length ≤ width := by
  induction width generalizing value with
  | zero =>
    have zero : value = 0 := by omega
    rw [zero, scriptNumberBytes, if_neg (Nat.lt_irrefl 0)]
    exact Nat.le_refl _
  | succ width ih =>
    rw [scriptNumberBytes]
    split
    · rw [length_cons]
      apply Nat.succ_le_succ
      apply ih
      rw [Nat.pow_succ] at bound
      omega
    · exact Nat.zero_le _

theorem scriptNumberBytes_ne_nil (pos : 0 < value) : scriptNumberBytes value ≠ [] := by
  rw [scriptNumberBytes, if_pos pos]
  exact cons_ne_nil _ _

theorem scriptNumSerialize_ofNat (pos : 0 < value) (bound : value < 2 ^ 31) :
    scriptNumSerialize (Int64.ofNat value) = scriptNumber (ofNat value) := by
  have notNegative : ¬ Int64.ofNat value < 0 := by
    rw [Int64.lt_iff_toInt_lt, Int64.toInt_ofNat_of_lt (by omega)]
    exact Int.not_lt.mpr (Int.natCast_nonneg value)
  have magnitude : (Int64.ofNat value).toUInt64.toNat = value := by
    rw [Int64.toUInt64_ofNat', UInt64.toNat_ofNat_of_lt' (by rw [UInt64.size]; omega)]
  have unsigned : (ofNat value).toUInt32.toNat = value := by
    rw [toUInt32_ofNat', UInt32.toNat_ofNat_of_lt' (by rw [UInt32.size]; omega)]
  obtain ⟨last, lastEq⟩ : ∃ last, (scriptNumberBytes value).getLast? = some last :=
    Option.isSome_iff_exists.mp (by simp [scriptNumberBytes_ne_nil pos])
  simp only [scriptNumSerialize, withSign, scriptNumber, notNegative, decide_false, Bool.false_eq_true,
    if_false, magnitude, unsigned, scriptNumMagnitude_eq, lastEq, Option.any_some]

theorem length_scriptNumber_lt (bound : value < 2 ^ 31) :
    (scriptNumber (ofNat value)).length < 76 := by
  have unsigned : (ofNat value).toUInt32.toNat = value := by
    rw [toUInt32_ofNat', UInt32.toNat_ofNat_of_lt' (by rw [UInt32.size]; omega)]
  have bytes : (scriptNumberBytes value).length ≤ 4 := length_scriptNumberBytes_le (by omega)
  rw [scriptNumber, unsigned]
  split
  · rw [length_append, length_singleton]
    omega
  · omega

theorem pushInt64_ofNat (bound : value < 2 ^ 31) :
    pushInt64 (Int64.ofNat value) = coinbaseHeightPrefix (ofNat value) := by
  by_cases small : value ≤ 16
  · interval_cases value <;> rfl
  · have wide : (Int64.ofNat value).toInt = value := Int64.toInt_ofNat_of_lt (by omega)
    have narrow : (ofNat value).toInt = value := toInt_ofNat_of_lt bound
    have notSmall : ¬ (decide (Int64.ofNat value = -1) ||
        (decide (1 ≤ Int64.ofNat value) && decide (Int64.ofNat value ≤ 16))) = true := by
      rw [Bool.or_eq_true, Bool.and_eq_true, decide_eq_true_iff, decide_eq_true_iff,
        decide_eq_true_iff, ← Int64.toInt_inj, Int64.le_iff_toInt_le, Int64.le_iff_toInt_le, wide]
      have minusOne : (-1 : Int64).toInt = -1 := rfl
      have sixteen : (16 : Int64).toInt = 16 := rfl
      omega
    have notZero : Int64.ofNat value ≠ 0 := by
      rw [ne_eq, ← Int64.toInt_inj, wide]
      have zero : (0 : Int64).toInt = 0 := rfl
      omega
    have notZero' : ofNat value ≠ 0 := by
      rw [ne_eq, ← toInt_inj, narrow]
      have zero : (0 : Int32).toInt = 0 := rfl
      omega
    have notSmall' : ¬ (decide (1 ≤ ofNat value) && decide (ofNat value ≤ 16)) = true := by
      rw [Bool.and_eq_true, decide_eq_true_iff, decide_eq_true_iff, le_iff_toInt_le,
        le_iff_toInt_le, narrow]
      have sixteen : (16 : Int32).toInt = 16 := rfl
      omega
    have short := length_scriptNumber_lt bound
    rw [pushInt64, if_neg notSmall, if_neg notZero, coinbaseHeightPrefix, if_neg notZero',
      if_neg notSmall', scriptNumSerialize_ofNat (by omega) bound]
    exact congrArg (· ++ scriptNumber (ofNat value)) (if_pos short)

theorem pushInt64_eq_coinbaseHeightPrefix (nonneg : 0 ≤ height) :
    pushInt64 height.toInt64 = coinbaseHeightPrefix height := by
  have bound := toNatClampNeg_lt height
  have same := ofNat_toNatClampNeg height nonneg
  have widened : height.toInt64 = Int64.ofNat height.toNatClampNeg := by
    apply Int64.toInt_inj.mp
    rw [toInt_toInt64, Int64.toInt_ofNat_of_lt (by omega), ← toInt_ofNat_of_lt bound, same]
  rw [widened, pushInt64_ofNat bound, same]

/-! ## Weight and witnesses -/

section Witnesses

variable (hash256) (tx : Transaction) (block)

theorem hasWitness_toCoreTransaction : (toCoreTransaction hash256 tx).hasWitness = tx.hasWitness :=
  hasWitness_toCoreMutable tx

theorem any_hasWitness_toCoreBlock : (toCoreBlock hash256 block).vtx.any CTransaction.hasWitness =
      hasWitness block.transactions := by
  rw [toCoreBlock, any_map, hasWitness]
  apply congrArg
  funext tx
  exact hasWitness_toCoreTransaction hash256 tx

theorem getBlockWeight_toCoreBlock : getBlockWeight (toCoreBlock hash256 block) = block.weight := by
  have bytes : serializeBlock (toCoreBlock hash256 block) true = block.serialize := by
    rw [serialize_block_eq, serializeBlock, Consensus.serializeVector, Consensus.serializeVector,
      toCoreBlock, length_map, length_map, flatMap_map, flatMap_map]
    rfl
  rw [getBlockWeight, strippedSize_toCoreBlock, bytes]
  rfl

theorem witnessHash_toCoreTransaction :
    (toCoreTransaction hash256 tx).witnessHash hash256 = tx.witnessId hash256 := by
  have stripped := serializeTransaction_toCoreMutable tx false
  have full := serializeTransaction_toCoreMutable tx true
  rw [CTransaction.witnessHash, hasWitness_toCoreTransaction, Transaction.witnessId]
  cases witness : tx.hasWitness with
  | true => exact congrArg hash256 full
  | false =>
    have same : serializeTransaction tx true = serializeTransaction tx false := by
      rw [serializeTransaction, serializeTransaction, witness]
      rfl
    rw [same, ← stripped]
    rfl

theorem blockWitnessMerkleRoot_toCoreBlock :
    blockWitnessMerkleRoot hash256 (toCoreBlock hash256 block).vtx =
      witnessMerkleRoot hash256 block.transactions := by
  have leaves : witnessMerkleLeaves hash256 (toCoreBlock hash256 block).vtx =
      witnessLeaves hash256 block.transactions := by
    rw [toCoreBlock]
    cases block.transactions with
    | nil => rfl
    | cons coinbase later =>
      rw [map_cons, witnessMerkleLeaves, witnessLeaves, map_map]
      apply congrArg
      apply map_congr_left
      intro tx _
      exact witnessHash_toCoreTransaction hash256 tx
  rw [blockWitnessMerkleRoot, leaves, witnessMerkleRoot, merkleLoop_eq]

end Witnesses

/-! ## The witness commitment -/

theorem hashBytes_hashOfBytes {bytes : List UInt8} (length : bytes.length = 32) :
    hashBytes (hashOfBytes bytes) = bytes := by
  have bound : readLE bytes < 2 ^ 256 := by
    have below := readLE_lt bytes
    rw [length] at below
    exact below
  have num : (hashOfBytes bytes).toNat = readLE bytes := by
    rw [hashOfBytes, BitVec.toNat_ofNat, Nat.mod_eq_of_lt bound]
  rw [hashBytes, num, ← length]
  exact writeLE_readLE bytes

/-- What the two loops over the outputs of the coinbase have found: nothing, or the same
output. -/
def SameCommitment (outputs : List TxOutput) (index : Int32)
    (commitment : Option WitnessCommitment) : Prop :=
  (index = -1 ∧ commitment = none) ∨
    ∃ position output, outputs[position]? = some output ∧
      hasWitnessCommitmentPrefix output.script = true ∧ index = ofNat position ∧
      commitment = some ⟨UInt32.ofNat position, hashOfBytes ((output.script.drop 6).take 32)⟩

theorem hasWitnessCommitmentPrefix_toCoreTxOutput (output : TxOutput) :
    Champy.hasWitnessCommitmentPrefix (toCoreTxOutput output).scriptPubKey =
      hasWitnessCommitmentPrefix output.script :=
  rfl

theorem sameCommitment_foldl {outputs : List TxOutput} {entries : List (TxOutput × Nat)}
    {index : Int32} {commitment : Option WitnessCommitment}
    (placed : ∀ entry ∈ entries, outputs[entry.2]? = some entry.1)
    (same : SameCommitment outputs index commitment) :
    SameCommitment outputs (entries.foldl (fun commitpos entry =>
        if Champy.hasWitnessCommitmentPrefix (toCoreTxOutput entry.1).scriptPubKey then
          ofNat entry.2 else commitpos) index)
      (entries.foldl (fun res entry =>
        if hasWitnessCommitmentPrefix entry.1.script then
          some ⟨UInt32.ofNat entry.2, hashOfBytes ((entry.1.script.drop 6).take 32)⟩
        else res) commitment) := by
  induction entries generalizing index commitment with
  | nil => exact same
  | cons entry entries ih =>
    obtain ⟨here, later⟩ := forall_mem_cons.mp placed
    rw [foldl_cons, foldl_cons, hasWitnessCommitmentPrefix_toCoreTxOutput]
    apply ih later
    by_cases isCommitment : hasWitnessCommitmentPrefix entry.1.script = true
    · rw [if_pos isCommitment, if_pos isCommitment]
      exact Or.inr ⟨entry.2, entry.1, here, isCommitment, rfl, rfl⟩
    · rw [if_neg isCommitment, if_neg isCommitment]
      exact same

theorem sameCommitment_toCoreTransaction (hash256 : ByteHash) (coinbase : Transaction) :
    SameCommitment coinbase.outputs (getWitnessCommitmentIndex (toCoreTransaction hash256 coinbase))
      (findWitnessCommitment coinbase) := by
  have placed : ∀ entry ∈ coinbase.outputs.zipIdx, coinbase.outputs[entry.2]? = some entry.1 := by
    intro entry mem
    exact mk_mem_zipIdx_iff_getElem?.mp mem
  rw [getWitnessCommitmentIndex, findWitnessCommitment]
  simp only [toCoreTransaction, toCoreMutable, toTransaction, zipIdx_map, foldl_map]
  exact sameCommitment_foldl placed (Or.inl ⟨rfl, rfl⟩)

/-! ## The contextual rules -/

/-- The rules that depend on where the block stands. -/
structure ContextuallyValid (doubleSha256 : ByteHash) (block : Block)
    (height : Int32) (cutoff : UInt32) (deployments : BlockDeployments) : Prop where
  weight : block.weight ≤ 4000000
  final : ∀ tx ∈ block.transactions, finalUnderLocktime tx ⟨{}, height, cutoff⟩ = true
  coinbaseHeight : deployments.heightInCoinbaseActive = true →
    startsWith (firstInput block).script (coinbaseHeightPrefix height) = true
  witness :
    match deployments.segwitActive, block.transactions.head?.bind findWitnessCommitment with
    | true, some commitment =>
      ((firstInput block).witness.length = 1 ∧ ((firstInput block).witness.headD []).length = 32) ∧
        commitment.hash = witnessCommitmentHash doubleSha256
          (witnessMerkleRoot doubleSha256 block.transactions) ((firstInput block).witness.headD [])
    | _, _ => hasWitness block.transactions = false

/-- The finality loop, once every transaction is accepted by itself. -/
theorem forM_assessTransactionFinality_iff {txs : List Transaction}
    (checked : ∀ tx ∈ txs, checkTransaction (toCoreTransaction hash256 tx) = .ok ()) :
    (txs.forM fun tx => do
        let _ ← assessTransactionFinality hash256 tx ⟨{}, height, cutoff⟩) = .ok () ↔
      ∀ tx ∈ txs, finalUnderLocktime tx ⟨{}, height, cutoff⟩ = true := by
  rw [forM_eq_ok]
  apply forall₂_congr
  intro tx mem
  obtain ⟨total, outputs⟩ := (checkedTransaction_of_checkTransaction (checked tx mem)).valueOut
  have ran : assessTransactionIntrinsic hash256 tx {} = .ok (transactionFactsOf hash256 tx total) :=
    assessTransactionIntrinsic_eq_ok.mpr
      ⟨checked tx mem, total, CTransaction.getValueOut_eq_ok.mpr outputs, rfl⟩
  simp only [assessTransactionFinality, ran, require, ok_bind, bind_eq_ok,
    ensure_eq_ok, exists_const, pure_eq_ok]
  simp

/-- The three rules about witnesses, read together. -/
theorem requireWitnessCommitment_iff {segwitActive : Bool} {facts : BlockFacts}
    {witness : List (List UInt8)} :
    ((!(!segwitActive && facts.hasWitness)) = true ∧
        (!(segwitActive && facts.hasWitness && facts.commitment.isNone)) = true ∧
        requireWitnessCommitment hash256 segwitActive facts witness = .ok ()) ↔
      match segwitActive, facts.commitment with
      | true, some commitment =>
        (witness.length = 1 ∧ (witness.headD []).length = 32) ∧
          commitment.hash = witnessCommitmentHash hash256 facts.witnessMerkleRoot (witness.headD [])
      | _, _ => facts.hasWitness = false := by
  cases segwitActive with
  | false => simp [requireWitnessCommitment]
  | true =>
    cases commitment : facts.commitment with
    | none => simp [requireWitnessCommitment, commitment]
    | some found =>
      simp [requireWitnessCommitment, commitment, require, bind_eq_ok]

variable {deployments : BlockDeployments}

theorem assessBlockContextual_eq_ok {facts : BlockFacts} :
    assessBlockContextual hash256 block ⟨{}, height, cutoff, deployments⟩ = .ok facts ↔
      assessBlockIntrinsic hash256 block {} = .ok facts ∧
        ContextuallyValid hash256 block height cutoff deployments := by
  simp only [assessBlockContextual, bind_eq_ok, require, ensure_eq_ok, exists_const,
    pure_eq_ok, Except.ok.injEq, decide_eq_true_iff]
  constructor
  · intro ok
    obtain ⟨found, intrinsic, preSegwit, weight, ⟨⟩, final, coinbaseHeight, presence, ⟨⟩, committed,
      rfl⟩ := ok
    obtain ⟨valid, transactionFacts, -, rfl⟩ := assessBlockIntrinsic_eq_ok.mp intrinsic
    have witness := requireWitnessCommitment_iff.mp ⟨preSegwit, presence, committed⟩
    refine ⟨intrinsic, weight, (forM_assessTransactionFinality_iff valid.transactions).mp final, ?_,
      witness⟩
    intro active
    rw [active, Bool.not_true, Bool.false_or] at coinbaseHeight
    exact coinbaseHeight
  · intro ok
    obtain ⟨intrinsic, contextual⟩ := ok
    obtain ⟨valid, transactionFacts, -, rfl⟩ := assessBlockIntrinsic_eq_ok.mp intrinsic
    obtain ⟨preSegwit, presence, committed⟩ := (@requireWitnessCommitment_iff hash256
      deployments.segwitActive (intrinsicFacts hash256 block transactionFacts)
      (firstInput block).witness).mpr contextual.witness
    have coinbaseHeight : (!deployments.heightInCoinbaseActive ||
        startsWith (firstInput block).script (coinbaseHeightPrefix height)) = true := by
      cases active : deployments.heightInCoinbaseActive with
      | false => rfl
      | true => exact contextual.coinbaseHeight active
    exact ⟨_, intrinsic, preSegwit, contextual.weight, (),
      (forM_assessTransactionFinality_iff valid.transactions).mpr contextual.final,
      coinbaseHeight, presence, (), committed, rfl⟩

/-! ## The contextual stage -/

theorem IntrinsicallyValid.exists_coinbase (valid : IntrinsicallyValid hash256 block) :
    ∃ coinbase later input, block.transactions = coinbase :: later ∧ coinbase.inputs = [input] ∧
      isCoinbase coinbase = true ∧ coinbase.outputs.length ≤ 1000000 := by
  obtain ⟨coinbase, later, txs⟩ := exists_cons_of_ne_nil valid.nonempty
  have first := valid.coinbaseFirst
  rw [txs, head?_cons, Option.any_some] at first
  have checked := checkedTransaction_of_checkTransaction
    (valid.transactions coinbase (txs ▸ mem_cons_self))
  have outputs : coinbase.outputs.length ≤ 1000000 := by
    have bound := checked.vout_length
    rwa [toCoreTransaction, toTransaction, toCoreMutable, length_map] at bound
  obtain ⟨input, inputs⟩ : ∃ input, coinbase.inputs = [input] := by
    rw [isCoinbase] at first
    split at first
    next input single => exact ⟨input, single⟩
    next => cases first
  exact ⟨coinbase, later, input, txs, inputs, first, outputs⟩

variable {later : List Transaction}

theorem vtx_toCoreBlock_of_cons (hash256 : ByteHash) {coinbase : Transaction}
    (txs : block.transactions = coinbase :: later) :
    (toCoreBlock hash256 block).vtx = toCoreTransaction hash256 coinbase ::
      later.map (toCoreTransaction hash256) := by
  rw [toCoreBlock, txs, map_cons]

theorem vin_toCoreTransaction_of_singleton (hash256 : ByteHash) {tx : Transaction}
    (inputs : tx.inputs = [input]) :
    (toCoreTransaction hash256 tx).vin = [toCoreTxInput input] := by
  rw [toCoreTransaction, toTransaction, toCoreMutable, inputs]
  rfl

theorem firstInput_of_cons {coinbase : Transaction}
    (txs : block.transactions = coinbase :: later) (inputs : coinbase.inputs = [input]) :
    firstInput block = input := by
  rw [firstInput, txs, head?_cons, Option.bind_some, inputs]
  rfl

theorem checkBlockFinalTransactions_eq_ok_iff (hash256 : ByteHash) (block : Block)
    (height : Int32) (cutoff : UInt32) :
    checkBlockFinalTransactions (toCoreBlock hash256 block).vtx height
        (Int64.ofNat cutoff.toNat) = .ok () ↔
      ∀ tx ∈ block.transactions, finalUnderLocktime tx ⟨{}, height, cutoff⟩ = true := by
  simp only [checkBlockFinalTransactions, forM_eq_ok, ensure_eq_ok, toCoreBlock,
    forall_mem_map, isFinalTx_toCoreTransaction hash256 _ {}]

theorem checkBlockCoinbaseHeight_eq_ok_iff {coinbase : Transaction}
    (inputs : coinbase.inputs = [input]) (first : isCoinbase coinbase = true)
    (nonneg : 0 ≤ height) :
    checkBlockCoinbaseHeight (toCoreTransaction hash256 coinbase) height = .ok () ↔
      startsWith input.script (coinbaseHeightPrefix height) = true := by
  have vin := vin_toCoreTransaction_of_singleton hash256 inputs
  have script : (toCoreTxInput input).scriptSig = input.script := rfl
  simp only [checkBlockCoinbaseHeight, bind_eq_ok, ensure_eq_ok, exists_const,
    isCoinbase_toCoreTransaction, first, vin, isEmpty_cons, headD_cons, script,
    pushInt64_eq_coinbaseHeightPrefix nonneg]
  simp [startsWith]

variable {later : List CTransaction}

theorem commitmentScript_ofNat {pos : Nat} {txout : CTxOut}
    (found : coinbase.vout[pos]? = some txout) (bound : pos < 2 ^ 31)
    (isCommitment : Champy.hasWitnessCommitmentPrefix txout.scriptPubKey = true) :
    commitmentScript (coinbase :: later) (ofNat pos) = .ok (coinbase, txout.scriptPubKey) := by
  have value : (ofNat pos).toInt = pos := toInt_ofNat_of_lt bound
  have notNegative : ¬ ofNat pos < 0 := by
    rw [lt_iff_toInt_lt, value]
    exact Int.not_lt.mpr (Int.natCast_nonneg pos)
  have index : (ofNat pos).toNatClampNeg = pos := by
    rw [toNatClampNeg, value, Int.toNat_natCast]
  rw [commitmentScript, head?_cons]
  simp only [if_neg notNegative, index, found, if_pos isCommitment]
  rfl

theorem checkWitnessCommitment_eq_ok_iff {txin : CTxIn} {witnessRoot : Uint256} {script : CScript}
    (inputs : coinbase.vin = [txin])
    (isCommitment : Champy.hasWitnessCommitmentPrefix script = true) :
    checkWitnessCommitment hash256 witnessRoot coinbase script = .ok () ↔
      (txin.scriptWitness.length = 1 ∧ (txin.scriptWitness.headD []).length = 32) ∧
        hashOfBytes ((script.drop 6).take 32) =
          witnessCommitmentHash hash256 witnessRoot (txin.scriptWitness.headD []) := by
  have long : 38 ≤ script.length := by
    simp only [Champy.hasWitnessCommitmentPrefix, Bool.and_eq_true, decide_eq_true_iff]
      at isCommitment
    omega
  have length : ((script.drop 6).take 32).length = 32 := by
    rw [length_take, length_drop]
    omega
  rw [checkWitnessCommitment, inputs]
  simp only [bind_eq_ok, ensure_eq_ok, exists_const, Bool.and_eq_true, beq_iff_eq]
  apply and_congr_right
  intro _
  rw [witnessCommitmentHash]
  constructor
  · intro bytes
    apply hashBytes_injective
    rw [hashBytes_hashOfBytes length, bytes]
  · intro hash
    rw [← hash, hashBytes_hashOfBytes length]

variable {facts : Champy.BlockFacts} {vtx : List CTransaction}

theorem checkBlockWitnessMalleation_of_none (count : facts.structural.transactionCount = vtx.length)
    (index : facts.witnessCommitmentIndex = none) (segwitActive : Bool) :
    checkBlockWitnessMalleation hash256 vtx facts segwitActive = .ok () ↔
      facts.hasWitness = false := by
  simp only [checkBlockWitnessMalleation, checkBlockFactsMatchTransactions, index, count]
  cases segwitActive <;> simp [bind_eq_ok]

theorem checkBlockWitnessMalleation_of_some {pos : Int32} {committed : CTransaction × CScript}
    (count : facts.structural.transactionCount = vtx.length)
    (index : facts.witnessCommitmentIndex = some pos)
    (script : commitmentScript vtx pos = .ok committed) (segwitActive : Bool) :
    checkBlockWitnessMalleation hash256 vtx facts segwitActive = .ok () ↔
      if segwitActive then
        checkWitnessCommitment hash256 facts.witnessMerkleRoot committed.1 committed.2 = .ok ()
      else facts.hasWitness = false := by
  simp only [checkBlockWitnessMalleation, checkBlockFactsMatchTransactions, index, count]
  cases segwitActive <;> simp [bind_eq_ok, script]

theorem witnessCommitmentIndex_computeBlockFacts (hash256 : ByteHash)
    {block : CBlock} (vtx : block.vtx = coinbase :: later) :
    (computeBlockFacts hash256 block).witnessCommitmentIndex =
      if getWitnessCommitmentIndex coinbase = -1 then none
      else some (getWitnessCommitmentIndex coinbase) := by
  rw [computeBlockFacts, vtx]
  rfl

theorem checkBlockWitnessMalleation_eq_ok_iff (valid : IntrinsicallyValid hash256 block)
    (segwitActive : Bool) :
    checkBlockWitnessMalleation hash256 (toCoreBlock hash256 block).vtx
        (computeBlockFacts hash256 (toCoreBlock hash256 block)) segwitActive = .ok () ↔
      match segwitActive, block.transactions.head?.bind findWitnessCommitment with
      | true, some commitment =>
        ((firstInput block).witness.length = 1 ∧
            ((firstInput block).witness.headD []).length = 32) ∧
          commitment.hash = witnessCommitmentHash hash256
            (witnessMerkleRoot hash256 block.transactions)
            ((firstInput block).witness.headD [])
      | _, _ => hasWitness block.transactions = false := by
  obtain ⟨coinbase, later, input, txs, inputs, -, outputs⟩ := valid.exists_coinbase
  have vtx := vtx_toCoreBlock_of_cons hash256 txs
  have vin := vin_toCoreTransaction_of_singleton hash256 inputs
  have first := firstInput_of_cons txs inputs
  have head : block.transactions.head?.bind findWitnessCommitment =
      findWitnessCommitment coinbase := by
    rw [txs, head?_cons, Option.bind_some]
  have index := witnessCommitmentIndex_computeBlockFacts hash256 vtx
  have witnesses : (computeBlockFacts hash256 (toCoreBlock hash256 block)).hasWitness =
      hasWitness block.transactions := any_hasWitness_toCoreBlock hash256 block
  have root : (computeBlockFacts hash256 (toCoreBlock hash256 block)).witnessMerkleRoot =
        witnessMerkleRoot hash256 block.transactions :=
    blockWitnessMerkleRoot_toCoreBlock hash256 block
  rw [head, first]
  rcases sameCommitment_toCoreTransaction hash256 coinbase with
    ⟨noIndex, noCommitment⟩ | ⟨pos, output, found, isCommitment, indexEq, commitmentEq⟩
  · rw [if_pos noIndex] at index
    rw [checkBlockWitnessMalleation_of_none rfl index, witnesses, noCommitment]
    cases segwitActive <;> rfl
  · have bound : pos < 2 ^ 31 := by
      have small := (List.getElem?_eq_some_iff.mp found).1
      omega
    have notMissing : ofNat pos ≠ -1 := by
      rw [ne_eq, ← toInt_inj, toInt_ofNat_of_lt bound]
      have minusOne : (-1 : Int32).toInt = -1 := rfl
      omega
    have txout : (toCoreTransaction hash256 coinbase).vout[pos]? =
        some (toCoreTxOutput output) := by
      rw [toCoreTransaction, toTransaction, toCoreMutable, getElem?_map, found]
      rfl
    have script : commitmentScript (toCoreBlock hash256 block).vtx (ofNat pos) =
        .ok (toCoreTransaction hash256 coinbase, output.script) := by
      rw [vtx]
      exact commitmentScript_ofNat txout bound isCommitment
    rw [indexEq, if_neg notMissing] at index
    rw [checkBlockWitnessMalleation_of_some rfl index script, witnesses, root, commitmentEq]
    cases segwitActive with
    | false => exact Iff.rfl
    | true => exact checkWitnessCommitment_eq_ok_iff vin isCommitment

theorem checkBlockContextualTransactionRules_eq_ok_iff
    (valid : IntrinsicallyValid hash256 block) (nonneg : 0 ≤ height) (heightActive : Bool) :
    checkBlockContextualTransactionRules (toCoreBlock hash256 block).vtx
        ⟨height, Int64.ofNat cutoff.toNat, heightActive⟩ = .ok () ↔
      (∀ tx ∈ block.transactions, finalUnderLocktime tx ⟨{}, height, cutoff⟩ = true) ∧
        (heightActive = true →
          startsWith (firstInput block).script (coinbaseHeightPrefix height) = true) := by
  obtain ⟨coinbase, later, input, txs, inputs, isFirst, -⟩ := valid.exists_coinbase
  have vtx := vtx_toCoreBlock_of_cons hash256 txs
  have first := firstInput_of_cons txs inputs
  have final := checkBlockFinalTransactions_eq_ok_iff hash256 block height cutoff
  have coinbaseHeight := @checkBlockCoinbaseHeight_eq_ok_iff hash256 height input coinbase
    inputs isFirst nonneg
  rw [vtx] at final
  rw [vtx, first, ← final, ← coinbaseHeight]
  cases heightActive <;> simp [checkBlockContextualTransactionRules, bind_unit_eq_ok]

theorem validateBlockContextualBodyStage_accepts_iff
    {debugContext : String} (valid : IntrinsicallyValid hash256 block)
    (nonneg : 0 ≤ height) :
    (validateBlockContextualBodyStage hash256 (toCoreBlock hash256 block)
        ⟨⟨height, Int64.ofNat cutoff.toNat, deployments.heightInCoinbaseActive⟩,
          deployments.segwitActive⟩ debugContext).accepts ↔
      ContextuallyValid hash256 block height cutoff deployments := by
  have weight : (computeBlockFacts hash256 (toCoreBlock hash256 block)).weight =
      block.weight := getBlockWeight_toCoreBlock hash256 block
  have transactionRules := @checkBlockContextualTransactionRules_eq_ok_iff hash256 block height
    cutoff valid nonneg deployments.heightInCoinbaseActive
  have witnessRules := checkBlockWitnessMalleation_eq_ok_iff valid deployments.segwitActive
  simp only [accepts, validateBlockContextualBodyStage, checkBlockWitnessRules,
    checkBlockWeight, bind_eq_ok, ensure_eq_ok, exists_const, weight, pure_eq_ok,
    decide_eq_true_iff]
  constructor
  · intro ok
    obtain ⟨-, ⟨⟩, txs, ⟨⟨⟩, witness, light⟩, -⟩ := ok
    obtain ⟨final, coinbaseHeight⟩ := transactionRules.mp txs
    exact ⟨light, final, coinbaseHeight, witnessRules.mp witness⟩
  · intro contextual
    exact ⟨_, (), transactionRules.mpr ⟨contextual.final, contextual.coinbaseHeight⟩,
      ⟨(), witnessRules.mpr contextual.witness, contextual.weight⟩, rfl⟩

/-! ## Both libraries -/

/-- The value library accepts exactly the blocks that the consensus stages accept: by
themselves, and at any height that is not negative with any cutoff and deployments. -/
theorem assessBlock_agrees_with_stages (doubleSha256 : List UInt8 → Uint256) (block : Block) :
    ((assessBlockIntrinsic doubleSha256 block {}).accepts ↔
        (validateBlockStructuralStage (sha256D64 doubleSha256) (toCoreBlock doubleSha256 block)
          ⟨true⟩).accepts) ∧
      ∀ (height : Int32) (cutoff : UInt32) (deployments : BlockDeployments)
        (debugContext : String), 0 ≤ height →
        ((assessBlockIntrinsic doubleSha256 block {}).accepts ∧
            (assessBlockContextual doubleSha256 block ⟨{}, height, cutoff, deployments⟩).accepts ↔
          (validateBlockStructuralStage (sha256D64 doubleSha256) (toCoreBlock doubleSha256 block)
              ⟨true⟩).accepts ∧
            (validateBlockContextualBodyStage doubleSha256 (toCoreBlock doubleSha256 block)
              ⟨⟨height, Int64.ofNat cutoff.toNat, deployments.heightInCoinbaseActive⟩,
                deployments.segwitActive⟩ debugContext).accepts) := by
  have structural : (validateBlockStructuralStage (sha256D64 doubleSha256)
      (toCoreBlock doubleSha256 block) ⟨true⟩).accepts ↔ IntrinsicallyValid doubleSha256 block := by
    rw [← validateBlockStructuralStage_eq_ok_iff]
    constructor
    · intro accepted
      obtain ⟨⟨⟩, returned⟩ := accepted
      exact returned
    · intro returned
      exact ⟨(), returned⟩
  rw [structural]
  apply And.intro assessBlockIntrinsic_accepts_iff
  intro height cutoff deployments debugContext nonnegative
  rw [assessBlockIntrinsic_accepts_iff]
  apply and_congr_right
  intro valid
  rw [validateBlockContextualBodyStage_accepts_iff valid nonnegative]
  simp only [accepts, assessBlockContextual_eq_ok]
  obtain ⟨facts, assessed⟩ := assessBlockIntrinsic_accepts_iff.mpr valid
  constructor
  · intro accepted
    obtain ⟨-, -, contextual⟩ := accepted
    exact contextual
  · intro contextual
    exact ⟨facts, assessed, contextual⟩

def sampleHeightOneCoinbase : Transaction :=
  ⟨1, [⟨⟨0, 0xffffffff⟩, [0x51, 0x51], 0xffffffff, []⟩], [⟨5000000000, [0x51]⟩], 0⟩

/-- A block with only a coinbase, whose script starts with the height one, for a hash that is
constant. -/
def sampleHeightOneBlock : Block :=
  ⟨⟨0, 0, 0, 0, 0, 0⟩, [sampleHeightOneCoinbase]⟩

theorem sampleHeightOneBlock_structural : validateBlockStructuralStage (sha256D64 fun _ => 0)
      (toCoreBlock (fun _ => 0) sampleHeightOneBlock) ⟨true⟩ = .ok () := by
  have sameBlock : toCoreBlock (fun _ => 0) sampleHeightOneBlock =
      CBlock.ofCoinbase 0 (toCoreTransaction (fun _ => 0) sampleHeightOneCoinbase) := rfl
  rw [sameBlock]
  apply validateBlockStructuralStage_ofCoinbase
  all_goals decide

theorem assessBlock_agrees_sampleHeightOneBlock :
    (assessBlockIntrinsic (fun _ => 0) sampleHeightOneBlock {}).accepts ∧
      (assessBlockContextual (fun _ => 0) sampleHeightOneBlock
        ⟨{}, 1, 0, ⟨false, true⟩⟩).accepts := by
  have valid := validateBlockStructuralStage_eq_ok_iff.mp sampleHeightOneBlock_structural
  have contextual : ContextuallyValid (fun _ => 0) sampleHeightOneBlock 1 0 ⟨false, true⟩ :=
    ⟨by decide +kernel, by decide, by decide, rfl⟩
  exact ((assessBlock_agrees_with_stages (fun _ => 0) sampleHeightOneBlock).2 1 0 ⟨false, true⟩ ""
    (by decide)).mpr ⟨⟨(), sampleHeightOneBlock_structural⟩,
      (validateBlockContextualBodyStage_accepts_iff valid (by decide)).mpr contextual⟩

end Validation

end Champy
