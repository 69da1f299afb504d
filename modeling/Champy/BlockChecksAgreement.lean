import Champy.ContextualStage
import Champy.TransactionChecksAgreement
import Champy.ValidationBlocks

/-!
# Agreement of the block checks

The intrinsic rules of the value library accept the blocks that the structural stage
accepts, and with the contextual rules those that the contextual stage accepts as well.
The counters of signature operations need the size limit: a block within it is too small
for the 32-bit counter of the stage to wrap.
-/

namespace Champy

open Protocol List CTransaction

namespace Validation

/-! ## Merkle roots -/

section Merkle

variable (hash256 : ByteHash)

theorem padLevel_cons_cons (first second : Uint256) (rest : List Uint256) :
    padLevel (first :: second :: rest) = first :: second :: padLevel rest := by
  have parity : (first :: second :: rest).length % 2 = rest.length % 2 := by
    rw [length_cons, length_cons]
    omega
  rw [padLevel, padLevel, parity]
  split
  next odd =>
    cases rest with
    | nil => cases odd
    | cons third rest => simp [getLast?_cons]
  next => rfl

variable (hashes : List Uint256)

theorem hashPairs_padLevel :
    hashPairs hash256 (padLevel hashes) = merkleLevel (sha256D64 hash256) hashes := by
  fun_induction merkleLevel (sha256D64 hash256) hashes with
  | case1 => rfl
  | case2 last => rfl
  | case3 first second rest ih =>
    rw [padLevel_cons_cons, hashPairs, ih]
    rfl

theorem pairsRepeat_eq : pairsRepeat hashes = merkleLevelMutated hashes := by
  fun_induction pairsRepeat hashes with
  | case1 first second rest ih => rw [merkleLevelMutated, ih]
  | case2 hashes short =>
    rcases hashes with - | ⟨first, - | ⟨second, rest⟩⟩
    · rfl
    · rfl
    · exact absurd rfl (short first second rest)

theorem merkleLoop_eq :
    merkleLoop hash256 hashes = computeMerkleRootWithMutation (sha256D64 hash256) hashes := by
  fun_induction merkleLoop hash256 hashes with
  | case1 hashes long above ih =>
    rw [computeMerkleRootWithMutation, if_pos long, ← hashPairs_padLevel, ← pairsRepeat_eq, ← ih]
  | case2 hashes short => rw [computeMerkleRootWithMutation, if_neg short]

theorem merkleRoot_eq (txs : List Transaction) : merkleRoot hash256 txs =
      computeMerkleRootWithMutation (sha256D64 hash256)
        ((txs.map (toCoreTransaction hash256)).map hash) := by
  have ids : (txs.map (toCoreTransaction hash256)).map hash = txs.map (Transaction.id hash256) := by
    rw [map_map]
    apply map_congr_left
    intro tx _
    exact congrArg hash256 (serializeTransaction_toCoreMutable tx false)
  rw [merkleRoot, merkleLoop_eq, ids]

end Merkle

/-! ## Sizes and signature operations -/

theorem strippedSize_toCoreBlock (hash256 : ByteHash) (block : Block) :
    (toCoreBlock hash256 block).strippedSize = block.strippedSerializedSize := by
  have txs : ((block.transactions.map (toCoreTransaction hash256)).map strippedSize).sum =
        (block.transactions.flatMap fun tx => serializeTransaction tx false).length := by
    rw [map_map, length_flatMap]
    exact congrArg sum (map_congr_left fun tx _ => strippedSize_toCoreTransaction hash256 tx)
  simp only [CBlock.strippedSize, Block.strippedSerializedSize, Block.serializeStripped,
    toCoreBlock, txs, length_append, length_map, length_writeCompactSize,
    BlockHeader.serialize, hashBytes, writeInt32, writeUInt32, length_writeLE]

theorem foldl_add_eq_sum {β : Type} (measure : β → Nat) (elems : List β) (start : Nat) :
    elems.foldl (fun count elem => count + measure elem) start =
      start + (elems.map measure).sum := by
  induction elems generalizing start with
  | nil => rfl
  | cons elem elems ih =>
    rw [foldl_cons, ih, map_cons, sum_cons, Nat.add_assoc]

theorem sum_map_le_mul {β : Type} {measure size : β → Nat} {factor : Nat} {elems : List β}
    (bound : ∀ elem ∈ elems, measure elem ≤ factor * size elem) :
    (elems.map measure).sum ≤ factor * (elems.map size).sum := by
  induction elems with
  | nil => exact Nat.zero_le _
  | cons elem elems ih =>
    obtain ⟨first, rest⟩ := forall_mem_cons.mp bound
    have later := ih rest
    rw [map_cons, sum_cons, map_cons, sum_cons, Nat.mul_add]
    omega

theorem legacySigopCount_le (tx : Transaction) :
    legacySigopCount tx ≤ 20 * tx.strippedSerializedSize := by
  have inputs : (tx.inputs.map fun input => legacyScriptSigopCount input.script).sum ≤
      20 * (tx.inputs.flatMap TxInput.serialize).length := by
    rw [length_flatMap]
    apply sum_map_le_mul
    intro input _
    have count := sigopCount_le input.script false
    have size := length_script_le_serialize input
    exact Nat.le_trans count (Nat.mul_le_mul_left 20 size)
  have outputs : (tx.outputs.map fun output => legacyScriptSigopCount output.script).sum ≤
      20 * (tx.outputs.flatMap TxOutput.serialize).length := by
    rw [length_flatMap]
    apply sum_map_le_mul
    intro output _
    have count := sigopCount_le output.script false
    have size : output.script.length ≤ output.serialize.length := by
      have sized := length_le_writeSizedBytes output.script
      rw [TxOutput.serialize, length_append]
      omega
    exact Nat.le_trans count (Nat.mul_le_mul_left 20 size)
  rw [legacySigopCount, foldl_add_eq_sum, foldl_add_eq_sum, Transaction.strippedSerializedSize,
    serializeTransaction]
  simp only [length_append]
  omega

theorem blockLegacySigopCount_le (block : Block) :
    blockLegacySigopCount block.transactions ≤ 20 * block.strippedSerializedSize := by
  have txs : (block.transactions.map legacySigopCount).sum ≤
      20 * (block.transactions.flatMap fun tx => serializeTransaction tx false).length := by
    rw [length_flatMap]
    apply sum_map_le_mul
    intro tx _
    exact legacySigopCount_le tx
  rw [blockLegacySigopCount, foldl_add_eq_sum, Block.strippedSerializedSize,
    Block.serializeStripped, length_append]
  omega

/-! ## The intrinsic rules -/

/-- The rules that a block meets by itself, with sizes and counts as numbers. -/
structure IntrinsicallyValid (doubleSha256 : ByteHash) (block : Block) : Prop where
  nonempty : block.transactions ≠ []
  transactionCount : block.transactions.length * 4 ≤ 4000000
  strippedSize : block.strippedSerializedSize * 4 ≤ 4000000
  merkleRoot : merkleRoot doubleSha256 block.transactions = (block.header.merkleRoot, false)
  coinbaseFirst : block.transactions.head?.any isCoinbase = true
  coinbaseOnlyFirst : (block.transactions.tail.all fun tx => !isCoinbase tx) = true
  transactions : ∀ tx ∈ block.transactions,
    checkTransaction (toCoreTransaction doubleSha256 tx) = .ok ()
  sigops : blockLegacySigopCount block.transactions * 4 ≤ 80000

theorem exceedsWeightUnits_eq_false_iff {size : Nat} :
    exceedsWeightUnits size 4000000 = false ↔ size * 4 ≤ 4000000 := by
  rw [exceedsWeightUnits, decide_eq_false_iff_not, witnessScaleFactor]
  omega

theorem mapM_assessTransactionIntrinsic_iff (hash256 : ByteHash) (txs : List Transaction) :
    (∃ facts, txs.mapM (fun tx => assessTransactionIntrinsic hash256 tx {}) = .ok facts) ↔
      ∀ tx ∈ txs, checkTransaction (toCoreTransaction hash256 tx) = .ok () := by
  rw [Exec.mapM_exists_ok_iff]
  apply forall₂_congr
  intro tx _
  simp only [assessTransactionIntrinsic_eq_ok]
  constructor
  · intro ok
    obtain ⟨facts, checked, -⟩ := ok
    exact checked
  · intro checked
    obtain ⟨total, outputs⟩ := (checkedTransaction_of_checkTransaction checked).valueOut
    exact ⟨_, checked, total, getValueOut_eq_ok.mpr outputs, rfl⟩

variable {hash256 : ByteHash} {block : Block}

theorem assessBlockIntrinsic_eq_ok {facts : BlockFacts} :
    assessBlockIntrinsic hash256 block {} = .ok facts ↔ IntrinsicallyValid hash256 block ∧
        ∃ transactionFacts,
          block.transactions.mapM (fun tx => assessTransactionIntrinsic hash256 tx {}) =
              .ok transactionFacts ∧
            facts = intrinsicFacts hash256 block transactionFacts := by
  simp only [assessBlockIntrinsic, require, Exec.bind_eq_ok, Exec.ensure_eq_ok, exists_const,
    Exec.pure_eq_ok, Except.ok.injEq, Bool.true_and, Bool.not_eq_true', Bool.or_eq_false_iff,
    exceedsWeightUnits_eq_false_iff, bne_eq_false_iff_eq, decide_eq_true_iff,
    isEmpty_eq_false_iff]
  have scale : 80000 / witnessScaleFactor = 20000 := rfl
  rw [scale]
  constructor
  · intro ok
    obtain ⟨ne, ⟨count, size⟩, root, unmutated, first, others, transactionFacts, ran,
      sigops, res⟩ := ok
    have checked := (mapM_assessTransactionIntrinsic_iff hash256 block.transactions).mp
      ⟨transactionFacts, ran⟩
    exact ⟨⟨ne, count, size, Prod.ext root.symm unmutated, first, others, checked, by omega⟩,
      transactionFacts, ran, res.symm⟩
  · intro ok
    obtain ⟨valid, transactionFacts, ran, res⟩ := ok
    have sigops := valid.sigops
    exact ⟨valid.nonempty, ⟨valid.transactionCount, valid.strippedSize⟩,
      (congrArg Prod.fst valid.merkleRoot).symm, congrArg Prod.snd valid.merkleRoot,
      valid.coinbaseFirst, valid.coinbaseOnlyFirst, transactionFacts, ran, by omega,
      res.symm⟩

theorem assessBlockIntrinsic_accepts_iff :
    (assessBlockIntrinsic hash256 block {}).accepts ↔ IntrinsicallyValid hash256 block := by
  constructor
  · intro ok
    obtain ⟨facts, ran⟩ := ok
    exact (assessBlockIntrinsic_eq_ok.mp ran).1
  · intro valid
    obtain ⟨transactionFacts, ran⟩ :=
      (mapM_assessTransactionIntrinsic_iff hash256 block.transactions).mpr valid.transactions
    exact ⟨_, assessBlockIntrinsic_eq_ok.mpr ⟨valid, transactionFacts, ran, rfl⟩⟩

/-- The 32-bit counter of the structural stage does not wrap on a block within the size
limit. -/
theorem sigOps_toNat (size : block.strippedSerializedSize * 4 ≤ 4000000) :
    ((toCoreBlock hash256 block).vtx.foldl (fun count tx => count + getLegacySigOpCount tx) 0 *
      UInt32.ofNat witnessScaleFactor).toNat = blockLegacySigopCount block.transactions * 4 := by
  have counter : (toCoreBlock hash256 block).vtx.foldl
      (fun count tx => count + getLegacySigOpCount tx) (UInt32.ofNat 0) =
        UInt32.ofNat (blockLegacySigopCount block.transactions) := by
    rw [toCoreBlock, foldl_map]
    exact foldl_add_ofNat (getLegacySigOpCount_eq hash256) block.transactions 0
  have bound := blockLegacySigopCount_le block
  have small : blockLegacySigopCount block.transactions * witnessScaleFactor < 2 ^ 32 := by
    rw [witnessScaleFactor]
    omega
  have start : (0 : UInt32) = UInt32.ofNat 0 := rfl
  rw [start, counter, ← UInt32.ofNat_mul, UInt32.toNat_ofNat_of_lt' small]
  rfl

theorem head_any_isCoinbase (hash256 : ByteHash) (block : Block) :
    (toCoreBlock hash256 block).vtx.head?.any isCoinBase =
      block.transactions.head?.any isCoinbase := by
  rw [toCoreBlock, head?_map]
  cases block.transactions.head? with
  | none => rfl
  | some coinbase => exact isCoinbase_toCoreTransaction hash256 coinbase

theorem tail_all_not_isCoinbase (hash256 : ByteHash) (block : Block) :
    ((toCoreBlock hash256 block).vtx.tail.all fun tx => !tx.isCoinBase) =
      block.transactions.tail.all fun tx => !isCoinbase tx := by
  rw [toCoreBlock, ← map_tail, all_map]
  apply congrArg
  funext tx
  exact congrArg not (isCoinbase_toCoreTransaction hash256 tx)

theorem forM_checkTransactionOfBlock_iff (hash256 : ByteHash) (block : Block) :
    (toCoreBlock hash256 block).vtx.forM checkTransactionOfBlock = .ok () ↔
      ∀ tx ∈ block.transactions, checkTransaction (toCoreTransaction hash256 tx) = .ok () := by
  simp only [Exec.forM_eq_ok, checkTransactionOfBlock_eq_ok, toCoreBlock, forall_mem_map]

theorem validateBlockStructuralStage_eq_ok_iff :
    validateBlockStructuralStage (sha256D64 hash256) (toCoreBlock hash256 block) ⟨true⟩ = .ok () ↔
      IntrinsicallyValid hash256 block := by
  have length : (toCoreBlock hash256 block).vtx.length = block.transactions.length := length_map _
  have root : computeMerkleRootWithMutation (sha256D64 hash256)
      ((toCoreBlock hash256 block).vtx.map hash) = merkleRoot hash256 block.transactions :=
    (merkleRoot_eq hash256 block.transactions).symm
  have headerRoot : (toCoreBlock hash256 block).header.hashMerkleRoot =
      block.header.merkleRoot := rfl
  have sigopLimit : maxBlockSigOpsCost.toInt = 80000 := rfl
  simp only [validateBlockStructuralStage, checkBlockMerkleRoot, checkBlockTransactions,
    computeBlockStructuralFacts, if_true, Exec.bind_eq_ok, Exec.ensure_eq_ok, exists_const,
    strippedSize_toCoreBlock, length, root, headerRoot, head_any_isCoinbase,
    tail_all_not_isCoinbase, beq_self_eq_true, true_and, beq_iff_eq, Bool.not_eq_true',
    Bool.and_eq_true, bne_iff_ne, ne_eq, length_eq_zero_iff, decide_eq_true_iff]
  constructor
  · intro ok
    obtain ⟨⟨rootEq, unmutated⟩, ⟨⟨ne, count⟩, size⟩, first, others, ⟨⟩, checks, sigops⟩ := ok
    have sizeBound : block.strippedSerializedSize * 4 ≤ 4000000 := size
    rw [sigOps_toNat sizeBound, sigopLimit] at sigops
    exact ⟨ne, count, sizeBound, Prod.ext rootEq.symm unmutated, first, others,
      (forM_checkTransactionOfBlock_iff hash256 block).mp checks, by omega⟩
  · intro valid
    have sigops := valid.sigops
    have checks := (forM_checkTransactionOfBlock_iff hash256 block).mpr valid.transactions
    rw [sigOps_toNat valid.strippedSize, sigopLimit]
    exact ⟨⟨(congrArg Prod.fst valid.merkleRoot).symm, congrArg Prod.snd valid.merkleRoot⟩,
      ⟨⟨valid.nonempty, valid.transactionCount⟩, valid.strippedSize⟩, valid.coinbaseFirst,
      valid.coinbaseOnlyFirst, (), checks, by omega⟩

end Validation

end Champy
