import Champy.CodecAgreement
import Champy.StructuralStage
import Champy.ValidationScripts

/-!
# Agreement of the transaction checks

`assess_transaction_intrinsic` and `CheckTransaction` accept the same transactions.  The
first measures the bytes it would write and sorts the outpoints to find a repetition; the
second computes the size and inserts the outpoints into a set.  The first asks whether a
value still fits below the limit before it adds; the second adds and looks at the sum.
-/

namespace Champy

open Protocol List Exec

/-! ## Sizes -/

theorem length_writeCompactSize (size : Nat) :
    (writeCompactSize size).length = getSizeOfCompactSize size := by
  rw [writeCompactSize, getSizeOfCompactSize]
  split
  · rfl
  split
  · exact congrArg Nat.succ (length_writeLE 2 size)
  split
  · exact congrArg Nat.succ (length_writeLE 4 size)
  · exact congrArg Nat.succ (length_writeLE 8 size)

theorem length_writeSizedBytes (bytes : List UInt8) :
    (writeSizedBytes bytes).length = serializedScriptSize bytes := by
  rw [writeSizedBytes, length_append, length_writeCompactSize, serializedScriptSize]

theorem strippedSize_toCoreTxInput (input : TxInput) :
    (toCoreTxInput input).strippedSize = input.serialize.length := by
  simp only [TxInput.serialize, length_append, length_writeSizedBytes, hashBytes,
    writeUInt32, length_writeLE]
  rfl

theorem strippedSize_toCoreTxOutput (output : TxOutput) :
    (toCoreTxOutput output).strippedSize = output.serialize.length := by
  simp only [TxOutput.serialize, length_append, length_writeSizedBytes, writeInt64, length_writeLE]
  rfl

theorem strippedSize_toCoreTransaction (hash256 : ByteHash) (tx : Transaction) :
    (toCoreTransaction hash256 tx).strippedSize = tx.strippedSerializedSize := by
  have inputs : ((tx.inputs.map toCoreTxInput).map CTxIn.strippedSize).sum =
      (tx.inputs.flatMap TxInput.serialize).length := by
    rw [map_map, length_flatMap]
    exact congrArg sum (map_congr_left fun input _ => strippedSize_toCoreTxInput input)
  have outputs : ((tx.outputs.map toCoreTxOutput).map CTxOut.strippedSize).sum =
      (tx.outputs.flatMap TxOutput.serialize).length := by
    rw [map_map, length_flatMap]
    exact congrArg sum (map_congr_left fun output _ => strippedSize_toCoreTxOutput output)
  rw [CTransaction.strippedSize, Transaction.strippedSerializedSize, serializeTransaction]
  simp only [toCoreTransaction, toCoreMutable, Consensus.CMutableTransaction.toTransaction,
    inputs, outputs, length_map, Bool.false_and, Bool.false_eq_true, if_false,
    append_nil, length_append, length_writeCompactSize, writeInt32, writeUInt32,
    length_writeLE]

/-! ## Repeated inputs -/

namespace Validation

theorem hashBytes_injective : Function.Injective hashBytes := by
  intro first second eq
  apply BitVec.eq_of_toNat_eq
  have firstRead : readLE (writeLE 32 first.toNat) = first.toNat := readLE_writeLE first.isLt
  have secondRead : readLE (writeLE 32 second.toNat) = second.toNat := readLE_writeLE second.isLt
  rw [← firstRead, ← secondRead]
  exact congrArg readLE eq

theorem outpointKey_injective : Function.Injective outpointKey := by
  intro first second eq
  obtain ⟨hashes, indices⟩ := append_inj' eq rfl
  have bytes : hashBytes first.hash = hashBytes second.hash :=
    map_injective_iff.mpr (fun _ _ same => UInt8.toNat_inj.mp same) hashes
  have hash := hashBytes_injective bytes
  have index : first.n = second.n := UInt32.toNat_inj.mp (head_eq_of_cons_eq indices)
  cases first
  cases second
  exact congr (congrArg COutPoint.mk hash) index

variable (hash256 : ByteHash) (tx : Transaction)

theorem hasDuplicateInputs_eq_false_iff :
    hasDuplicateInputs tx = false ↔ (tx.inputs.map TxInput.previousOutput).Nodup := by
  have leIff (first second : COutPoint) :
      outpointLe first second = true ↔ outpointKey first ≤ outpointKey second :=
    decide_eq_true_iff
  apply hasEqualNeighbours_mergeSort
  · intro first second third firstLe secondLe
    exact (leIff first third).mpr
      (le_trans ((leIff first second).mp firstLe) ((leIff second third).mp secondLe))
  · intro first second
    rw [Bool.or_eq_true, leIff, leIff]
    exact le_total _ _
  · intro first second firstLe secondLe
    exact outpointKey_injective
      (le_antisymm ((leIff first second).mp firstLe) ((leIff second first).mp secondLe))

theorem hasDuplicateInputs_eq : (!hasDuplicateInputs tx) =
      outpointsUnique [] ((toCoreTransaction hash256 tx).vin.map CTxIn.prevout) := by
  have prevouts : (toCoreTransaction hash256 tx).vin.map CTxIn.prevout =
      tx.inputs.map TxInput.previousOutput := map_map
  rw [Bool.eq_iff_iff, Bool.not_eq_true', hasDuplicateInputs_eq_false_iff, outpointsUnique_iff,
    prevouts]
  simp

/-! ## Output values -/

theorem addOutputValue_eq_ok_iff {outputSum total : Int64} {output : TxOutput}
    (range : moneyRange outputSum = true) :
    addOutputValue 2100000000000000 outputSum output = .ok total ↔
      checkOutputValue outputSum (toCoreTxOutput output) = .ok total := by
  have limit : (2100000000000000 : Int64).toInt = 2100000000000000 := by decide
  have value : (toCoreTxOutput output).nValue = output.value := rfl
  have sumBounds := moneyRange_iff.mp range
  rw [checkOutputValue_eq_ok, CTransaction.addOutputValue_eq_ok, moneyRange_iff, moneyRange_iff,
    value]
  simp only [addOutputValue, require, bind_eq_ok, ensure_eq_ok, exists_const,
    subInt64_eq_ok, addInt64_eq_ok, decide_eq_true_iff, Int64.le_iff_toInt_le, limit]
  constructor
  · intro ok
    obtain ⟨nonneg, small, room, roomEq, fits, sum⟩ := ok
    have zero : (0 : Int64).toInt = 0 := rfl
    omega
  · intro ok
    obtain ⟨valueBounds, totalBounds, sum⟩ := ok
    obtain ⟨room, roomEq⟩ : ∃ room : Int64, room.toInt = 2100000000000000 - output.value.toInt :=
      ⟨Int64.ofInt (2100000000000000 - output.value.toInt),
        Int64.toInt_ofInt_of_le (by omega) (by omega)⟩
    exact ⟨valueBounds.1, valueBounds.2, room, roomEq, by omega, sum⟩

theorem foldlM_addOutputValue_eq_ok_iff (outputs : List TxOutput) (total : Int64) :
    outputs.foldlM (addOutputValue 2100000000000000) 0 = .ok total ↔
      (outputs.map toCoreTxOutput).foldlM checkOutputValue 0 = .ok total := by
  rw [foldlM_map]
  apply foldlM_eq_ok_congr_of_invariant fun sum => moneyRange sum = true
  · intro start output res range
    exact addOutputValue_eq_ok_iff range
  · intro start output res range added
    have checked := checkOutputValue_eq_ok.mp ((addOutputValue_eq_ok_iff range).mp added)
    exact (CTransaction.addOutputValue_eq_ok.mp checked).2.1
  · decide

/-! ## The whole check -/

theorem isCoinbase_toCoreTransaction :
    (toCoreTransaction hash256 tx).isCoinBase = isCoinbase tx := by
  cases tx with
  | mk version inputs outputs locktime =>
    rcases inputs with - | ⟨input, - | ⟨second, rest⟩⟩ <;> rfl

/-- The facts that an accepted transaction has. -/
def transactionFactsOf (outputSum : Int64) : TransactionFacts :=
  ⟨tx.id hash256, tx.witnessId hash256, outputSum,
    if isCoinbase tx then .coinbase else .ordinary, strippedWeight tx.strippedSerializedSize⟩

variable (hash256 : ByteHash)

theorem coinbaseScriptSizeValid_eq (tx : Transaction) :
    let scriptSize :=
      ((toCoreTransaction hash256 tx).vin.headD ⟨⟨0, 0⟩, [], 0, []⟩).scriptSig.length
    (2 ≤ scriptSize && scriptSize ≤ 100) = coinbaseScriptSizeValid tx := by
  cases tx with
  | mk version inputs outputs locktime => cases inputs <;> rfl

theorem strippedWeightExceedsLimit_eq (size : Nat) : (!strippedWeightExceedsLimit size 4000000) =
      decide (size * witnessScaleFactor ≤ maxBlockWeight) := by
  rw [strippedWeightExceedsLimit, witnessScaleFactor, maxBlockWeight, Bool.eq_iff_iff,
    Bool.not_eq_true', decide_eq_false_iff_not, decide_eq_true_iff]
  omega

theorem requireInputRules_eq_ok_iff (tx : Transaction) : requireInputRules tx = .ok () ↔
      (let core := toCoreTransaction hash256 tx
      if core.isCoinBase then
        let scriptSize := (core.vin.headD ⟨⟨0, 0⟩, [], 0, []⟩).scriptSig.length
        ensure (2 ≤ scriptSize && scriptSize ≤ 100) (invalidConsensusTransaction "bad-cb-length")
      else
        ensure (core.vin.all fun txin => !txin.prevout.isNull)
          (invalidConsensusTransaction "bad-txns-prevout-null")) = .ok () := by
  have prevouts : ((toCoreTransaction hash256 tx).vin.all fun txin => !txin.prevout.isNull) =
      tx.inputs.all fun input => !input.previousOutput.isNull := all_map
  simp only [requireInputRules, isCoinbase_toCoreTransaction]
  cases isCoinbase tx with
  | true =>
    simp only [if_true, require, ensure_eq_ok]
    rw [coinbaseScriptSizeValid_eq]
  | false => simp only [Bool.false_eq_true, if_false, require, ensure_eq_ok, prevouts]

/-- The value library accepts a transaction exactly when `CheckTransaction` does, and then
its facts hold the value that `GetValueOut` computes. -/
theorem assessTransactionIntrinsic_eq_ok {hash256 : ByteHash} {tx : Transaction}
    {facts : TransactionFacts} :
    assessTransactionIntrinsic hash256 tx {} = .ok facts ↔
      checkTransaction (toCoreTransaction hash256 tx) = .ok () ∧ ∃ outputSum,
          ((toCoreTransaction hash256 tx).getValueOut : Exec TransactionCheckError CAmount) =
              .ok outputSum ∧
            facts = transactionFactsOf hash256 tx outputSum := by
  have inputs : (toCoreTransaction hash256 tx).vin.isEmpty = tx.inputs.isEmpty := isEmpty_map
  have outputs : (toCoreTransaction hash256 tx).vout.isEmpty = tx.outputs.isEmpty := isEmpty_map
  have sums (total : Int64) :
      (toCoreTransaction hash256 tx).vout.foldlM checkOutputValue 0 = .ok total ↔
        tx.outputs.foldlM (addOutputValue 2100000000000000) 0 = .ok total :=
    (foldlM_addOutputValue_eq_ok_iff tx.outputs total).symm
  have valueOut (total : Int64) :
      ((toCoreTransaction hash256 tx).getValueOut : Exec TransactionCheckError CAmount) =
          .ok total ↔
        tx.outputs.foldlM (addOutputValue 2100000000000000) 0 = .ok total := by
    rw [← sums]
    exact foldlM_eq_ok_congr (fun _ _ _ => checkOutputValue_eq_ok.symm) _ 0 total
  simp only [assessTransactionIntrinsic, checkTransaction, require, bind_eq_ok,
    ensure_eq_ok, exists_const, pure_eq_ok, Except.ok.injEq, inputs, outputs, valueOut,
    sums, strippedSize_toCoreTransaction, ← hasDuplicateInputs_eq hash256 tx,
    ← strippedWeightExceedsLimit_eq, ← requireInputRules_eq_ok_iff]
  constructor
  · intro ok
    obtain ⟨hasInputs, hasOutputs, size, outputSum, sum, unique, ⟨⟩, rules, res⟩ := ok
    exact ⟨⟨hasInputs, hasOutputs, size, outputSum, sum, unique, rules⟩, outputSum, sum, res.symm⟩
  · intro ok
    obtain ⟨⟨hasInputs, hasOutputs, size, -, -, unique, rules⟩, outputSum, sum, res⟩ := ok
    exact ⟨hasInputs, hasOutputs, size, outputSum, sum, unique, (), rules, res.symm⟩

end Validation

end Champy
