import Champy.CoreSerialization

/-!
# The two codecs agree

The readers of the consensus library recognize the same formats as those of the protocol
codec, up to the limit on sizes.  A representable value whose serialization is no longer
than the limit keeps all its counts and lengths below it.
-/

namespace Champy

open List

namespace Consensus

open Reader

/-! ## What the deserializer accepts -/

theorem ByteReader.fail_fails {α : Type} (message : String) (reader : ByteReader) :
    ∃ error, (ByteReader.fail message : Stream α) reader = .error error :=
  ⟨_, rfl⟩

theorem recognizes_readUncheckedCompactSize :
    Recognizes readUncheckedCompactSize (Encoded writeCompactSize fun value => value < 2 ^ 64) :=
  recognizes_compactSize
    (recognizes_longCompactSize (ByteReader.fail_fails "non-canonical ReadCompactSize()") 2 253)
    (recognizes_longCompactSize (ByteReader.fail_fails "non-canonical ReadCompactSize()") 4 0x10000)
    (recognizes_longCompactSize (ByteReader.fail_fails "non-canonical ReadCompactSize()") 8
      0x100000000)

theorem lt_of_le_maxSize {size : Nat} (bound : size ≤ maxSize) : size < 2 ^ 64 :=
  Nat.lt_of_le_of_lt bound (by decide)

theorem recognizes_readCompactSize :
    Recognizes readCompactSize (Encoded writeCompactSize fun value => value ≤ maxSize) := by
  apply (recognizes_readUncheckedCompactSize.bindEncoded fun size _ =>
    (recognizes_pure size).guarded
      (ByteReader.fail_fails "ReadCompactSize(): size too large")).congr
  intro value bytes
  constructor
  · intro read
    obtain ⟨size, _, -, ⟨bound, rfl, rfl⟩, rfl⟩ := read
    exact ⟨append_nil _, bound⟩
  · intro encoded
    obtain ⟨rfl, bound⟩ := encoded
    exact ⟨value, [], lt_of_le_maxSize bound, ⟨bound, rfl, rfl⟩, (append_nil _).symm⟩

theorem recognizes_readInBlocks (size : Nat) :
    Recognizes (readInBlocks size) fun value bytes => bytes = value ∧ value.length = size := by
  induction size using Nat.strongRecOn with
  | ind size ih =>
    rw [readInBlocks]
    by_cases empty : size = 0
    · rw [if_pos empty]
      apply (recognizes_pure []).congr
      intro value bytes
      rw [empty, length_eq_zero_iff]
      constructor
      · intro read
        exact ⟨read.2.trans read.1.symm, read.1⟩
      · intro encoded
        exact ⟨encoded.2, encoded.1.trans encoded.2⟩
    · rw [if_neg empty]
      apply ((recognizes_read (min size 5000000)).bind fun block _ _ =>
        (ih (size - min size 5000000) (by omega)).map fun blocks => block ++ blocks).congr
      intro value bytes
      constructor
      · intro read
        obtain ⟨block, _, _, ⟨rfl, blockLength⟩, ⟨blocks, ⟨rfl, restLength⟩, rfl⟩, rfl⟩ := read
        refine ⟨rfl, ?_⟩
        rw [length_append]
        omega
      · intro encoded
        obtain ⟨rfl, length⟩ := encoded
        refine ⟨bytes.take (min size 5000000), _, bytes.drop (min size 5000000), ⟨rfl, ?_⟩,
          ⟨_, ⟨rfl, ?_⟩, ?_⟩, ?_⟩
        · rw [length_take]
          omega
        · rw [length_drop, length]
        · rw [take_append_drop]
        · rw [take_append_drop]

theorem recognizes_unserializeBytes :
    Recognizes unserializeBytes (Encoded writeSizedBytes fun bytes => bytes.length ≤ maxSize) := by
  apply (recognizes_readCompactSize.bindEncoded fun size _ => recognizes_readInBlocks size).congr
  intro value bytes
  constructor
  · intro read
    obtain ⟨size, _, bound, ⟨rfl, rfl⟩, rfl⟩ := read
    exact ⟨rfl, bound⟩
  · intro encoded
    obtain ⟨rfl, bound⟩ := encoded
    exact ⟨value.length, value, bound, ⟨rfl, rfl⟩, rfl⟩

theorem recognizes_unserializeVector {α : Type} {item : Stream α} {encode : α → List UInt8}
    {valid : α → Prop} (recognizes : Recognizes item (Encoded encode valid)) :
    Recognizes (unserializeVector item) (Encoded (serializeVector encode) fun values =>
      values.length ≤ maxSize ∧ ∀ value ∈ values, valid value) := by
  apply (recognizes_readCompactSize.bindEncoded fun size _ =>
    recognizes_readMany recognizes size).congr
  intro values bytes
  constructor
  · intro read
    obtain ⟨size, _, bound, ⟨rfl, rfl, items⟩, rfl⟩ := read
    exact ⟨rfl, bound, items⟩
  · intro encoded
    obtain ⟨rfl, bound, items⟩ := encoded
    exact ⟨values.length, _, bound, ⟨rfl, rfl, items⟩, rfl⟩

theorem recognizes_unserializeTxIn : Recognizes unserializeTxIn (Encoded serializeTxIn fun txin =>
      txin.scriptSig.length ≤ maxSize ∧ txin.scriptWitness = []) := by
  apply (recognizes_readHash.bindEncoded fun hash _ =>
    recognizes_readUInt32.bindEncoded fun n _ =>
      recognizes_unserializeBytes.bindEncoded fun scriptSig _ =>
        recognizes_readUInt32.map fun nSequence =>
          (⟨⟨hash, n⟩, scriptSig, nSequence, []⟩ : CTxIn)).congr
  intro txin bytes
  constructor
  · intro read
    obtain ⟨hash, _, -, ⟨n, _, -, ⟨scriptSig, _, bound, ⟨nSequence, ⟨rfl, -⟩, rfl⟩, rfl⟩, rfl⟩,
      rfl⟩ := read
    refine ⟨?_, bound, rfl⟩
    simp only [serializeTxIn, append_assoc]
  · intro encoded
    obtain ⟨rfl, bound, noWitness⟩ := encoded
    refine ⟨txin.prevout.hash, _, trivial, ⟨txin.prevout.n, _, trivial,
      ⟨txin.scriptSig, _, bound, ⟨txin.nSequence, ⟨rfl, trivial⟩, ?_⟩, rfl⟩, rfl⟩, ?_⟩
    · rw [← noWitness]
    · simp only [serializeTxIn, append_assoc]

theorem recognizes_unserializeTxOut :
    Recognizes unserializeTxOut (Encoded serializeTxOut fun txout =>
      txout.scriptPubKey.length ≤ maxSize) := by
  apply (recognizes_readInt64.bindEncoded fun nValue _ =>
    recognizes_unserializeBytes.map fun scriptPubKey => (⟨nValue, scriptPubKey⟩ : CTxOut)).congr
  intro txout bytes
  constructor
  · intro read
    obtain ⟨nValue, _, -, ⟨scriptPubKey, ⟨rfl, bound⟩, rfl⟩, rfl⟩ := read
    exact ⟨rfl, bound⟩
  · intro encoded
    obtain ⟨rfl, bound⟩ := encoded
    exact ⟨txout.nValue, _, trivial, ⟨txout.scriptPubKey, ⟨rfl, bound⟩, rfl⟩, rfl⟩

theorem recognizes_unserializeLockTime (version : UInt32) (flags : UInt8) (vin : List CTxIn)
    (vout : List CTxOut) :
    Recognizes (unserializeLockTime version flags vin vout) fun tx bytes =>
      flags = 0 ∧ tx.version = version ∧ tx.vin = vin ∧ tx.vout = vout ∧
        bytes = writeUInt32 tx.nLockTime := by
  apply ((recognizes_readUInt32.map fun nLockTime =>
    (⟨vin, vout, version, nLockTime⟩ : CMutableTransaction)).guarded
      (ByteReader.fail_fails "Unknown transaction optional data")).congr
  intro tx bytes
  constructor
  · intro read
    obtain ⟨noFlags, nLockTime, ⟨rfl, -⟩, rfl⟩ := read
    exact ⟨noFlags, rfl, rfl, rfl, rfl⟩
  · intro encoded
    obtain ⟨noFlags, rfl, rfl, rfl, rfl⟩ := encoded
    exact ⟨noFlags, tx.nLockTime, ⟨rfl, trivial⟩, rfl⟩

/-- The lengths of a witness that the deserializer accepts. -/
def WitnessFits (witness : List (List UInt8)) : Prop :=
  witness.length ≤ maxSize ∧ ∀ item ∈ witness, item.length ≤ maxSize

def serializeWitnesses (vin : List CTxIn) : List UInt8 :=
  (vin.map CTxIn.scriptWitness).flatMap (serializeVector writeSizedBytes)

def withoutWitness (txin : CTxIn) : CTxIn :=
  withScriptWitness txin []

theorem withScriptWitness_withoutWitness (txin : CTxIn) :
    withScriptWitness (withoutWitness txin) txin.scriptWitness = txin :=
  rfl

/-- The flags byte can only be the witness flag, and then some input has a witness. -/
theorem recognizes_unserializeWitnesses (version : UInt32) (flags : UInt8) {vin : List CTxIn}
    (noWitness : ∀ txin ∈ vin, txin.scriptWitness = []) (vout : List CTxOut) :
    Recognizes (unserializeWitnesses version flags vin vout) fun tx bytes =>
      tx.version = version ∧ tx.vout = vout ∧
        ((flags = 0 ∧ tx.vin = vin ∧ bytes = writeUInt32 tx.nLockTime) ∨
          (flags = 1 ∧ tx.vin.map withoutWitness = vin ∧ tx.hasWitness = true ∧
            (∀ witness ∈ tx.vin.map CTxIn.scriptWitness, WitnessFits witness) ∧
            bytes = serializeWitnesses tx.vin ++ writeUInt32 tx.nLockTime)) := by
  have onlyWitness : (flags ^^^ 1 = 0) ↔ flags = 1 := UInt8.xor_eq_zero_iff
  apply (Recognizes.ite
    (fun _ => (recognizes_readMany (recognizes_unserializeVector recognizes_unserializeBytes)
      vin.length).bindEncoded fun witnesses _ =>
        (recognizes_unserializeLockTime version (flags ^^^ 1)
          (zipWith withScriptWitness vin witnesses) vout).guarded
          (ByteReader.fail_fails "Superfluous witness record"))
    fun _ => recognizes_unserializeLockTime version flags vin vout).congr
  intro tx bytes
  rw [onlyWitness]
  constructor
  · intro read
    rcases read with ⟨-, witnesses, _, ⟨length, fits⟩, ⟨item, isOne, rfl, inputs, rfl, rfl⟩, rfl⟩ |
      ⟨-, noFlags, rfl, inputs, rfl, rfl⟩
    · have cleared : (zipWith withScriptWitness vin witnesses).map withoutWitness = vin := by
        apply map_zipWith_first _ length
        intro txin mem witness
        have same : withoutWitness (withScriptWitness txin witness) =
            withScriptWitness txin txin.scriptWitness := by rw [noWitness txin mem]; rfl
        exact same
      have witnessesEq : (zipWith withScriptWitness vin witnesses).map CTxIn.scriptWitness =
          witnesses := map_zipWith_second (fun _ _ => rfl) length
      refine ⟨rfl, rfl, Or.inr ⟨isOne, inputs ▸ cleared, ?_, ?_, ?_⟩⟩
      · rw [CMutableTransaction.hasWitness, inputs]
        exact item
      · rw [inputs, witnessesEq]
        exact fits
      · rw [serializeWitnesses, inputs, witnessesEq]
    · exact ⟨rfl, rfl, Or.inl ⟨noFlags, inputs, rfl⟩⟩
  · intro encoded
    obtain ⟨rfl, rfl, ⟨rfl, inputs, rfl⟩ | ⟨rfl, cleared, witness, fits, rfl⟩⟩ := encoded
    · exact Or.inr ⟨by decide, rfl, rfl, inputs, rfl, rfl⟩
    · have inputs : tx.vin = zipWith withScriptWitness vin (tx.vin.map CTxIn.scriptWitness) := by
        rw [← cleared]
        exact (zipWith_map_map withScriptWitness_withoutWitness tx.vin).symm
      have length : (tx.vin.map CTxIn.scriptWitness).length = vin.length := by
        rw [← cleared, length_map, length_map]
      refine Or.inl ⟨by decide, tx.vin.map CTxIn.scriptWitness, _, ⟨length, fits⟩,
        ⟨?_, rfl, rfl, inputs, rfl, rfl⟩, rfl⟩
      rw [← inputs]
      exact witness

/-- The transactions that the deserializer can return. -/
structure CMutableTransaction.Fits (tx : CMutableTransaction) : Prop where
  unambiguous : tx.vin ≠ [] ∨ tx.vout = []
  vin_length : tx.vin.length ≤ maxSize
  vout_length : tx.vout.length ≤ maxSize
  scriptSigs : ∀ txin ∈ tx.vin, txin.scriptSig.length ≤ maxSize
  scriptPubKeys : ∀ txout ∈ tx.vout, txout.scriptPubKey.length ≤ maxSize
  witnesses : ∀ witness ∈ tx.vin.map CTxIn.scriptWitness, WitnessFits witness

theorem serializeVector_withoutWitness (vin : List CTxIn) :
    serializeVector serializeTxIn (vin.map withoutWitness) = serializeVector serializeTxIn vin := by
  rw [serializeVector, length_map, flatMap_map]
  rfl

variable {tx : CMutableTransaction}

theorem serializeTransaction_of_witness (witness : tx.hasWitness = true) :
    serializeTransaction tx true = writeUInt32 tx.version ++ (serializeVector serializeTxIn [] ++
      ([1] ++ (serializeVector serializeTxIn (tx.vin.map withoutWitness) ++
        (serializeVector serializeTxOut tx.vout ++
          (serializeWitnesses tx.vin ++ writeUInt32 tx.nLockTime))))) := by
  rw [serializeVector_withoutWitness, serializeWitnesses, flatMap_map]
  simp [serializeTransaction, witness, serializeVector]

theorem serializeTransaction_of_noWitness (witness : tx.hasWitness = false) :
    serializeTransaction tx true = writeUInt32 tx.version ++ (serializeVector serializeTxIn tx.vin ++
      (serializeVector serializeTxOut tx.vout ++ writeUInt32 tx.nLockTime)) := by
  simp [serializeTransaction, witness]

theorem hasWitness_eq_false_iff :
    tx.hasWitness = false ↔ ∀ txin ∈ tx.vin, txin.scriptWitness = [] := by
  simp [CMutableTransaction.hasWitness]

theorem recognizes_unserializeTransaction : Recognizes unserializeTransaction
      (Encoded (fun tx => serializeTransaction tx true) CMutableTransaction.Fits) := by
  have inputs := recognizes_unserializeVector recognizes_unserializeTxIn
  have outputs := recognizes_unserializeVector recognizes_unserializeTxOut
  apply (recognizes_readUInt32.bindEncoded fun version _ =>
    inputs.bindEncoded fun vin valid =>
      Recognizes.ite (fun _ => recognizes_readUInt8.bindEncoded fun flags _ =>
          Recognizes.ite (fun _ => recognizes_unserializeWitnesses version flags
              (fun txin mem => (valid.2 txin mem).2) [])
            fun _ => inputs.bindEncoded fun vin valid =>
              outputs.bindEncoded fun vout _ =>
                recognizes_unserializeWitnesses version flags
                  (fun txin mem => (valid.2 txin mem).2) vout)
        fun _ => outputs.bindEncoded fun vout _ =>
          recognizes_unserializeWitnesses version 0
            (fun txin mem => (valid.2 txin mem).2) vout).congr
  intro tx bytes
  constructor
  · intro read
    obtain ⟨version, _, -, ⟨vin, _, ⟨vinLength, vinValid⟩, choice, rfl⟩, rfl⟩ := read
    rcases choice with ⟨empty, flags, _, -, ⟨rfl, rfl, noOutputs, ⟨-, rfl, rfl⟩ | ⟨impossible, -⟩⟩ |
      ⟨someFlag, vin', _, ⟨vinLength', vinValid'⟩, ⟨vout, _, ⟨voutLength, voutValid⟩,
        ⟨rfl, rfl, ⟨noFlag, -⟩ | ⟨rfl, rfl, witness, fits, rfl⟩⟩, rfl⟩, rfl⟩, rfl⟩ |
      ⟨ne, vout, _, ⟨voutLength, voutValid⟩, ⟨rfl, rfl, ⟨-, rfl, rfl⟩ | ⟨impossible, -⟩⟩, rfl⟩
    · -- The dummy was an empty list of inputs, and the zero byte an empty list of outputs.
      have noInputs : tx.vin = [] := isEmpty_iff.mp empty
      have noWitness : tx.hasWitness = false := by simp [CMutableTransaction.hasWitness, noInputs]
      refine ⟨?_, Or.inr noOutputs, vinLength, by simp [noOutputs], by simp [noInputs],
        by simp [noOutputs], by simp [noInputs]⟩
      beta_reduce
      rw [serializeTransaction_of_noWitness noWitness, noOutputs]
      rfl
    · exact absurd impossible (by decide)
    · exact absurd noFlag someFlag
    · have noDummy : vin = [] := isEmpty_iff.mp empty
      have someInput : tx.vin ≠ [] := by
        intro none
        simp [CMutableTransaction.hasWitness, none] at witness
      rw [length_map] at vinLength'
      refine ⟨?_, Or.inl someInput, vinLength', voutLength, ?_, voutValid, fits⟩
      · beta_reduce
        rw [serializeTransaction_of_witness witness, noDummy]
      · intro txin mem
        exact (vinValid' (withoutWitness txin) (mem_map_of_mem mem)).1
    · have noWitness := hasWitness_eq_false_iff.mpr fun txin mem => (vinValid txin mem).2
      have someInput : tx.vin ≠ [] := fun none => ne (isEmpty_iff.mpr none)
      refine ⟨(serializeTransaction_of_noWitness noWitness).symm, Or.inl someInput, vinLength,
        voutLength, fun txin mem => (vinValid txin mem).1, voutValid, ?_⟩
      intro witness mem
      obtain ⟨txin, txinMem, rfl⟩ := mem_map.mp mem
      rw [(vinValid txin txinMem).2]
      exact ⟨Nat.zero_le _, by simp⟩
    · exact absurd impossible (by decide)
  · intro encoded
    obtain ⟨rfl, fits⟩ := encoded
    cases witness : tx.hasWitness with
    | true =>
      have cleared : ∀ txin ∈ tx.vin.map withoutWitness,
          txin.scriptSig.length ≤ maxSize ∧ txin.scriptWitness = [] := by
        intro txin mem
        obtain ⟨original, originalMem, rfl⟩ := mem_map.mp mem
        exact ⟨fits.scriptSigs original originalMem, rfl⟩
      refine ⟨tx.version, _, trivial, ⟨[], _, ⟨Nat.zero_le _, by simp⟩,
        Or.inl ⟨rfl, 1, _, trivial, Or.inr ⟨by decide, tx.vin.map withoutWitness, _,
          ⟨?_, cleared⟩, ⟨tx.vout, _, ⟨fits.vout_length, fits.scriptPubKeys⟩,
            ⟨rfl, rfl, Or.inr ⟨rfl, rfl, rfl, fits.witnesses, rfl⟩⟩, rfl⟩, rfl⟩, rfl⟩, rfl⟩,
        serializeTransaction_of_witness witness⟩
      rw [length_map]
      exact fits.vin_length
    | false =>
      have valid : ∀ txin ∈ tx.vin,
          txin.scriptSig.length ≤ maxSize ∧ txin.scriptWitness = [] := fun txin mem =>
        ⟨fits.scriptSigs txin mem, hasWitness_eq_false_iff.mp witness txin mem⟩
      refine ⟨tx.version, _, trivial, ⟨tx.vin, _, ⟨fits.vin_length, valid⟩, ?_, rfl⟩,
        serializeTransaction_of_noWitness witness⟩
      cases empty : tx.vin.isEmpty with
      | true =>
        have noOutputs : tx.vout = [] :=
          fits.unambiguous.resolve_left fun some => some (isEmpty_iff.mp empty)
        refine Or.inl ⟨rfl, 0, _, trivial, Or.inl ⟨rfl, rfl, noOutputs, Or.inl ⟨rfl, rfl, rfl⟩⟩, ?_⟩
        rw [noOutputs]
        rfl
      | false =>
        exact Or.inr ⟨Bool.noConfusion, tx.vout, _, ⟨fits.vout_length, fits.scriptPubKeys⟩,
          ⟨rfl, rfl, Or.inl ⟨rfl, rfl, rfl⟩⟩, rfl⟩

theorem recognizes_unserializeBlockHeader :
    Recognizes unserializeBlockHeader (Encoded serializeBlockHeader fun _ => True) := by
  apply (recognizes_readInt32.bindEncoded fun nVersion _ =>
    recognizes_readHash.bindEncoded fun hashPrevBlock _ =>
      recognizes_readHash.bindEncoded fun hashMerkleRoot _ =>
        recognizes_readUInt32.bindEncoded fun nTime _ =>
          recognizes_readUInt32.bindEncoded fun nBits _ =>
            recognizes_readUInt32.map fun nNonce =>
              (⟨nVersion, hashPrevBlock, hashMerkleRoot, nTime, nBits, nNonce⟩ :
                CBlockHeader)).congr
  intro header bytes
  constructor
  · intro read
    obtain ⟨nVersion, _, -, ⟨hashPrevBlock, _, -, ⟨hashMerkleRoot, _, -, ⟨nTime, _, -,
      ⟨nBits, _, -, ⟨nNonce, ⟨rfl, -⟩, rfl⟩, rfl⟩, rfl⟩, rfl⟩, rfl⟩, rfl⟩ := read
    simp only [Encoded, serializeBlockHeader, append_assoc, and_self]
  · intro encoded
    obtain ⟨rfl, -⟩ := encoded
    refine ⟨header.nVersion, _, trivial, ⟨header.hashPrevBlock, _, trivial,
      ⟨header.hashMerkleRoot, _, trivial, ⟨header.nTime, _, trivial, ⟨header.nBits, _, trivial,
        ⟨header.nNonce, ⟨rfl, trivial⟩, rfl⟩, rfl⟩, rfl⟩, rfl⟩, rfl⟩, ?_⟩
    simp only [serializeBlockHeader, append_assoc]

theorem recognizes_unserializeBlock (doubleSha256 : ByteHash) :
    Recognizes (unserializeBlock doubleSha256) fun block bytes =>
      ∃ vtx, bytes = serializeBlockHeader block.header ++
          serializeVector (fun tx => serializeTransaction tx true) vtx ∧
        vtx.length ≤ maxSize ∧ (∀ tx ∈ vtx, tx.Fits) ∧
        block.vtx = vtx.map (CMutableTransaction.toTransaction doubleSha256) := by
  apply (recognizes_unserializeBlockHeader.bindEncoded fun header _ =>
    (recognizes_unserializeVector recognizes_unserializeTransaction).map fun vtx =>
      (⟨header, vtx.map (CMutableTransaction.toTransaction doubleSha256)⟩ : CBlock)).congr
  intro block bytes
  constructor
  · intro read
    obtain ⟨header, _, -, ⟨vtx, ⟨rfl, length, fits⟩, rfl⟩, rfl⟩ := read
    exact ⟨vtx, rfl, length, fits, rfl⟩
  · intro encoded
    obtain ⟨vtx, rfl, length, fits, vtxEq⟩ := encoded
    refine ⟨block.header, _, trivial, ⟨vtx, ⟨rfl, length, fits⟩, ?_⟩, rfl⟩
    rw [← vtxEq]

theorem parseExact_eq_some {α : Type} {read : Stream α} {format : α → List UInt8 → Prop}
    (recognizes : Recognizes read format) {bytes : List UInt8} {value : α} :
    parseExact bytes read = some value ↔ format value bytes := by
  have whole := @Recognizes.whole _ _ _ format _ read recognizes ⟨bytes⟩ value
  change _ ↔ format value bytes at whole
  rw [← whole, parseExact]
  cases accepted : read ⟨bytes⟩ with
  | error failure => simp
  | ok res =>
    obtain ⟨res, finish⟩ := res
    dsimp only
    split
    next empty =>
      have nothingLeft : finish.bytes = [] := isEmpty_iff.mp empty
      simp [ByteSource.rest, nothingLeft]
    next ne =>
      have somethingLeft : finish.bytes ≠ [] := fun empty => ne (isEmpty_iff.mpr empty)
      simp [ByteSource.rest, somethingLeft]

end Consensus

/-! ## The same value in both libraries -/

namespace Protocol

open Reader Consensus

variable (tx : Transaction)

theorem hasWitness_toCoreMutable : (toCoreMutable tx).hasWitness = tx.hasWitness := by
  rw [CMutableTransaction.hasWitness, Transaction.hasWitness, toCoreMutable, any_map]
  rfl

theorem serializeTransaction_toCoreMutable (withWitness : Bool) :
    Consensus.serializeTransaction (toCoreMutable tx) withWitness =
      serializeTransaction tx withWitness := by
  have ne : (tx.hasWitness && !tx.inputs.isEmpty) = tx.hasWitness := by
    cases inputs : tx.inputs with
    | nil => simp [Transaction.hasWitness, inputs]
    | cons input inputs => simp
  have inputsEq : (tx.inputs.map toCoreTxInput).flatMap serializeTxIn =
      tx.inputs.flatMap TxInput.serialize := flatMap_map _ _ _
  have outputsEq : (tx.outputs.map toCoreTxOutput).flatMap serializeTxOut =
      tx.outputs.flatMap TxOutput.serialize := flatMap_map _ _ _
  have witnessesEq : ((tx.inputs.map toCoreTxInput).flatMap fun txin =>
      serializeVector writeSizedBytes txin.scriptWitness) =
      tx.inputs.flatMap fun input => serializeWitness input.witness := flatMap_map _ _ _
  rw [Consensus.serializeTransaction, serializeTransaction, hasWitness_toCoreMutable,
    Bool.and_assoc, ne]
  simp only [toCoreMutable, witnessesEq]
  simp only [serializeVector, length_map, inputsEq, outputsEq]
  rfl

/-- The Core transaction seen as a protocol one. -/
def ofCoreMutable (tx : CMutableTransaction) : Transaction :=
  ⟨tx.version.toInt32,
    tx.vin.map fun txin => ⟨txin.prevout, txin.scriptSig, txin.nSequence, txin.scriptWitness⟩,
    tx.vout.map fun txout => ⟨txout.nValue, txout.scriptPubKey⟩, tx.nLockTime⟩

theorem toCoreMutable_ofCoreMutable (tx : CMutableTransaction) :
    toCoreMutable (ofCoreMutable tx) = tx := by
  simp [toCoreMutable, ofCoreMutable, Function.comp_def, toCoreTxInput, toCoreTxOutput]

theorem length_encode_le_flatMap {α : Type} {encode : α → List UInt8} {value : α} {values : List α}
    (mem : value ∈ values) : (encode value).length ≤ (values.flatMap encode).length := by
  induction values with
  | nil => simp at mem
  | cons first values ih =>
    rw [flatMap_cons, length_append]
    rcases mem_cons.mp mem with rfl | later
    · omega
    · have tail := ih later
      omega

theorem length_le_flatMap {α : Type} {encode : α → List UInt8} {values : List α}
    (long : ∀ value, 1 ≤ (encode value).length) :
    values.length ≤ (values.flatMap encode).length := by
  have bound := mul_le_length_flatMap values fun value _ => long value
  omega

theorem length_le_writeSizedBytes (bytes : List UInt8) :
    bytes.length ≤ (writeSizedBytes bytes).length := by
  rw [writeSizedBytes, length_append]
  omega

/-- The parts of a serialized transaction are no longer than the whole. -/
theorem length_parts_le_serialize :
    (tx.inputs.flatMap TxInput.serialize).length ≤ tx.serialize.length ∧
      (tx.outputs.flatMap TxOutput.serialize).length ≤ tx.serialize.length ∧
      (tx.hasWitness = true → (tx.inputs.flatMap fun input =>
        serializeWitness input.witness).length ≤ tx.serialize.length) := by
  have outputs : ∀ withWitness, (tx.outputs.flatMap TxOutput.serialize).length ≤
      (tx.serializeBody withWitness).length := by
    intro withWitness
    simp only [Transaction.serializeBody, length_append]
    omega
  have inputs : ∀ withWitness, (tx.inputs.flatMap TxInput.serialize).length ≤
      (tx.serializeBody withWitness).length := by
    intro withWitness
    simp only [Transaction.serializeBody, length_append]
    omega
  cases witness : tx.hasWitness with
  | true =>
    have body : (tx.serializeBody true).length ≤ tx.serialize.length := by
      rw [serialize_of_hasWitness witness]
      simp only [length_append]
      omega
    refine ⟨(inputs true).trans body, (outputs true).trans body, fun _ => ?_⟩
    apply Nat.le_trans _ body
    simp only [Transaction.serializeBody, length_append, if_true]
    omega
  | false =>
    have body : (tx.serializeBody false).length ≤ tx.serialize.length := by
      rw [serialize_of_noWitness witness]
      simp only [length_append]
      omega
    exact ⟨(inputs false).trans body, (outputs false).trans body, fun impossible => by
      exact Bool.noConfusion impossible⟩

theorem length_script_le_serialize (input : TxInput) :
    input.script.length ≤ input.serialize.length := by
  have script := length_le_writeSizedBytes input.script
  simp only [TxInput.serialize, length_append]
  omega

theorem witnessFits_of_length {witness : List (List UInt8)}
    (short : (serializeWitness witness).length ≤ maxSize) : WitnessFits witness := by
  rw [serializeWitness, length_append] at short
  have count : witness.length ≤ (witness.flatMap writeSizedBytes).length :=
    length_le_flatMap length_writeSizedBytes_pos
  refine ⟨by omega, ?_⟩
  intro item mem
  have whole : (writeSizedBytes item).length ≤ (witness.flatMap writeSizedBytes).length :=
    length_encode_le_flatMap mem
  have content := length_le_writeSizedBytes item
  omega

theorem fits_toCoreMutable {tx : Transaction} (representable : tx.Representable)
    (short : tx.serialize.length ≤ maxSize) : (toCoreMutable tx).Fits := by
  obtain ⟨inputsLe, outputsLe, witnessesLe⟩ := length_parts_le_serialize tx
  have inputCount : tx.inputs.length ≤ (tx.inputs.flatMap TxInput.serialize).length :=
    length_le_flatMap fun input => Nat.le_trans (by decide) (length_serialize_input input)
  have outputCount : tx.outputs.length ≤ (tx.outputs.flatMap TxOutput.serialize).length :=
    length_le_flatMap fun output => Nat.le_trans (by decide) (length_serialize_output output)
  refine ⟨?_, ?_, ?_, ?_, ?_, ?_⟩
  · simpa [toCoreMutable] using representable.unambiguous
  · rw [toCoreMutable, length_map]
    omega
  · rw [toCoreMutable, length_map]
    omega
  · rw [toCoreMutable, forall_mem_map]
    intro input mem
    have whole : input.serialize.length ≤ (tx.inputs.flatMap TxInput.serialize).length :=
      length_encode_le_flatMap mem
    have content := length_script_le_serialize input
    change input.script.length ≤ maxSize
    omega
  · rw [toCoreMutable, forall_mem_map]
    intro output mem
    have whole : output.serialize.length ≤ (tx.outputs.flatMap TxOutput.serialize).length :=
      length_encode_le_flatMap mem
    have content := length_le_writeSizedBytes output.script
    rw [TxOutput.serialize, length_append] at whole
    change output.script.length ≤ maxSize
    omega
  · rw [toCoreMutable, forall_mem_map, forall_mem_map]
    intro input mem
    change WitnessFits input.witness
    by_cases witness : tx.hasWitness = true
    · have whole : (serializeWitness input.witness).length ≤
          (tx.inputs.flatMap fun input => serializeWitness input.witness).length :=
        @length_encode_le_flatMap _ (fun input => serializeWitness input.witness) _ _ mem
      exact witnessFits_of_length (whole.trans ((witnessesLe witness).trans short))
    · have empty : input.witness = [] := by
        by_contra ne
        exact witness ((hasWitness_iff tx).mpr ⟨input.witness, mem_map_of_mem mem, ne⟩)
      rw [empty]
      exact ⟨Nat.zero_le _, by simp⟩

theorem representable_of_fits {tx : Transaction} (fits : (toCoreMutable tx).Fits) :
    tx.Representable := by
  have inputsLength := fits.vin_length
  have outputsLength := fits.vout_length
  rw [toCoreMutable, length_map] at inputsLength outputsLength
  refine ⟨?_, lt_of_le_maxSize inputsLength, lt_of_le_maxSize outputsLength, ?_, ?_⟩
  · simpa [toCoreMutable] using fits.unambiguous
  · intro input mem
    have coreMem : toCoreTxInput input ∈ (toCoreMutable tx).vin := mem_map_of_mem mem
    obtain ⟨count, items⟩ := fits.witnesses input.witness (mem_map_of_mem coreMem)
    exact ⟨lt_of_le_maxSize (fits.scriptSigs _ coreMem), lt_of_le_maxSize count,
      fun item itemMem => lt_of_le_maxSize (items item itemMem)⟩
  · intro output mem
    exact lt_of_le_maxSize (fits.scriptPubKeys (toCoreTxOutput output) (mem_map_of_mem mem))

/-! ## Agreement -/

theorem parse_mutable_agrees {raw : List UInt8} (short : raw.length ≤ maxSize) :
    Consensus.parseExact raw unserializeTransaction =
      (parseTransaction raw).toOption.map toCoreMutable := by
  apply Option.ext
  intro mutable
  rw [Consensus.parseExact_eq_some recognizes_unserializeTransaction, Option.map_eq_some_iff]
  constructor
  · intro accepted
    obtain ⟨rawEq, fits⟩ := accepted
    have same := toCoreMutable_ofCoreMutable mutable
    have bytes : raw = (ofCoreMutable mutable).serialize := by
      rw [Transaction.serialize, ← serializeTransaction_toCoreMutable, same]
      exact rawEq
    rw [← same] at fits
    refine ⟨ofCoreMutable mutable, ?_, same⟩
    exact Exec.toOption_eq_some.mpr (parseTransaction_eq_ok.mpr ⟨bytes, representable_of_fits fits⟩)
  · intro accepted
    obtain ⟨tx, parsed, rfl⟩ := accepted
    obtain ⟨rfl, representable⟩ := parseTransaction_eq_ok.mp (Exec.toOption_eq_some.mp parsed)
    exact ⟨(serializeTransaction_toCoreMutable tx true).symm,
      fits_toCoreMutable representable short⟩

theorem serializeBlockHeader_toCoreHeader (header : BlockHeader) :
    serializeBlockHeader (toCoreHeader header) = header.serialize :=
  rfl

def ofCoreHeader (header : CBlockHeader) : BlockHeader :=
  ⟨header.nVersion, header.hashPrevBlock, header.hashMerkleRoot, header.nTime, header.nBits,
    header.nNonce⟩

theorem serializeVector_toCoreMutable (txs : List Transaction) :
    serializeVector (fun tx => Consensus.serializeTransaction tx true) (txs.map toCoreMutable) =
      writeCompactSize txs.length ++ txs.flatMap Transaction.serialize := by
  rw [serializeVector, length_map, flatMap_map]
  simp only [serializeTransaction_toCoreMutable]
  rfl

theorem serialize_block_eq (block : Block) :
    block.serialize = serializeBlockHeader (toCoreHeader block.header) ++
      serializeVector (fun tx => Consensus.serializeTransaction tx true)
        (block.transactions.map toCoreMutable) := by
  rw [serializeVector_toCoreMutable, serializeBlockHeader_toCoreHeader, Block.serialize,
    append_assoc]

theorem parseBlock_agrees (doubleSha256 : ByteHash) {raw : List UInt8}
    (short : raw.length ≤ maxSize) :
    Consensus.parseBlock doubleSha256 raw = (parseBlock raw).toOption.map (toCoreBlock doubleSha256) := by
  apply Option.ext
  intro core
  rw [Consensus.parseBlock, Consensus.parseExact_eq_some (recognizes_unserializeBlock doubleSha256),
    Option.map_eq_some_iff]
  constructor
  · intro accepted
    obtain ⟨vtx, rawEq, length, fits, vtxEq⟩ := accepted
    have same : (vtx.map ofCoreMutable).map toCoreMutable = vtx := by
      rw [map_map]
      exact (map_congr_left fun tx _ => toCoreMutable_ofCoreMutable tx).trans (map_id vtx)
    refine ⟨⟨ofCoreHeader core.header, vtx.map ofCoreMutable⟩,
      Exec.toOption_eq_some.mpr (parseBlock_eq_ok.mpr ⟨?_, ?_, ?_⟩), ?_⟩
    · rw [serialize_block_eq, same]
      exact rawEq
    · rw [length_map]
      exact lt_of_le_maxSize length
    · rw [forall_mem_map]
      intro tx mem
      have fit := fits tx mem
      rw [← toCoreMutable_ofCoreMutable tx] at fit
      exact representable_of_fits fit
    · have transactionsEq : (vtx.map ofCoreMutable).map (toCoreTransaction doubleSha256) = core.vtx := by
        rw [vtxEq, map_map]
        apply map_congr_left
        intro tx _
        rw [Function.comp_apply, toCoreTransaction, toCoreMutable_ofCoreMutable]
      rw [toCoreBlock, transactionsEq]
      rfl
  · intro accepted
    obtain ⟨block, parsed, rfl⟩ := accepted
    obtain ⟨rfl, representable⟩ := parseBlock_eq_ok.mp (Exec.toOption_eq_some.mp parsed)
    have transactionsLe : (block.transactions.flatMap Transaction.serialize).length ≤ maxSize := by
      rw [Block.serialize, length_append] at short
      omega
    have count : block.transactions.length ≤
        (block.transactions.flatMap Transaction.serialize).length :=
      length_le_flatMap fun tx => Nat.le_trans (by decide) (length_serialize_transaction tx)
    refine ⟨block.transactions.map toCoreMutable, serialize_block_eq block, ?_, ?_, ?_⟩
    · rw [length_map]
      omega
    · rw [forall_mem_map]
      intro tx mem
      have whole : tx.serialize.length ≤
          (block.transactions.flatMap Transaction.serialize).length := length_encode_le_flatMap mem
      exact fits_toCoreMutable (representable.transactions tx mem) (whole.trans transactionsLe)
    · rw [map_map]
      rfl

/-- On every byte string of at most `MAX_SIZE` bytes the two libraries accept the same
transactions and blocks, field by field. -/
theorem parse_agrees_of_length_le_maxSize (doubleSha256 : List UInt8 → Uint256) (raw : List UInt8)
    (short : raw.length ≤ maxSize) :
    Consensus.parseTransaction doubleSha256 raw =
        (parseTransaction raw).toOption.map (toCoreTransaction doubleSha256) ∧
      Consensus.parseBlock doubleSha256 raw =
        (parseBlock raw).toOption.map (toCoreBlock doubleSha256) := by
  refine ⟨?_, parseBlock_agrees doubleSha256 short⟩
  rw [Consensus.parseTransaction, parse_mutable_agrees short, Option.map_map]
  rfl

/-- A transaction with one input, whose witness has one item. -/
def sampleWitnessTransaction : Transaction :=
  ⟨2, [⟨⟨9, 0⟩, [], 0xffffffff, [[0x51]]⟩], [⟨10, [0x51]⟩], 0⟩

theorem parse_agrees_sampleWitnessTransaction :
    sampleWitnessTransaction.serialize.length ≤ maxSize ∧
      Consensus.parseTransaction (fun _ => 0) sampleWitnessTransaction.serialize =
        some (toCoreTransaction (fun _ => 0) sampleWitnessTransaction) := by
  have short : sampleWitnessTransaction.serialize.length ≤ maxSize := by decide
  have representable : sampleWitnessTransaction.Representable := by
    refine ⟨Or.inl (by decide), by decide, by decide, ?_, ?_⟩
    · intro input mem
      obtain rfl := mem_singleton.mp mem
      exact ⟨by decide, by decide, by decide⟩
    · intro output mem
      obtain rfl := mem_singleton.mp mem
      exact (by decide : [(0x51 : UInt8)].length < 2 ^ 64)
  have parsed := parseTransaction_eq_ok.mpr ⟨rfl, representable⟩
  refine ⟨short, ?_⟩
  rw [(parse_agrees_of_length_le_maxSize (fun _ => 0) _ short).1, parsed]
  rfl

end Protocol

end Champy
