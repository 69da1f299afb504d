import Champy.ProtocolCodec

/-!
# Parsing and serializing are inverse

Each reader of the protocol codec recognizes the format that the matching writer
produces.  An empty input list followed by outputs would be taken for the witness
marker, so a representable transaction has an input or no output; every length is one
that a `std::size_t` can hold.
-/

namespace Champy

open List

namespace Protocol

open Reader

/-! ## Representable values -/

structure TxInput.Representable (input : TxInput) : Prop where
  script_length : input.script.length < 2 ^ 64
  witness_length : input.witness.length < 2 ^ 64
  item_length : ∀ item ∈ input.witness, item.length < 2 ^ 64

def TxOutput.Representable (output : TxOutput) : Prop :=
  output.script.length < 2 ^ 64

/-- The transactions that the codec can write and read back. -/
structure Transaction.Representable (tx : Transaction) : Prop where
  unambiguous : tx.inputs ≠ [] ∨ tx.outputs = []
  inputs_length : tx.inputs.length < 2 ^ 64
  outputs_length : tx.outputs.length < 2 ^ 64
  inputs : ∀ input ∈ tx.inputs, input.Representable
  outputs : ∀ output ∈ tx.outputs, output.Representable

structure Block.Representable (block : Block) : Prop where
  transactions_length : block.transactions.length < 2 ^ 64
  transactions : ∀ tx ∈ block.transactions, tx.Representable

/-! ## Sizes and counts -/

variable {tx : Transaction} {inputCount : Nat} {raw : List UInt8} {α : Type}

theorem ByteReader.fail_fails (code : ParseFailureCode) (reader : ByteReader) :
    ∃ error, (ByteReader.fail code : Parser α) reader = .error error :=
  ⟨_, rfl⟩

theorem recognizes_readCompactSize :
    Recognizes readCompactSize (Encoded writeCompactSize fun value => value < 2 ^ 64) :=
  recognizes_compactSize
    (recognizes_longCompactSize (ByteReader.fail_fails .nonCanonicalCompactSize) 2 253)
    (recognizes_longCompactSize (ByteReader.fail_fails .nonCanonicalCompactSize) 4 0x10000)
    (recognizes_longCompactSize (ByteReader.fail_fails .nonCanonicalCompactSize) 8 0x100000000)

theorem fitsSize_of_lt {value : Nat} (bound : value < 2 ^ 64) : fitsSize value = true := by
  rw [fitsSize, decide_eq_true_iff, sizeMax]
  omega

variable {format : α → List UInt8 → Prop}

/-- The check of a count against the bytes left refuses nothing that the items would accept. -/
theorem recognizes_counted {next : Parser α} {count minimum : Nat}
    (fits : count < 2 ^ 64) (pos : 0 < minimum) (recognizes : Recognizes next format)
    (enough : ∀ value bytes, format value bytes → count * minimum ≤ bytes.length) :
    Recognizes (requireCountFitsRemaining count minimum >>= fun _ => next) format := by
  have verdict : ∀ reader : ByteReader, requireCountFitsRemaining count minimum reader =
      if reader.rest.length / minimum < count then .error ⟨.truncated, reader.offset⟩
      else .ok ((), reader) := by
    intro reader
    simp [requireCountFitsRemaining, fitsSize_of_lt fits, pos]
  have passed : ∀ reader : ByteReader, count ≤ reader.rest.length / minimum →
      requireCountFitsRemaining count minimum reader = .ok ((), reader) := by
    intro reader passes
    rw [verdict, if_neg (by omega)]
  have failed : ∀ reader : ByteReader, ¬count ≤ reader.rest.length / minimum →
      ∃ error, requireCountFitsRemaining count minimum reader = .error error := by
    intro reader short
    rw [verdict, if_pos (by omega)]
    exact ⟨_, rfl⟩
  apply recognizes.checked (fun left => count ≤ left / minimum) passed failed
  intro value bytes left isFormat bound
  rw [Nat.le_div_iff_mul_le pos]
  exact Nat.le_trans (enough value bytes isFormat) bound

variable {encode : α → List UInt8}

theorem mul_le_length_flatMap {minimum : Nat} (values : List α)
    (long : ∀ value ∈ values, minimum ≤ (encode value).length) :
    values.length * minimum ≤ (values.flatMap encode).length := by
  induction values with
  | nil => simp
  | cons value values ih =>
    rw [forall_mem_cons] at long
    have tail := ih long.2
    rw [flatMap_cons, length_append, length_cons, Nat.succ_mul]
    omega

theorem recognizes_readSizedBytes :
    Recognizes readSizedBytes (Encoded writeSizedBytes fun bytes => bytes.length < 2 ^ 64) := by
  apply (recognizes_readCompactSize.bindEncoded fun size _ =>
    (recognizes_read size).guarded (ByteReader.fail_fails .compactSizeOverflow)).congr
  intro value bytes
  constructor
  · intro read
    obtain ⟨size, after, bound, ⟨-, rfl, rfl⟩, rfl⟩ := read
    exact ⟨rfl, bound⟩
  · intro encoded
    obtain ⟨rfl, bound⟩ := encoded
    exact ⟨value.length, value, bound, ⟨fitsSize_of_lt bound, rfl, rfl⟩, rfl⟩

theorem recognizes_readCounted {item : Parser α} {valid : α → Prop}
    {minimum : Nat} (recognizes : Recognizes item (Encoded encode valid)) (pos : 0 < minimum)
    (long : ∀ value, minimum ≤ (encode value).length) :
    Recognizes (readCounted item minimum)
      (Encoded (fun values => writeCompactSize values.length ++ values.flatMap encode)
        fun values => values.length < 2 ^ 64 ∧ ∀ value ∈ values, valid value) := by
  have enough : ∀ count values bytes, Encoded (flatMap encode)
        (fun values => values.length = count ∧ ∀ value ∈ values, valid value) values bytes →
      count * minimum ≤ bytes.length := by
    intro count values bytes encoded
    obtain ⟨rfl, rfl, -⟩ := encoded
    exact mul_le_length_flatMap values fun value _ => long value
  apply (recognizes_readCompactSize.bindEncoded fun count fits =>
    recognizes_counted fits pos (recognizes_readMany recognizes count) (enough count)).congr
  intro values bytes
  constructor
  · intro read
    obtain ⟨count, _, bound, ⟨rfl, rfl, items⟩, rfl⟩ := read
    exact ⟨rfl, bound, items⟩
  · intro encoded
    obtain ⟨rfl, bound, items⟩ := encoded
    exact ⟨values.length, _, bound, ⟨rfl, rfl, items⟩, rfl⟩

/-! ## Inputs, outputs and witnesses -/

def TxInput.parts (input : TxInput) : InputParts :=
  ⟨input.previousOutput, input.script, input.sequence⟩

/-- The bytes of an input, which do not depend on its witness. -/
def InputParts.serialize (parts : InputParts) : List UInt8 :=
  (parts.withWitness []).serialize

theorem recognizes_readInputParts : Recognizes readInputParts
      (Encoded InputParts.serialize fun parts => parts.scriptSig.length < 2 ^ 64) := by
  apply (recognizes_readHash.bindEncoded fun hash _ =>
    recognizes_readUInt32.bindEncoded fun index _ =>
      recognizes_readSizedBytes.bindEncoded fun scriptSig _ =>
        recognizes_readUInt32.map fun sequence =>
          (⟨⟨hash, index⟩, scriptSig, sequence⟩ : InputParts)).congr
  intro parts bytes
  constructor
  · intro read
    obtain ⟨hash, _, -, ⟨index, _, -, ⟨scriptSig, _, bound, ⟨sequence, ⟨rfl, -⟩, rfl⟩, rfl⟩, rfl⟩,
      rfl⟩ := read
    refine ⟨?_, bound⟩
    simp only [InputParts.serialize, InputParts.withWitness, TxInput.serialize, append_assoc]
  · intro encoded
    obtain ⟨rfl, bound⟩ := encoded
    refine ⟨parts.previousOutput.hash, _, trivial, ⟨parts.previousOutput.n, _, trivial,
      ⟨parts.scriptSig, _, bound, ⟨parts.sequence, ⟨rfl, trivial⟩, rfl⟩, rfl⟩, rfl⟩, ?_⟩
    simp only [InputParts.serialize, InputParts.withWitness, TxInput.serialize, append_assoc]

theorem recognizes_readOutput :
    Recognizes readOutput (Encoded TxOutput.serialize TxOutput.Representable) := by
  apply (recognizes_readInt64.bindEncoded fun value _ =>
    recognizes_readSizedBytes.map fun script => (⟨value, script⟩ : TxOutput)).congr
  intro output bytes
  constructor
  · intro read
    obtain ⟨value, _, -, ⟨script, ⟨rfl, bound⟩, rfl⟩, rfl⟩ := read
    exact ⟨rfl, bound⟩
  · intro encoded
    obtain ⟨rfl, bound⟩ := encoded
    exact ⟨output.value, _, trivial, ⟨output.script, ⟨rfl, bound⟩, rfl⟩, rfl⟩

/-- The lengths of a witness that the codec can write. -/
def WitnessRepresentable (witness : List (List UInt8)) : Prop :=
  witness.length < 2 ^ 64 ∧ ∀ item ∈ witness, item.length < 2 ^ 64

theorem recognizes_readWitness :
    Recognizes readWitness (Encoded serializeWitness WitnessRepresentable) :=
  recognizes_readCounted recognizes_readSizedBytes Nat.one_pos length_writeSizedBytes_pos

/-- What the witnesses of a transaction satisfy, with and without the witness marker. -/
def WitnessesFit (withWitness : Bool) (inputCount : Nat)
    (witnesses : List (List (List UInt8))) : Prop :=
  witnesses.length = inputCount ∧
    if withWitness then (∃ witness ∈ witnesses, witness ≠ []) ∧
      ∀ witness ∈ witnesses, WitnessRepresentable witness
    else ∀ witness ∈ witnesses, witness = []

theorem recognizes_readWitnesses (withWitness : Bool) (inputCount : Nat) :
    Recognizes (readWitnesses withWitness inputCount)
      (Encoded (fun witnesses => if withWitness then witnesses.flatMap serializeWitness else [])
        (WitnessesFit withWitness inputCount)) := by
  cases withWitness with
  | false =>
    apply (recognizes_pure (replicate inputCount [])).congr
    intro witnesses bytes
    constructor
    · intro read
      obtain ⟨rfl, rfl⟩ := read
      exact ⟨rfl, length_replicate, fun witness mem => eq_of_mem_replicate mem⟩
    · intro encoded
      obtain ⟨rfl, rfl, empty⟩ := encoded
      exact ⟨eq_replicate_of_mem empty, rfl⟩
  | true =>
    apply ((recognizes_readMany recognizes_readWitness inputCount).bindEncoded
      fun witnesses _ => (recognizes_pure witnesses).guarded
        (ByteReader.fail_fails .invalidWitnessMarker)).congr
    intro witnesses bytes
    have someItem : witnesses.any (fun witness => !witness.isEmpty) = true ↔
        ∃ witness ∈ witnesses, witness ≠ [] := by
      simp [any_eq_true]
    constructor
    · intro read
      obtain ⟨_, _, ⟨length, fit⟩, ⟨item, rfl, rfl⟩, rfl⟩ := read
      exact ⟨append_nil _, length, someItem.mp item, fit⟩
    · intro encoded
      obtain ⟨rfl, length, item, fit⟩ := encoded
      exact ⟨witnesses, [], ⟨length, fit⟩, ⟨someItem.mpr item, rfl, rfl⟩, (append_nil _).symm⟩

/-! ## Transactions -/

/-- The bytes of a transaction after the number of its inputs. -/
def Transaction.serializeBody (tx : Transaction) (withWitness : Bool) : List UInt8 :=
  tx.inputs.flatMap TxInput.serialize ++
    ((writeCompactSize tx.outputs.length ++ tx.outputs.flatMap TxOutput.serialize) ++
      ((if withWitness then tx.inputs.flatMap fun input => serializeWitness input.witness else []) ++
        writeUInt32 tx.locktime))

/-- What the reader of a transaction body accepts. -/
structure Transaction.BodyFits (tx : Transaction) (version : Int32) (inputCount : Nat)
    (withWitness : Bool) : Prop where
  version : tx.version = version
  inputs_length : tx.inputs.length = inputCount
  outputs_length : tx.outputs.length < 2 ^ 64
  scripts : ∀ input ∈ tx.inputs, input.script.length < 2 ^ 64
  outputs : ∀ output ∈ tx.outputs, output.Representable
  witnesses : WitnessesFit withWitness inputCount (tx.inputs.map TxInput.witness)

theorem length_serialize_input (input : TxInput) : 41 ≤ input.serialize.length := by
  have script := length_writeSizedBytes_pos input.script
  simp only [TxInput.serialize, hashBytes, writeUInt32, length_append, length_writeLE]
  omega

theorem length_serialize_output (output : TxOutput) : 9 ≤ output.serialize.length := by
  have script := length_writeSizedBytes_pos output.script
  simp only [TxOutput.serialize, writeInt64, length_append, length_writeLE]
  omega

theorem serializeBody_eq (tx : Transaction) (withWitness : Bool) : tx.serializeBody withWitness =
      (tx.inputs.map TxInput.parts).flatMap InputParts.serialize ++
        ((writeCompactSize tx.outputs.length ++ tx.outputs.flatMap TxOutput.serialize) ++
          ((if withWitness then (tx.inputs.map TxInput.witness).flatMap serializeWitness else []) ++
            writeUInt32 tx.locktime)) := by
  rw [Transaction.serializeBody, flatMap_map, flatMap_map]
  rfl

theorem recognizes_readTransactionBody (version : Int32) (fits : inputCount < 2 ^ 64)
    (withWitness : Bool) :
    Recognizes (readTransactionBody version inputCount withWitness)
      (Encoded (fun tx => tx.serializeBody withWitness)
        fun tx => tx.BodyFits version inputCount withWitness) := by
  apply recognizes_counted fits (by decide : 0 < 41)
  · apply ((recognizes_readMany recognizes_readInputParts inputCount).bindEncoded fun parts _ =>
      (recognizes_readCounted recognizes_readOutput (by decide : 0 < 9)
        length_serialize_output).bindEncoded fun outputs _ =>
          (recognizes_readWitnesses withWitness inputCount).bindEncoded fun witnesses _ =>
            recognizes_readUInt32.map fun locktime =>
              (⟨version, zipWith InputParts.withWitness parts witnesses, outputs,
                locktime⟩ : Transaction)).congr
    intro tx bytes
    constructor
    · intro read
      obtain ⟨parts, _, ⟨partsLength, scripts⟩, ⟨outputs, _, ⟨outputsLength, outputsFit⟩,
        ⟨witnesses, _, witnessesFit, ⟨locktime, ⟨rfl, -⟩, rfl⟩, rfl⟩, rfl⟩, rfl⟩ := read
      have length : witnesses.length = parts.length := witnessesFit.1.trans partsLength.symm
      have partsEq : (zipWith InputParts.withWitness parts witnesses).map TxInput.parts =
          parts := map_zipWith_first (fun _ _ _ => rfl) length
      have witnessesEq : (zipWith InputParts.withWitness parts witnesses).map
          TxInput.witness = witnesses := map_zipWith_second (fun _ _ => rfl) length
      refine ⟨?_, rfl, ?_, outputsLength, ?_, outputsFit, ?_⟩
      · beta_reduce
        rw [serializeBody_eq, partsEq, witnessesEq]
      · rw [length_zipWith, length, Nat.min_self, partsLength]
      · intro input mem
        have partMem := mem_map_of_mem (f := TxInput.parts) mem
        rw [partsEq] at partMem
        exact scripts input.parts partMem
      · rw [witnessesEq]
        exact witnessesFit
    · intro encoded
      obtain ⟨rfl, fit⟩ := encoded
      have scripts : ∀ parts ∈ tx.inputs.map TxInput.parts, parts.scriptSig.length < 2 ^ 64 := by
        intro parts mem
        obtain ⟨input, inputMem, rfl⟩ := mem_map.mp mem
        exact fit.scripts input inputMem
      have partsLength : (tx.inputs.map TxInput.parts).length = inputCount := by
        rw [length_map, fit.inputs_length]
      refine ⟨tx.inputs.map TxInput.parts, _, ⟨partsLength, scripts⟩,
        ⟨tx.outputs, _, ⟨fit.outputs_length, fit.outputs⟩, ⟨tx.inputs.map TxInput.witness, _,
          fit.witnesses, ⟨tx.locktime, ⟨rfl, trivial⟩, ?_⟩, rfl⟩, rfl⟩, serializeBody_eq tx _⟩
      have inputsEq : zipWith InputParts.withWitness (tx.inputs.map TxInput.parts)
          (tx.inputs.map TxInput.witness) = tx.inputs := zipWith_map_map (fun _ => rfl) tx.inputs
      rw [inputsEq, ← fit.version]
  · intro tx bytes encoded
    obtain ⟨rfl, fit⟩ := encoded
    have inputs := mul_le_length_flatMap tx.inputs fun input _ => length_serialize_input input
    beta_reduce
    rw [Transaction.serializeBody, length_append, ← fit.inputs_length]
    omega

theorem recognizes_readFlaggedTransaction (version : Int32) :
    Recognizes (readFlaggedTransaction version)
      (Encoded (fun tx => 1 :: writeCompactSize tx.inputs.length ++ tx.serializeBody true)
        fun tx => tx.inputs.length < 2 ^ 64 ∧ tx.BodyFits version tx.inputs.length true) := by
  apply (recognizes_readUInt8.bindEncoded fun flags _ =>
    (recognizes_readCompactSize.bindEncoded fun inputCount fits =>
      Recognizes.ite (fun _ => recognizes_of_fails (ByteReader.fail_fails .invalidWitnessMarker))
        fun _ => recognizes_readTransactionBody version fits true).guarded
      (ByteReader.fail_fails .invalidWitnessMarker)).congr
  intro tx bytes
  constructor
  · intro read
    obtain ⟨flags, _, -, ⟨rfl, inputCount, _, bound, ⟨-, impossible⟩ | ⟨-, rfl, fit⟩, rfl⟩, rfl⟩ :=
      read
    · exact impossible.elim
    · obtain rfl := fit.inputs_length
      exact ⟨rfl, bound, fit⟩
  · intro encoded
    obtain ⟨rfl, bound, fit⟩ := encoded
    have someInput : tx.inputs.length ≠ 0 := by
      intro none
      obtain ⟨-, ⟨witness, mem, -⟩, -⟩ := fit.witnesses
      rw [eq_nil_of_length_eq_zero none] at mem
      simp at mem
    exact ⟨1, _, trivial, ⟨rfl, tx.inputs.length, _, bound, Or.inr ⟨someInput, rfl, fit⟩, rfl⟩, rfl⟩

theorem flagsNext_append {bytes : List UInt8} (ne : bytes ≠ []) (inputCount : Nat)
    (tail : List UInt8) : flagsNext inputCount (bytes ++ tail) = flagsNext inputCount bytes := by
  cases bytes with
  | nil => exact absurd rfl ne
  | cons byte bytes => rfl

theorem head_writeCompactSize_eq_zero {value : Nat} :
    (writeCompactSize value).head? = some 0 ↔ value = 0 := by
  rw [writeCompactSize]
  split
  next small =>
    rw [head?_cons, Option.some.injEq, ← UInt8.toNat_inj,
      UInt8.toNat_ofNat_of_lt' (Nat.lt_trans small (by decide))]
    rfl
  next large =>
    have nonzero : value ≠ 0 := by omega
    split
    · simp [nonzero]
    · split <;> simp [nonzero]

theorem serializeBody_ne_nil (tx : Transaction) (withWitness : Bool) :
    tx.serializeBody withWitness ≠ [] := by
  simp [Transaction.serializeBody, writeUInt32, writeLE]

/-- Without the marker, an empty list of inputs is followed by an empty list of outputs. -/
theorem flagsNext_serializeBody (tx : Transaction) :
    flagsNext tx.inputs.length (tx.serializeBody false) = false ↔
      tx.inputs ≠ [] ∨ tx.outputs = [] := by
  cases inputs : tx.inputs with
  | cons input inputs => simp [flagsNext]
  | nil =>
    obtain ⟨byte, later, sizeEq⟩ := exists_cons_of_ne_nil
      (writeCompactSize_ne_nil tx.outputs.length)
    have firstZero := @head_writeCompactSize_eq_zero tx.outputs.length
    rw [sizeEq, head?_cons, Option.some.injEq, length_eq_zero_iff] at firstZero
    simp [flagsNext, Transaction.serializeBody, inputs, sizeEq, firstZero]

theorem hasWitness_iff (tx : Transaction) :
    tx.hasWitness = true ↔ ∃ witness ∈ tx.inputs.map TxInput.witness, witness ≠ [] := by
  simp [Transaction.hasWitness]

theorem serialize_of_hasWitness (witness : tx.hasWitness = true) :
    tx.serialize = writeInt32 tx.version ++ (writeCompactSize 0 ++
      (1 :: writeCompactSize tx.inputs.length ++ tx.serializeBody true)) := by
  have ne : tx.inputs.isEmpty = false := by
    cases inputs : tx.inputs with
    | nil => simp [Transaction.hasWitness, inputs] at witness
    | cons input inputs => rfl
  simp [Transaction.serialize, serializeTransaction, Transaction.serializeBody, witness, ne,
    writeCompactSize]

theorem serialize_of_noWitness (witness : tx.hasWitness = false) :
    tx.serialize = writeInt32 tx.version ++
      (writeCompactSize tx.inputs.length ++ tx.serializeBody false) := by
  simp [Transaction.serialize, serializeTransaction, Transaction.serializeBody, witness]

theorem hasWitness_of_bodyFits {version : Int32} {withWitness : Bool}
    (fit : tx.BodyFits version inputCount withWitness) :
    tx.hasWitness = withWitness := by
  have witnesses := fit.witnesses.2
  cases withWitness with
  | true => exact (hasWitness_iff tx).mpr witnesses.1
  | false =>
    rw [← Bool.not_eq_true, hasWitness_iff]
    intro found
    obtain ⟨witness, mem, ne⟩ := found
    exact ne (witnesses witness mem)

theorem representable_of_bodyFits {version : Int32} {withWitness : Bool}
    (fit : tx.BodyFits version inputCount withWitness) (bound : inputCount < 2 ^ 64)
    (unambiguous : tx.inputs ≠ [] ∨ tx.outputs = []) :
    tx.Representable := by
  have witnesses : ∀ witness ∈ tx.inputs.map TxInput.witness, WitnessRepresentable witness := by
    have fits := fit.witnesses.2
    cases withWitness with
    | true => exact fits.2
    | false =>
      intro witness mem
      obtain rfl := fits witness mem
      exact ⟨by decide, by simp⟩
  refine ⟨unambiguous, fit.inputs_length ▸ bound, fit.outputs_length, ?_, fit.outputs⟩
  intro input mem
  obtain ⟨length, items⟩ := witnesses input.witness (mem_map_of_mem mem)
  exact ⟨fit.scripts input mem, length, items⟩

theorem bodyFits_of_representable (representable : tx.Representable) :
    tx.BodyFits tx.version tx.inputs.length tx.hasWitness := by
  refine ⟨rfl, rfl, representable.outputs_length,
    fun input mem => (representable.inputs input mem).script_length, representable.outputs,
    length_map _, ?_⟩
  cases witness : tx.hasWitness with
  | true =>
    refine ⟨(hasWitness_iff tx).mp witness, ?_⟩
    intro stack mem
    obtain ⟨input, inputMem, rfl⟩ := mem_map.mp mem
    have fits := representable.inputs input inputMem
    exact ⟨fits.witness_length, fits.item_length⟩
  | false =>
    intro stack mem
    by_contra ne
    have found := (hasWitness_iff tx).mpr ⟨stack, mem, ne⟩
    rw [witness] at found
    exact Bool.noConfusion found

theorem recognizes_readTransaction :
    Recognizes readTransaction (Encoded Transaction.serialize Transaction.Representable) := by
  apply (recognizes_readInt32.bindEncoded fun version _ =>
    recognizes_readCompactSize.bindEncoded fun inputCount fits =>
      (recognizes_readFlaggedTransaction version).lookahead (flagsNext inputCount)
        (recognizes_readTransactionBody version fits false) ?decided).congr
  · intro tx bytes
    constructor
    · intro read
      obtain ⟨version, _, -, ⟨inputCount, after, bound, ⟨marker, rfl, inputsBound, fit⟩ |
        ⟨noMarker, rfl, fit⟩, rfl⟩, rfl⟩ := read
      · have witness := hasWitness_of_bodyFits fit
        have zero : inputCount = 0 := by
          rw [flagsNext, Bool.and_eq_true, beq_iff_eq] at marker
          exact marker.1
        have someInput : tx.inputs ≠ [] := by
          intro none
          simp [Transaction.hasWitness, none] at witness
        refine ⟨?_, representable_of_bodyFits fit inputsBound (Or.inl someInput)⟩
        rw [serialize_of_hasWitness witness, zero, fit.version]
      · have witness := hasWitness_of_bodyFits fit
        obtain rfl := fit.inputs_length
        refine ⟨?_, representable_of_bodyFits fit bound ((flagsNext_serializeBody tx).mp noMarker)⟩
        rw [serialize_of_noWitness witness, fit.version]
    · intro encoded
      obtain ⟨rfl, representable⟩ := encoded
      have fit := bodyFits_of_representable representable
      cases witness : tx.hasWitness with
      | true =>
        rw [witness] at fit
        exact ⟨tx.version, _, trivial, ⟨0, _, by decide,
          Or.inl ⟨rfl, rfl, representable.inputs_length, fit⟩, rfl⟩,
          serialize_of_hasWitness witness⟩
      | false =>
        rw [witness] at fit
        exact ⟨tx.version, _, trivial, ⟨tx.inputs.length, _, representable.inputs_length,
          Or.inr ⟨(flagsNext_serializeBody tx).mpr representable.unambiguous, rfl, fit⟩, rfl⟩,
          serialize_of_noWitness witness⟩
  · intro tx bytes encoded tail
    apply flagsNext_append
    rcases encoded with flagged | plain
    · rw [flagged.1]
      exact cons_ne_nil _ _
    · rw [plain.1]
      exact serializeBody_ne_nil tx false

/-! ## Blocks -/

theorem recognizes_readBlockHeader :
    Recognizes readBlockHeader (Encoded BlockHeader.serialize fun _ => True) := by
  apply (recognizes_readInt32.bindEncoded fun version _ =>
    recognizes_readHash.bindEncoded fun previousBlockHash _ =>
      recognizes_readHash.bindEncoded fun merkleRoot _ =>
        recognizes_readUInt32.bindEncoded fun time _ =>
          recognizes_readUInt32.bindEncoded fun bits _ =>
            recognizes_readUInt32.map fun nonce =>
              (⟨version, previousBlockHash, merkleRoot, time, bits, nonce⟩ : BlockHeader)).congr
  intro header bytes
  constructor
  · intro read
    obtain ⟨version, _, -, ⟨previousBlockHash, _, -, ⟨merkleRoot, _, -, ⟨time, _, -,
      ⟨bits, _, -, ⟨nonce, ⟨rfl, -⟩, rfl⟩, rfl⟩, rfl⟩, rfl⟩, rfl⟩, rfl⟩ := read
    simp only [Encoded, BlockHeader.serialize, append_assoc, and_self]
  · intro encoded
    obtain ⟨rfl, -⟩ := encoded
    refine ⟨header.version, _, trivial, ⟨header.previousBlockHash, _, trivial,
      ⟨header.merkleRoot, _, trivial, ⟨header.time, _, trivial, ⟨header.bits, _, trivial,
        ⟨header.nonce, ⟨rfl, trivial⟩, rfl⟩, rfl⟩, rfl⟩, rfl⟩, rfl⟩, ?_⟩
    simp only [BlockHeader.serialize, append_assoc]

theorem length_serialize_transaction (tx : Transaction) : 10 ≤ tx.serialize.length := by
  have inputs := length_writeCompactSize_pos tx.inputs.length
  have outputs := length_writeCompactSize_pos tx.outputs.length
  simp only [Transaction.serialize, serializeTransaction, writeInt32, writeUInt32,
    length_append, length_writeLE]
  omega

theorem recognizes_readBlock :
    Recognizes readBlock (Encoded Block.serialize Block.Representable) := by
  apply (recognizes_readBlockHeader.bindEncoded fun header _ =>
    (recognizes_readCounted recognizes_readTransaction (by decide : 0 < 10)
      length_serialize_transaction).map fun txs => (⟨header, txs⟩ : Block)).congr
  intro block bytes
  constructor
  · intro read
    obtain ⟨header, _, -, ⟨txs, ⟨rfl, bound, representable⟩, rfl⟩, rfl⟩ := read
    refine ⟨?_, bound, representable⟩
    simp only [Block.serialize, append_assoc]
  · intro encoded
    obtain ⟨rfl, bound, representable⟩ := encoded
    refine ⟨block.header, _, trivial, ⟨block.transactions, ⟨rfl, bound, representable⟩, rfl⟩, ?_⟩
    simp only [Block.serialize, append_assoc]

/-! ## Whole byte strings -/

theorem parseExact_eq_ok {read : Parser α} (recognizes : Recognizes read format) {value : α} :
    parseExact raw read = .ok value ↔ format value raw := by
  have whole := @Recognizes.whole _ _ _ format _ read recognizes ⟨0, raw⟩ value
  change _ ↔ format value raw at whole
  rw [← whole, parseExact]
  cases accepted : read ⟨0, raw⟩ with
  | error failure => simp
  | ok res =>
    obtain ⟨res, finish⟩ := res
    dsimp only
    split
    next empty =>
      have nothingLeft : finish.rest = [] := isEmpty_iff.mp empty
      simp [ByteSource.rest, nothingLeft]
    next ne =>
      have somethingLeft : finish.rest ≠ [] := fun empty => ne (isEmpty_iff.mpr empty)
      simp [ByteSource.rest, somethingLeft]

theorem parseTransaction_eq_ok :
    parseTransaction raw = .ok tx ↔ raw = tx.serialize ∧ tx.Representable :=
  parseExact_eq_ok recognizes_readTransaction

theorem parseBlock_eq_ok {block : Block} :
    parseBlock raw = .ok block ↔ raw = block.serialize ∧ block.Representable :=
  parseExact_eq_ok recognizes_readBlock

/-- The parsers accept exactly the serializations of representable values, and return the
value that was serialized. -/
theorem parse_eq_ok_iff_serialize :
    (∀ raw tx, parseTransaction raw = .ok tx ↔ tx.Representable ∧ raw = tx.serialize) ∧
      ∀ raw block, parseBlock raw = .ok block ↔ block.Representable ∧ raw = block.serialize := by
  constructor
  · intro raw tx
    rw [parseTransaction_eq_ok, and_comm]
  · intro raw block
    rw [parseBlock_eq_ok, and_comm]

/-! ## What the identifiers commit to -/

def TxInput.withoutWitness (input : TxInput) : TxInput :=
  { input with witness := [] }

def Transaction.withoutWitnesses (tx : Transaction) : Transaction :=
  { tx with inputs := tx.inputs.map TxInput.withoutWitness }

theorem hasWitness_withoutWitnesses (tx : Transaction) :
    tx.withoutWitnesses.hasWitness = false := by
  rw [← Bool.not_eq_true, hasWitness_iff]
  intro found
  obtain ⟨witness, mem, ne⟩ := found
  rw [Transaction.withoutWitnesses, map_map] at mem
  obtain ⟨input, -, rfl⟩ := mem_map.mp mem
  exact ne rfl

theorem serialize_withoutWitnesses (tx : Transaction) :
    tx.withoutWitnesses.serialize = serializeTransaction tx false := by
  have inputs : tx.withoutWitnesses.inputs.flatMap TxInput.serialize =
      tx.inputs.flatMap TxInput.serialize := by
    rw [Transaction.withoutWitnesses, flatMap_map]
    rfl
  have length : tx.withoutWitnesses.inputs.length = tx.inputs.length := length_map _
  rw [serialize_of_noWitness (hasWitness_withoutWitnesses tx), Transaction.serializeBody, inputs,
    length]
  simp [serializeTransaction, Transaction.withoutWitnesses]

theorem Representable.withoutWitnesses (representable : tx.Representable) :
    tx.withoutWitnesses.Representable := by
  refine ⟨?_, ?_, representable.outputs_length, ?_, representable.outputs⟩
  · rcases representable.unambiguous with someInput | noOutput
    · exact Or.inl fun empty => someInput (map_eq_nil_iff.mp empty)
    · exact Or.inr noOutput
  · rw [Transaction.withoutWitnesses, length_map]
    exact representable.inputs_length
  · intro stripped mem
    obtain ⟨input, inputMem, rfl⟩ := mem_map.mp mem
    exact ⟨(representable.inputs input inputMem).script_length, Nat.two_pow_pos 64,
      by simp [TxInput.withoutWitness]⟩

theorem serialize_injective {first second : Transaction} (firstFits : first.Representable)
    (secondFits : second.Representable) (same : first.serialize = second.serialize) :
    first = second := by
  have parsedFirst := parseTransaction_eq_ok.mpr ⟨rfl, firstFits⟩
  have parsedSecond := parseTransaction_eq_ok.mpr ⟨rfl, secondFits⟩
  rw [same, parsedSecond, Except.ok.injEq] at parsedFirst
  exact parsedFirst.symm

/-- The bytes that are hashed to a txid determine all but the witnesses, those that are hashed to
a wtxid determine the transaction, and no bytes are hashed to both with a witness. -/
theorem serializeTransaction_determines {first second : Transaction}
    (firstFits : first.Representable) (secondFits : second.Representable) :
    (serializeTransaction first false = serializeTransaction second false ↔
        first.withoutWitnesses = second.withoutWitnesses) ∧
      (serializeTransaction first true = serializeTransaction second true ↔ first = second) ∧
      (second.hasWitness = true →
        serializeTransaction first false ≠ serializeTransaction second true) := by
  refine ⟨?_, ?_, ?_⟩
  · rw [← serialize_withoutWitnesses, ← serialize_withoutWitnesses]
    constructor
    · intro same
      exact serialize_injective (Representable.withoutWitnesses firstFits)
        (Representable.withoutWitnesses secondFits) same
    · intro same
      rw [same]
  · constructor
    · intro same
      exact serialize_injective firstFits secondFits same
    · intro same
      rw [same]
  · intro witness same
    rw [← serialize_withoutWitnesses] at same
    have stripped := serialize_injective (Representable.withoutWitnesses firstFits) secondFits same
    rw [← stripped, hasWitness_withoutWitnesses] at witness
    cases witness

/-- A transaction whose input has a witness. -/
def witnessSpend : Transaction :=
  ⟨2, [⟨⟨1, 0⟩, [], 0, [[7]]⟩], [⟨5, [0x51]⟩], 0⟩

theorem representable_witnessSpend : witnessSpend.Representable := by
  refine ⟨Or.inl (cons_ne_nil _ _), by decide, by decide, ?_, ?_⟩
  · intro input mem
    obtain rfl := mem_singleton.mp mem
    refine ⟨by decide, by decide, ?_⟩
    intro item itemMem
    obtain rfl := mem_singleton.mp itemMem
    decide
  · intro output mem
    obtain rfl := mem_singleton.mp mem
    exact (by decide : [(0x51 : UInt8)].length < 2 ^ 64)

/-- Without its witness it has the same txid bytes and other wtxid bytes. -/
theorem serializeTransaction_determines_witnessSpend : serializeTransaction witnessSpend false =
        serializeTransaction witnessSpend.withoutWitnesses false ∧
      serializeTransaction witnessSpend true ≠
        serializeTransaction witnessSpend.withoutWitnesses true ∧
      serializeTransaction witnessSpend.withoutWitnesses false ≠
        serializeTransaction witnessSpend true := by
  have stripped := Representable.withoutWitnesses representable_witnessSpend
  have determines := serializeTransaction_determines representable_witnessSpend stripped
  refine ⟨determines.1.mpr (by decide), fun same => absurd (determines.2.1.mp same) (by decide), ?_⟩
  exact (serializeTransaction_determines stripped representable_witnessSpend).2.2 (by decide)

end Protocol

end Champy
