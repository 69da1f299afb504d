import Champy.ProtocolRoundTrip
import Champy.StructuralStage

/-!
# The deserializer of the consensus library

`ParseTransaction` and `ParseBlock` read from a span that shrinks as it is read.  Every
failure is an `std::ios_base::failure`, kept here with its text, and the parse functions
turn it into no result.  Compact sizes above `MAX_SIZE` are refused; byte vectors are read
in blocks of five million bytes.

On strings of at most `MAX_SIZE` bytes both parsers accept the same strings and return the
same fields: a count or a length above the limit could not be followed by enough bytes.
-/

namespace Champy

namespace Consensus

/-- The bytes that a `ByteReader` has not read yet. -/
structure ByteReader where
  bytes : List UInt8
  deriving DecidableEq, Repr

namespace ByteReader

/-- Throw an `std::ios_base::failure`. -/
def fail {α : Type} (message : String) : Reader ByteReader String α :=
  fun _ => .error message

def read (size : Nat) : Reader ByteReader String (List UInt8) :=
  fun reader =>
    if reader.bytes.length < size then .error "ByteReader::read(): end of data"
    else .ok (reader.bytes.take size, ⟨reader.bytes.drop size⟩)

instance : ByteSource ByteReader String where
  rest := ByteReader.bytes
  advance count reader := ⟨reader.bytes.drop count⟩
  read := read
  advance_zero start := rfl
  advance_add first second start := by simp [List.drop_drop]
  rest_advance count start := rfl
  read_eq_ok := by
    intro count start bytes finish
    rw [read]
    split
    next short =>
      constructor
      · intro impossible
        cases impossible
      · intro comes
        have bound := comes.2.1.length_le
        have length := comes.1
        omega
    next long =>
      rw [Except.ok.injEq, Prod.mk.injEq]
      constructor
      · intro returned
        obtain ⟨rfl, rfl⟩ := returned
        exact ⟨List.length_take_of_le (by omega), List.take_prefix count start.bytes, rfl⟩
      · intro comes
        obtain ⟨length, isNext, rfl⟩ := comes
        rw [← length]
        exact ⟨(List.prefix_iff_eq_take.mp isNext).symm, rfl⟩

end ByteReader

abbrev Stream (α : Type) : Type := Reader ByteReader String α

def maxSize : Nat := 0x02000000

/-! ## Unserialize -/

def readLongCompactSize (width minimum : Nat) : Stream Nat := do
  let size ← readLittle width id
  if minimum ≤ size then pure size else ByteReader.fail "non-canonical ReadCompactSize()"

/-- The size before the range check of `ReadCompactSize`. -/
def readUncheckedCompactSize : Stream Nat := do
  let chSize ← readUInt8
  if chSize < 253 then pure chSize.toNat
  else if chSize = 253 then readLongCompactSize 2 253
  else if chSize = 254 then readLongCompactSize 4 0x10000
  else readLongCompactSize 8 0x100000000

def readCompactSize : Stream Nat := do
  let size ← readUncheckedCompactSize
  if size ≤ maxSize then pure size else ByteReader.fail "ReadCompactSize(): size too large"

/-- The loop that reads a byte vector in blocks, so that a bogus size does not allocate much. -/
def readInBlocks (size : Nat) : Stream (List UInt8) :=
  if size = 0 then pure []
  else do
    let block ← ByteReader.read (min size 5000000)
    let blocks ← readInBlocks (size - min size 5000000)
    pure (block ++ blocks)
  termination_by size
  decreasing_by omega

def unserializeBytes : Stream (List UInt8) := do
  let size ← readCompactSize
  readInBlocks size

/-- `VectorFormatter::Unser`.  Its batches only bound how much is allocated at once. -/
def unserializeVector {α : Type} (item : Stream α) : Stream (List α) := do
  let size ← readCompactSize
  Reader.readMany item size

def unserializeTxIn : Stream CTxIn := do
  let hash ← readHash
  let n ← readUInt32
  let scriptSig ← unserializeBytes
  let nSequence ← readUInt32
  pure ⟨⟨hash, n⟩, scriptSig, nSequence, []⟩

def unserializeTxOut : Stream CTxOut := do
  let nValue ← readInt64
  let scriptPubKey ← unserializeBytes
  pure ⟨nValue, scriptPubKey⟩

structure CMutableTransaction where
  vin : List CTxIn
  vout : List CTxOut
  version : UInt32
  nLockTime : UInt32
  deriving DecidableEq, Repr

def CMutableTransaction.hasWitness (tx : CMutableTransaction) : Bool :=
  tx.vin.any fun txin => !txin.scriptWitness.isEmpty

def withScriptWitness (txin : CTxIn) (stack : List (List UInt8)) : CTxIn :=
  { txin with scriptWitness := stack }

/-- The end of `UnserializeTransaction`, after the witnesses. -/
def unserializeLockTime (version : UInt32) (flags : UInt8) (vin : List CTxIn)
    (vout : List CTxOut) : Stream CMutableTransaction :=
  if flags = 0 then do
    let nLockTime ← readUInt32
    pure ⟨vin, vout, version, nLockTime⟩
  else ByteReader.fail "Unknown transaction optional data"

def unserializeWitnesses (version : UInt32) (flags : UInt8) (vin : List CTxIn)
    (vout : List CTxOut) : Stream CMutableTransaction :=
  if flags &&& 1 = 1 then do
    let witnesses ← Reader.readMany (unserializeVector unserializeBytes) vin.length
    let vin := List.zipWith withScriptWitness vin witnesses
    if vin.any (fun txin => !txin.scriptWitness.isEmpty) then
      unserializeLockTime version (flags ^^^ 1) vin vout
    else ByteReader.fail "Superfluous witness record"
  else unserializeLockTime version flags vin vout

/-- `UnserializeTransaction` with `TX_WITH_WITNESS`. -/
def unserializeTransaction : Stream CMutableTransaction := do
  let version ← readUInt32
  let vin ← unserializeVector unserializeTxIn
  if vin.isEmpty then
    let flags ← readUInt8
    if flags = 0 then unserializeWitnesses version flags vin []
    else
      let vin ← unserializeVector unserializeTxIn
      let vout ← unserializeVector unserializeTxOut
      unserializeWitnesses version flags vin vout
  else
    let vout ← unserializeVector unserializeTxOut
    unserializeWitnesses version 0 vin vout

def unserializeBlockHeader : Stream CBlockHeader := do
  let nVersion ← readInt32
  let hashPrevBlock ← readHash
  let hashMerkleRoot ← readHash
  let nTime ← readUInt32
  let nBits ← readUInt32
  let nNonce ← readUInt32
  pure ⟨nVersion, hashPrevBlock, hashMerkleRoot, nTime, nBits, nNonce⟩

/-! ## Serialize -/

def serializeTxIn (txin : CTxIn) : List UInt8 :=
  hashBytes txin.prevout.hash ++ writeUInt32 txin.prevout.n ++ writeSizedBytes txin.scriptSig ++
    writeUInt32 txin.nSequence

def serializeTxOut (txout : CTxOut) : List UInt8 :=
  writeInt64 txout.nValue ++ writeSizedBytes txout.scriptPubKey

def serializeVector {α : Type} (item : α → List UInt8) (values : List α) : List UInt8 :=
  writeCompactSize values.length ++ values.flatMap item

/-- `SerializeTransaction`, with and without witnesses. -/
def serializeTransaction (tx : CMutableTransaction) (allowWitness : Bool) : List UInt8 :=
  let flags := allowWitness && tx.hasWitness
  writeUInt32 tx.version ++ (if flags then writeCompactSize 0 ++ [1] else []) ++
    serializeVector serializeTxIn tx.vin ++ serializeVector serializeTxOut tx.vout ++
    (if flags then tx.vin.flatMap fun txin => serializeVector writeSizedBytes txin.scriptWitness
      else []) ++
    writeUInt32 tx.nLockTime

def serializeBlockHeader (header : CBlockHeader) : List UInt8 :=
  writeInt32 header.nVersion ++ hashBytes header.hashPrevBlock ++
    hashBytes header.hashMerkleRoot ++ writeUInt32 header.nTime ++ writeUInt32 header.nBits ++
    writeUInt32 header.nNonce

/-! ## Parsing -/

section Parsing

variable (doubleSha256 : ByteHash)

/-- The constructor of `CTransaction`, which caches the hash of the stripped transaction. -/
def CMutableTransaction.toTransaction (tx : CMutableTransaction) : CTransaction :=
  ⟨tx.vin, tx.vout, tx.version, tx.nLockTime, doubleSha256 (serializeTransaction tx false)⟩

def unserializeBlock : Stream CBlock := do
  let header ← unserializeBlockHeader
  let vtx ← unserializeVector unserializeTransaction
  pure ⟨header, vtx.map (CMutableTransaction.toTransaction doubleSha256)⟩

def parseExact {α : Type} (bytes : List UInt8) (read : Stream α) : Option α :=
  match read ⟨bytes⟩ with
  | .error _ => none
  | .ok (value, reader) => if reader.bytes.isEmpty then some value else none

def parseTransaction (bytes : List UInt8) : Option CTransaction :=
  (parseExact bytes unserializeTransaction).map (CMutableTransaction.toTransaction doubleSha256)

def parseBlock (bytes : List UInt8) : Option CBlock :=
  parseExact bytes (unserializeBlock doubleSha256)

end Parsing

end Consensus

/-! ## The same value in both libraries -/

namespace Protocol

def toCoreTxInput (input : TxInput) : CTxIn :=
  ⟨input.previousOutput, input.script, input.sequence, input.witness⟩

def toCoreTxOutput (output : TxOutput) : CTxOut :=
  ⟨output.value, output.script⟩

def toCoreMutable (tx : Transaction) : Consensus.CMutableTransaction :=
  ⟨tx.inputs.map toCoreTxInput, tx.outputs.map toCoreTxOutput, tx.version.toUInt32, tx.locktime⟩

def toCoreTransaction (doubleSha256 : ByteHash) (tx : Transaction) : CTransaction :=
  (toCoreMutable tx).toTransaction doubleSha256

def toCoreHeader (header : BlockHeader) : CBlockHeader :=
  ⟨header.version, header.previousBlockHash, header.merkleRoot, header.time, header.bits,
    header.nonce⟩

def toCoreBlock (doubleSha256 : ByteHash) (block : Block) : CBlock :=
  ⟨toCoreHeader block.header, block.transactions.map (toCoreTransaction doubleSha256)⟩

end Protocol

end Champy
