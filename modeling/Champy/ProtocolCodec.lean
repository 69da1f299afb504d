import Champy.WireFormat

/-!
# The protocol codec

The value types of `bitcoin/protocol` and the functions that turn them into bytes and
back.  A `byte_reader` keeps the first failure and ignores every later read, so a failed
read ends the parse here; the offset that the failure records is the reader's position
at that moment.  A sink only collects what is written to it, so serialization returns
the bytes.
-/

namespace Champy

namespace Protocol

structure TxInput where
  previousOutput : COutPoint
  script : List UInt8
  sequence : UInt32
  witness : List (List UInt8)
  deriving DecidableEq, Repr

structure TxOutput where
  value : Int64
  script : List UInt8
  deriving DecidableEq, Repr

structure Transaction where
  version : Int32
  inputs : List TxInput
  outputs : List TxOutput
  locktime : UInt32
  deriving DecidableEq, Repr

structure BlockHeader where
  version : Int32
  previousBlockHash : Uint256
  merkleRoot : Uint256
  time : UInt32
  bits : UInt32
  nonce : UInt32
  deriving DecidableEq, Repr

structure Block where
  header : BlockHeader
  transactions : List Transaction
  deriving DecidableEq, Repr

/-! ## The reader -/

inductive ParseFailureCode
  | truncated
  | trailingData
  | nonCanonicalCompactSize
  | compactSizeOverflow
  | invalidWitnessMarker
  deriving DecidableEq, Repr

structure MalformedParse where
  code : ParseFailureCode
  offset : Nat
  deriving DecidableEq, Repr

/-- `byte_reader` while it is still ok: how many bytes it has read, and those after them. -/
structure ByteReader where
  offset : Nat
  rest : List UInt8
  deriving DecidableEq, Repr

namespace ByteReader

def fail {α : Type} (code : ParseFailureCode) : Reader ByteReader MalformedParse α :=
  fun reader => .error ⟨code, reader.offset⟩

def advance (count : Nat) (reader : ByteReader) : ByteReader :=
  ⟨reader.offset + count, reader.rest.drop count⟩

def read (size : Nat) : Reader ByteReader MalformedParse (List UInt8) :=
  fun reader =>
    if reader.rest.length < size then .error ⟨.truncated, reader.offset⟩
    else .ok (reader.rest.take size, reader.advance size)

instance : ByteSource ByteReader MalformedParse where
  rest := ByteReader.rest
  advance := advance
  read := read
  advance_zero start := rfl
  advance_add first second start := by
    simp [advance, Nat.add_assoc, List.drop_drop]
  rest_advance count start := rfl
  read_eq_ok := by
    intro count start bytes finish
    rw [read]
    split
    next short =>
      constructor
      · intro impossible
        cases impossible
      · rintro ⟨length, comes, -⟩
        have bound := comes.length_le
        omega
    next long =>
      rw [Except.ok.injEq, Prod.mk.injEq]
      constructor
      · rintro ⟨rfl, rfl⟩
        exact ⟨List.length_take_of_le (by omega), List.take_prefix count start.rest, rfl⟩
      · rintro ⟨length, comes, rfl⟩
        rw [← length]
        exact ⟨(List.prefix_iff_eq_take.mp comes).symm, rfl⟩

end ByteReader

/-! ## Parsing -/

abbrev Parser (α : Type) : Type := Reader ByteReader MalformedParse α

/-- A size after one of the three marker bytes, refused when a shorter form could hold it. -/
def readLongCompactSize (width minimum : Nat) : Parser Nat := do
  let value ← readLittle width id
  if minimum ≤ value then pure value else ByteReader.fail .nonCanonicalCompactSize

def readCompactSize : Parser Nat := do
  let first ← readUInt8
  if first < 253 then pure first.toNat
  else if first = 253 then readLongCompactSize 2 253
  else if first = 254 then readLongCompactSize 4 0x10000
  else readLongCompactSize 8 0x100000000

def sizeMax : Nat := 2 ^ 64 - 1

def fitsSize (value : Nat) : Bool :=
  value ≤ sizeMax

def requireCountFitsRemaining (count minimumItemBytes : Nat) : Parser Unit :=
  fun reader =>
    if !fitsSize count then .error ⟨.compactSizeOverflow, reader.offset⟩
    else if 0 < minimumItemBytes && reader.rest.length / minimumItemBytes < count then
      .error ⟨.truncated, reader.offset⟩
    else .ok ((), reader)

/-- A size and that many bytes: a script, or one item of a witness. -/
def readSizedBytes : Parser (List UInt8) := do
  let size ← readCompactSize
  if fitsSize size then ByteReader.read size else ByteReader.fail .compactSizeOverflow

/-- An input before its witness is known. -/
structure InputParts where
  previousOutput : COutPoint
  scriptSig : List UInt8
  sequence : UInt32
  deriving DecidableEq, Repr

def readInputParts : Parser InputParts := do
  let hash ← readHash
  let index ← readUInt32
  let scriptSig ← readSizedBytes
  let sequence ← readUInt32
  pure ⟨⟨hash, index⟩, scriptSig, sequence⟩

def readOutput : Parser TxOutput := do
  let value ← readInt64
  let script ← readSizedBytes
  pure ⟨value, script⟩

/-- A count and that many items, the count being checked against the bytes left. -/
def readCounted {α : Type} (item : Parser α) (minimumItemBytes : Nat) : Parser (List α) := do
  let count ← readCompactSize
  requireCountFitsRemaining count minimumItemBytes
  Reader.readMany item count

def readWitness : Parser (List (List UInt8)) :=
  readCounted readSizedBytes 1

/-- The witnesses of all inputs.  When they are written, at least one of them has an item. -/
def readWitnesses (withWitness : Bool) (inputCount : Nat) : Parser (List (List (List UInt8))) :=
  if withWitness then do
    let witnesses ← Reader.readMany readWitness inputCount
    if witnesses.any (fun witness => !witness.isEmpty) then pure witnesses
    else ByteReader.fail .invalidWitnessMarker
  else pure (List.replicate inputCount [])

def InputParts.withWitness (parts : InputParts) (witness : List (List UInt8)) : TxInput :=
  ⟨parts.previousOutput, parts.scriptSig, parts.sequence, witness⟩

/-- The part of `read_transaction` after the number of inputs. -/
def readTransactionBody (version : Int32) (inputCount : Nat) (withWitness : Bool) :
    Parser Transaction := do
  requireCountFitsRemaining inputCount 41
  let parts ← Reader.readMany readInputParts inputCount
  let outputs ← readCounted readOutput 9
  let witnesses ← readWitnesses withWitness inputCount
  let locktime ← readUInt32
  pure ⟨version, List.zipWith InputParts.withWitness parts witnesses, outputs, locktime⟩

/-- The part of `read_transaction` from the flags byte on. -/
def readFlaggedTransaction (version : Int32) : Parser Transaction := do
  let flags ← readUInt8
  if flags = 1 then
    let inputCount ← readCompactSize
    if inputCount = 0 then ByteReader.fail .invalidWitnessMarker
    else readTransactionBody version inputCount true
  else ByteReader.fail .invalidWitnessMarker

/-- Whether a flags byte comes next: `input_count == 0`, and the reader is not empty and its
next byte is not zero. -/
def flagsNext (inputCount : Nat) (rest : List UInt8) : Bool :=
  inputCount == 0 && rest.head?.any (· != 0)

def readTransaction : Parser Transaction := do
  let version ← readInt32
  let firstInputCount ← readCompactSize
  let reader ← get
  if flagsNext firstInputCount reader.rest then readFlaggedTransaction version
  else readTransactionBody version firstInputCount false

def readBlockHeader : Parser BlockHeader := do
  let version ← readInt32
  let previousBlockHash ← readHash
  let merkleRoot ← readHash
  let time ← readUInt32
  let bits ← readUInt32
  let nonce ← readUInt32
  pure ⟨version, previousBlockHash, merkleRoot, time, bits, nonce⟩

def readBlock : Parser Block := do
  let header ← readBlockHeader
  let transactions ← readCounted readTransaction 10
  pure ⟨header, transactions⟩

def parseExact {α : Type} (raw : List UInt8) (read : Parser α) : Except MalformedParse α :=
  match read ⟨0, raw⟩ with
  | .error failure => .error failure
  | .ok (value, reader) =>
    if reader.rest.isEmpty then .ok value else .error ⟨.trailingData, reader.offset⟩

def parseTransaction (raw : List UInt8) : Except MalformedParse Transaction :=
  parseExact raw readTransaction

def parseBlock (raw : List UInt8) : Except MalformedParse Block :=
  parseExact raw readBlock

/-! ## Serialization -/

def TxInput.serialize (input : TxInput) : List UInt8 :=
  hashBytes input.previousOutput.hash ++ writeUInt32 input.previousOutput.n ++
    writeSizedBytes input.script ++ writeUInt32 input.sequence

def TxOutput.serialize (output : TxOutput) : List UInt8 :=
  writeInt64 output.value ++ writeSizedBytes output.script

def serializeWitness (witness : List (List UInt8)) : List UInt8 :=
  writeCompactSize witness.length ++ witness.flatMap writeSizedBytes

def Transaction.hasWitness (tx : Transaction) : Bool :=
  tx.inputs.any fun input => !input.witness.isEmpty

def serializeTransaction (tx : Transaction) (includeWitness : Bool) : List UInt8 :=
  let writeWitness := includeWitness && tx.hasWitness && !tx.inputs.isEmpty
  writeInt32 tx.version ++ (if writeWitness then [0, 1] else []) ++
    (writeCompactSize tx.inputs.length ++ tx.inputs.flatMap TxInput.serialize) ++
    (writeCompactSize tx.outputs.length ++ tx.outputs.flatMap TxOutput.serialize) ++
    (if writeWitness then tx.inputs.flatMap fun input => serializeWitness input.witness else []) ++
    writeUInt32 tx.locktime

def Transaction.serialize (tx : Transaction) : List UInt8 :=
  serializeTransaction tx true

def BlockHeader.serialize (header : BlockHeader) : List UInt8 :=
  writeInt32 header.version ++ hashBytes header.previousBlockHash ++
    hashBytes header.merkleRoot ++ writeUInt32 header.time ++ writeUInt32 header.bits ++
    writeUInt32 header.nonce

def Block.serialize (block : Block) : List UInt8 :=
  block.header.serialize ++ writeCompactSize block.transactions.length ++
    block.transactions.flatMap Transaction.serialize

def Block.serializeStripped (block : Block) : List UInt8 :=
  block.header.serialize ++ writeCompactSize block.transactions.length ++
    block.transactions.flatMap fun tx => serializeTransaction tx false

/-! ## Sizes and identifiers -/

def Transaction.strippedSerializedSize (tx : Transaction) : Nat :=
  (serializeTransaction tx false).length

def Block.serializedSize (block : Block) : Nat :=
  block.serialize.length

def Block.strippedSerializedSize (block : Block) : Nat :=
  block.serializeStripped.length

def Block.weight (block : Block) : Nat :=
  block.strippedSerializedSize * 3 + block.serializedSize

section Hashes

variable (doubleSha256 : ByteHash)

def Transaction.id (tx : Transaction) : Txid :=
  doubleSha256 (serializeTransaction tx false)

def Transaction.witnessId (tx : Transaction) : Uint256 :=
  doubleSha256 (serializeTransaction tx true)

def BlockHeader.hash (header : BlockHeader) : Uint256 :=
  doubleSha256 header.serialize

end Hashes

end Protocol

end Champy
