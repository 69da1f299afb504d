import Champy.ProofOfWork
import Champy.StoppingLoops

/-!
# Headers synchronization

`HeadersSyncState` downloads a chain of headers twice.  In the first phase it only adds up
their work and keeps one bit of every few headers.  Once there is enough work it asks for the
headers again, compares the bits, and hands a header on when enough headers after it are there
or the work is reached again.

An `Assume` only fails in debug builds and is left out, as are the log messages.  The salted
hasher and double SHA-256 are parameters.
-/

namespace Champy

def CBlockHeader.setNull : CBlockHeader := ⟨0, 0, 0, 0, 0, 0⟩

/-- A header without the hash of the one before it. -/
structure CompressedHeader where
  nVersion : Int32
  hashMerkleRoot : Uint256
  nTime : UInt32
  nBits : UInt32
  nNonce : UInt32
  deriving DecidableEq, Repr

def CompressedHeader.ofHeader (header : CBlockHeader) : CompressedHeader :=
  ⟨header.nVersion, header.hashMerkleRoot, header.nTime, header.nBits, header.nNonce⟩

def CompressedHeader.getFullHeader (header : CompressedHeader) (hashPrevBlock : Uint256) :
    CBlockHeader :=
  ⟨header.nVersion, hashPrevBlock, header.hashMerkleRoot, header.nTime, header.nBits, header.nNonce⟩

namespace HeadersSync

inductive State
  | presync
  | redownload
  | final
  deriving DecidableEq, Repr

/-- `HeadersSyncState::Start`, as far as the synchronization reads it. -/
structure Start where
  header : CBlockHeader
  height : Int32
  chainWork : ArithUint256

/-- What does not change during a synchronization.  The constructor asserts that the period is
not zero and draws the offset below it; it bounds the commitments by the time since the start
of the chain. -/
structure Config where
  doubleSha256 : ByteHash
  hasher : Uint256 → UInt64
  consensusParams : ProofOfWorkParams
  commitmentPeriod : Nat
  redownloadBufferSize : Nat
  commitOffset : Nat
  chainStart : Start
  minimumRequiredWork : ArithUint256
  maxCommitments : Nat
  commitOffset_lt : commitOffset < commitmentPeriod

/-- The variables of `HeadersSyncState`.  Queues have their front first. -/
structure Sync where
  currentChainWork : ArithUint256
  headerCommitments : List Bool := []
  lastHeaderReceived : CBlockHeader
  currentHeight : Int
  redownloadedHeaders : List CompressedHeader := []
  redownloadBufferLastHeight : Int := 0
  redownloadBufferLastHash : Uint256 := 0
  redownloadBufferFirstPrevHash : Uint256 := 0
  redownloadChainWork : ArithUint256 := ArithUint256.ofUInt64 0
  processAllRemainingHeaders : Bool := false
  downloadState : State := .presync

structure ProcessingResult where
  powValidatedHeaders : List CBlockHeader := []
  success : Bool := false
  requestMore : Bool := false

variable (config : Config)

def Config.getHash (header : CBlockHeader) : Uint256 :=
  config.doubleSha256 (Consensus.serializeBlockHeader header)

/-- One bit of the salted hash of a header. -/
def Config.commitment (header : CBlockHeader) : Bool :=
  config.hasher (config.getHash header) &&& 1 != 0

/-- Heights are converted to `size_t` for the remainder. -/
def Config.isCommitmentHeight (height : Int) : Bool :=
  (UInt64.ofInt height).toNat % config.commitmentPeriod == config.commitOffset

/-- The object after its constructor. -/
def start : Sync where
  currentChainWork := config.chainStart.chainWork
  lastHeaderReceived := config.chainStart.header
  currentHeight := config.chainStart.height.toInt

variable (sync : Sync) (headers : List CBlockHeader)

def finalize : Sync :=
  { sync with
    headerCommitments := []
    lastHeaderReceived := CBlockHeader.setNull
    redownloadedHeaders := []
    redownloadBufferLastHash := 0
    redownloadBufferFirstPrevHash := 0
    processAllRemainingHeaders := false
    currentHeight := 0
    downloadState := .final }

/-! ## The first phase -/

/-- The end of `ValidateAndProcessSingleHeader`. -/
def acceptSingleHeader (current : CBlockHeader) (nextHeight : Int) : Exec Empty (Bool × Sync) := do
  let proof ← getBlockProof current
  pure (true,
    { sync with
      currentChainWork := sync.currentChainWork.add proof
      lastHeaderReceived := current
      currentHeight := nextHeight })

def validateAndProcessSingleHeader (current : CBlockHeader) : Exec Empty (Bool × Sync) :=
  if sync.downloadState ≠ .presync then pure (false, sync)
  else do
    -- the height is an `int` here
    let nextHeight := (Int32.ofInt (sync.currentHeight + 1)).toInt
    let permitted ← checkPermittedDifficultyTransition config.consensusParams nextHeight
      sync.lastHeaderReceived.nBits current.nBits
    if !permitted then pure (false, sync)
    else if config.isCommitmentHeight nextHeight then
      let sync := { sync with
        headerCommitments := sync.headerCommitments ++ [config.commitment current] }
      if sync.headerCommitments.length > config.maxCommitments then pure (false, sync)
      else acceptSingleHeader sync current nextHeight
    else acceptSingleHeader sync current nextHeight

def enterRedownload : Sync :=
  { sync with
    redownloadedHeaders := []
    redownloadBufferLastHeight := config.chainStart.height.toInt
    redownloadBufferFirstPrevHash := config.getHash config.chainStart.header
    redownloadBufferLastHash := config.getHash config.chainStart.header
    redownloadChainWork := config.chainStart.chainWork
    downloadState := .redownload }

def validateAndStoreHeadersCommitments : Exec Empty (Bool × Sync) :=
  match headers with
  | [] => pure (true, sync)
  | first :: _ =>
    if sync.downloadState ≠ .presync then pure (false, sync)
    else if first.hashPrevBlock ≠ config.getHash sync.lastHeaderReceived then pure (false, sync)
    else do
      let (valid, sync) ← Exec.forWhile (validateAndProcessSingleHeader config) headers sync
      if !valid then pure (false, sync)
      else if sync.currentChainWork.compare config.minimumRequiredWork ≠ .lt then
        pure (true, enterRedownload config sync)
      else pure (true, sync)

/-! ## The second phase -/

/-- The end of `ValidateAndStoreRedownloadedHeader`. -/
def storeRedownloadedHeader (header : CBlockHeader) (nextHeight : Int) : Sync :=
  { sync with
    redownloadedHeaders := sync.redownloadedHeaders ++ [CompressedHeader.ofHeader header]
    redownloadBufferLastHeight := nextHeight
    redownloadBufferLastHash := config.getHash header }

/-- The part of `ValidateAndStoreRedownloadedHeader` from the commitment on. -/
def checkCommitment (header : CBlockHeader) (nextHeight : Int) : Bool × Sync :=
  if !sync.processAllRemainingHeaders && config.isCommitmentHeight nextHeight then
    match sync.headerCommitments with
    | [] => (false, sync)
    | expectedCommitment :: commitments =>
      let sync := { sync with headerCommitments := commitments }
      if config.commitment header ≠ expectedCommitment then (false, sync)
      else (true, storeRedownloadedHeader config sync header nextHeight)
  else (true, storeRedownloadedHeader config sync header nextHeight)

def validateAndStoreRedownloadedHeader (header : CBlockHeader) : Exec Empty (Bool × Sync) :=
  if sync.downloadState ≠ .redownload then pure (false, sync)
  else do
    let nextHeight ← checkedInt64 (sync.redownloadBufferLastHeight + 1)
    if header.hashPrevBlock ≠ sync.redownloadBufferLastHash then pure (false, sync)
    else do
      let previousBits := (sync.redownloadedHeaders.getLast?.map CompressedHeader.nBits).getD
        config.chainStart.header.nBits
      let permitted ← checkPermittedDifficultyTransition config.consensusParams nextHeight.toInt
        previousBits header.nBits
      if !permitted then pure (false, sync)
      else do
        let proof ← getBlockProof header
        let work := sync.redownloadChainWork.add proof
        let sync := { sync with
          redownloadChainWork := work
          processAllRemainingHeaders := sync.processAllRemainingHeaders ||
            work.compare config.minimumRequiredWork != .lt }
        pure (checkCommitment config sync header nextHeight.toInt)

/-- The loop of `PopHeadersReadyForAcceptance`, over the buffer. -/
def popHeaders (processAll : Bool) (firstPrevHash : Uint256) :
    List CompressedHeader → List CBlockHeader × List CompressedHeader × Uint256
  | [] => ([], [], firstPrevHash)
  | front :: buffer =>
    if (front :: buffer).length > config.redownloadBufferSize || processAll then
      let header := front.getFullHeader firstPrevHash
      let (headers, rest, hash) := popHeaders processAll (config.getHash header) buffer
      (header :: headers, rest, hash)
    else ([], front :: buffer, firstPrevHash)

def popHeadersReadyForAcceptance : List CBlockHeader × Sync :=
  if sync.downloadState ≠ .redownload then ([], sync)
  else
    let (headers, buffer, hash) := popHeaders config sync.processAllRemainingHeaders
      sync.redownloadBufferFirstPrevHash sync.redownloadedHeaders
    (headers, { sync with redownloadedHeaders := buffer, redownloadBufferFirstPrevHash := hash })

/-! ## Messages -/

/-- The branch of `ProcessNextHeaders` for the first phase. -/
def processPresync (fullHeadersMessage : Bool) : Exec Empty (ProcessingResult × Sync) := do
  let (success, sync) ← validateAndStoreHeadersCommitments config sync headers
  pure ({ success := success,
          requestMore := success && (fullHeadersMessage || sync.downloadState == .redownload) },
    sync)

/-- The branch of `ProcessNextHeaders` for the second phase. -/
def processRedownload (fullHeadersMessage : Bool) : Exec Empty (ProcessingResult × Sync) := do
  let (success, sync) ← Exec.forWhile (validateAndStoreRedownloadedHeader config) headers sync
  if success then
    let (ready, sync) := popHeadersReadyForAcceptance config sync
    let complete := sync.redownloadedHeaders.isEmpty && sync.processAllRemainingHeaders
    pure (⟨ready, true, !complete && fullHeadersMessage⟩, sync)
  else pure ({}, sync)

def processPhase (fullHeadersMessage : Bool) : Exec Empty (ProcessingResult × Sync) :=
  if sync.downloadState = .presync then processPresync config sync headers fullHeadersMessage
  else processRedownload config sync headers fullHeadersMessage

def processNextHeaders (fullHeadersMessage : Bool) : Exec Empty (ProcessingResult × Sync) :=
  if headers.isEmpty || sync.downloadState == .final then pure ({}, sync)
  else do
    let (result, sync) ← processPhase config sync headers fullHeadersMessage
    pure (result, if result.success && result.requestMore then sync else finalize sync)

end HeadersSync

end Champy
