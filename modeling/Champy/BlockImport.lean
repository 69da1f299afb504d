import Champy.CheckedExecution
import Champy.Primitives

/-!
# Import of an external block file

`ImportExternalBlockFile` scans the records of a block file.  A block whose parent is unknown
is put aside in `UnknownParentIndex` under the hash of its parent, by its position in the
file.  After any other record a queue of hashes is worked off: the positions that wait for a
hash are taken out, the blocks there are read again and admitted, and each one that opens its
children goes to the queue.

`AcceptBlock`, chain activation and the file are parameters.
-/

namespace Champy

/-! ## Results -/

structure FlatFilePos where
  nFile : Int32
  nPos : UInt32
  deriving DecidableEq, Repr

def FlatFilePos.toText (pos : FlatFilePos) : String :=
  "FlatFilePos(nFile=" ++ toString pos.nFile.toInt ++ ", nPos=" ++ toString pos.nPos.toNat ++ ")"

inductive BlockImportErrorKind
  | io
  | scanner
  | admission
  | activation
  | read
  | flush
  | chainstate
  deriving DecidableEq, Repr

inductive BlockImportStatus
  | completed
  | interrupted
  | resourceLimit
  | alreadyImporting
  deriving DecidableEq, Repr

structure BlockImportError where
  kind : BlockImportErrorKind
  message : String
  deriving DecidableEq, Repr

structure BlockImportCounters where
  loadedBlocks : Nat := 0
  skippedRecords : Nat := 0
  skippedBlocks : Nat := 0
  rejectedBlocks : Nat := 0
  deriving DecidableEq, Repr

structure BlockImportOutcome where
  status : BlockImportStatus
  counters : BlockImportCounters
  deriving DecidableEq, Repr

/-! ## The file -/

structure BlkRecord where
  blockPosition : UInt64
  hashPrevBlock : Uint256
  hash : Uint256
  deriving DecidableEq, Repr

/-- `BlkScanResult`, with the data that the import reads. -/
inductive BlkScanResult
  | record (record : BlkRecord)
  | eof
  | magicMismatch
  | shortRead
  | decodeError
  | oversizedRecord
  | ioError (offset : UInt64) (diagnostic : String)
  | interrupted
  deriving DecidableEq, Repr

/-- `BlkFileScanner::ReadBlock` and `CoreBlockDataStore::ReadBlockFromPosition`. -/
structure BlockFileSource (Block : Type) where
  readBlock : BlkRecord → Except String Block
  readBlockFromPosition : FlatFilePos → Option Block

def recordPosition (fileNumber : Int32) (record : BlkRecord) : Exec BlockImportError FlatFilePos :=
  do
    Exec.assertThat (record.blockPosition.toNat ≤ 0xffffffff)
    pure ⟨fileNumber, record.blockPosition.toUInt32⟩

/-! ## Blocks that wait for their parent -/

/-- `UnknownParentIndex`.  The children of one parent stay in the order in which they were
added, as in a `std::multimap`. -/
structure UnknownParentIndex where
  maxEntries : Nat
  children : List (Uint256 × FlatFilePos)
  deriving DecidableEq, Repr

namespace UnknownParentIndex

def add (index : UnknownParentIndex) (parentHash : Uint256) (childPos : FlatFilePos) :
    Option UnknownParentIndex :=
  if index.children.length ≥ index.maxEntries then none
  else some { index with children := index.children ++ [(parentHash, childPos)] }

/-- `TakeChildrenOf`: the children, and the index without them. -/
def takeChildrenOf (index : UnknownParentIndex) (parentHash : Uint256) :
    List FlatFilePos × UnknownParentIndex :=
  ((index.children.filter fun entry => entry.1 == parentHash).map Prod.snd,
    { index with children := index.children.filter fun entry => entry.1 != parentHash })

end UnknownParentIndex

/-! ## The chain -/

inductive BlockAcceptanceStatus
  | headerRejected
  | blockDataAlreadyKnown
  | blockDataUnrequestedPreviouslyProcessed
  | blockDataUnrequestedLessWorkThanTip
  | blockDataUnrequestedTooFarAhead
  | blockDataUnrequestedBelowMinimumChainWork
  | blockRejected
  | storageFailed
  | blockDataStored
  deriving DecidableEq, Repr

/-- What `AcceptBlock` returns: its status, `IsError` of the state and the text of the state. -/
structure BlockAcceptance where
  status : BlockAcceptanceStatus
  stateIsError : Bool
  stateForLog : String
  deriving DecidableEq, Repr

/-- The part of a `CBlockIndex` that the import reads. -/
structure ImportedIndexEntry where
  haveData : Bool
  nHeight : Int32
  deriving DecidableEq, Repr

/-- What the import uses of a `ChainstateManager`. -/
structure ImportChain (Chain Block : Type) where
  hashGenesisBlock : Uint256
  getHash : Block → Uint256
  lookupBlockIndex : Chain → Uint256 → Option ImportedIndexEntry
  acceptBlock : Chain → Block → Option FlatFilePos → BlockAcceptance × Chain
  activeHeight : Chain → Int32
  activateBestChain : Chain → Except String Chain
  isPruneMode : Chain → Bool
  hasIndexedBlockFiles : Chain → Bool
  activateBestChains : Chain → Except String Chain
  interrupted : Chain → Bool

inductive ImportAdmissionStatus
  | stored
  | alreadyKnown
  | skipped
  | rejected
  deriving DecidableEq, Repr

structure ImportAdmissionOutcome where
  status : ImportAdmissionStatus
  opensDeferredChildren : Bool
  deriving DecidableEq, Repr

section Import

variable {Chain Block : Type}

/-- `AdmitBlock`.  The chain may have changed also when an error is returned. -/
def admitBlock (env : ImportChain Chain Block) (chain : Chain) (block : Block)
    (existingBlockPos : Option FlatFilePos) :
    Except BlockImportError ImportAdmissionOutcome × Chain :=
  let accepted := env.acceptBlock chain block existingBlockPos
  if accepted.1.stateIsError || accepted.1.status == .storageFailed then
    (.error ⟨.admission, "failed to accept imported block: " ++ accepted.1.stateForLog⟩, accepted.2)
  else
    match accepted.1.status with
    | .blockDataStored => (.ok ⟨.stored, true⟩, accepted.2)
    | .blockDataAlreadyKnown => (.ok ⟨.alreadyKnown, true⟩, accepted.2)
    | .blockDataUnrequestedPreviouslyProcessed | .blockDataUnrequestedLessWorkThanTip
    | .blockDataUnrequestedTooFarAhead | .blockDataUnrequestedBelowMinimumChainWork =>
      (.ok ⟨.skipped, true⟩, accepted.2)
    | .headerRejected | .blockRejected => (.ok ⟨.rejected, false⟩, accepted.2)
    | .storageFailed =>
      (.error ⟨.admission, "failed to store imported block: " ++ accepted.1.stateForLog⟩,
        accepted.2)

def activateGenesisIfNeeded (env : ImportChain Chain Block) (chain : Chain) (hash : Uint256) :
    Except BlockImportError Chain :=
  if hash ≠ env.hashGenesisBlock ∨ env.activeHeight chain ≠ -1 then .ok chain
  else (env.activateBestChain chain).mapError fun state =>
    ⟨.activation, "failed to activate imported genesis block: " ++ state⟩

def activatePruneModeIfNeeded (env : ImportChain Chain Block) (chain : Chain)
    (storedBlock : Option Block) : Except BlockImportError Chain :=
  if storedBlock.isNone || !env.isPruneMode chain || !env.hasIndexedBlockFiles chain then
    .ok chain
  else (env.activateBestChains chain).mapError fun message => ⟨.activation, message⟩

def recordAdmissionOutcome (counters : BlockImportCounters) (status : ImportAdmissionStatus) :
    BlockImportCounters :=
  match status with
  | .stored => { counters with loadedBlocks := counters.loadedBlocks + 1 }
  | .alreadyKnown | .skipped => { counters with skippedBlocks := counters.skippedBlocks + 1 }
  | .rejected => { counters with rejectedBlocks := counters.rejectedBlocks + 1 }

/-! ## The import -/

/-- What the import changes, with the positions that it has read back from the file. -/
structure ImportState (Chain : Type) where
  chain : Chain
  unknownParentIndex : UnknownParentIndex
  counters : BlockImportCounters
  positionsRead : List FlatFilePos

/-- The import returns before the end of the file. -/
structure ImportStop (Chain : Type) where
  state : ImportState Chain
  result : Exec BlockImportError BlockImportStatus

def ImportStop.failure (state : ImportState Chain) (error : BlockImportError) : ImportStop Chain :=
  ⟨state, Exec.reject error⟩

/-- The block at a position whose parent has come: the state, and the hashes that go to the
queue. -/
def processDeferredChild (env : ImportChain Chain Block) (source : BlockFileSource Block)
    (progress : ImportState Chain × List Uint256) (childPos : FlatFilePos) :
    Except (ImportStop Chain) (ImportState Chain × List Uint256) :=
  let reading := { progress.1 with positionsRead := progress.1.positionsRead ++ [childPos] }
  match source.readBlockFromPosition childPos with
  | none => .error (.failure reading
      ⟨.read, "failed to read deferred child block at " ++ childPos.toText⟩)
  | some block =>
    let admitted := admitBlock env reading.chain block (some childPos)
    let next := { reading with chain := admitted.2 }
    match admitted.1 with
    | .error error => .error (.failure next error)
    | .ok outcome =>
      .ok ({ next with counters := recordAdmissionOutcome next.counters outcome.status },
        if outcome.opensDeferredChildren then progress.2 ++ [env.getHash block] else progress.2)

variable {source : BlockFileSource Block} {env : ImportChain Chain Block}
  {progress next : ImportState Chain × List Uint256}

/-- A child leaves the index of unknown parents as it is and opens at most one hash. -/
theorem processDeferredChild_eq_ok {childPos : FlatFilePos}
    (processed : processDeferredChild env source progress childPos = .ok next) :
    next.1.unknownParentIndex = progress.1.unknownParentIndex ∧
      next.2.length ≤ progress.2.length + 1 := by
  unfold processDeferredChild at processed
  cases reads : source.readBlockFromPosition childPos with
  | none =>
    simp only [reads] at processed
    cases processed
  | some block =>
    simp only [reads] at processed
    cases outcome : (admitBlock env progress.1.chain block (some childPos)).1 with
    | error error =>
      simp only [outcome] at processed
      cases processed
    | ok admitted =>
      simp only [outcome] at processed
      cases processed
      refine ⟨rfl, ?_⟩
      dsimp only
      split <;> simp

theorem foldlM_processDeferredChild_eq_ok {children : List FlatFilePos}
    (processed : children.foldlM (processDeferredChild env source) progress = .ok next) :
    next.1.unknownParentIndex = progress.1.unknownParentIndex ∧
      next.2.length ≤ progress.2.length + children.length := by
  induction children generalizing progress with
  | nil =>
    cases processed
    exact ⟨rfl, Nat.le_refl _⟩
  | cons child children ih =>
    rw [List.foldlM_cons] at processed
    cases first : processDeferredChild env source progress child with
    | error stop =>
      rw [first] at processed
      cases processed
    | ok middle =>
      rw [first] at processed
      obtain ⟨sameFirst, boundFirst⟩ := processDeferredChild_eq_ok first
      obtain ⟨sameLater, boundLater⟩ := ih processed
      refine ⟨sameLater.trans sameFirst, ?_⟩
      rw [List.length_cons]
      omega

theorem UnknownParentIndex.length_takeChildrenOf (index : UnknownParentIndex)
    (parentHash : Uint256) :
    (index.takeChildrenOf parentHash).1.length +
        (index.takeChildrenOf parentHash).2.children.length = index.children.length := by
  rw [takeChildrenOf, List.length_map]
  exact (List.length_eq_length_filter_add fun entry : Uint256 × FlatFilePos =>
    entry.1 == parentHash).symm

/-- The queue: every round takes one hash off and puts at most as many hashes on as it takes
positions out of the index, so the loop ends. -/
def drainQueue (env : ImportChain Chain Block) (source : BlockFileSource Block)
    (state : ImportState Chain) (queue : List Uint256) :
    Except (ImportStop Chain) (ImportState Chain) :=
  match queue with
  | [] => .ok state
  | head :: queue =>
    if env.interrupted state.chain then .error ⟨state, .ok .interrupted⟩
    else
      match _drained : (state.unknownParentIndex.takeChildrenOf head).1.foldlM
          (processDeferredChild env source)
          ({ state with
            unknownParentIndex := (state.unknownParentIndex.takeChildrenOf head).2 }, []) with
      | .error stop => .error stop
      | .ok progress => drainQueue env source progress.1 (queue ++ progress.2)
termination_by state.unknownParentIndex.children.length + queue.length
decreasing_by
  have taken := state.unknownParentIndex.length_takeChildrenOf head
  obtain ⟨sameIndex, opened⟩ := foldlM_processDeferredChild_eq_ok _drained
  rw [sameIndex]
  simp only [List.length_append, List.length_cons, List.length_nil] at opened ⊢
  omega

theorem drainQueue_cons_of_ok {state : ImportState Chain} {head : Uint256} {queue : List Uint256}
    {progress : ImportState Chain × List Uint256} (running : env.interrupted state.chain = false)
    (processed : (state.unknownParentIndex.takeChildrenOf head).1.foldlM
      (processDeferredChild env source)
      ({ state with unknownParentIndex := (state.unknownParentIndex.takeChildrenOf head).2 }, []) =
        .ok progress) :
    drainQueue env source state (head :: queue) =
      drainQueue env source progress.1 (queue ++ progress.2) := by
  rw [drainQueue]
  simp only [running, Bool.false_eq_true, if_false]
  split
  · next stop stopped => rw [processed] at stopped; cases stopped
  · next other same =>
      rw [processed] at same
      cases same
      rfl

inductive ExternalBlockFileImportMode
  | loadBlock
  | reindex (fileNumber : Int32)
  deriving DecidableEq, Repr

/-- The position of a record, while a reindex runs. -/
def ExternalBlockFileImportMode.recordPos (mode : ExternalBlockFileImportMode)
    (record : BlkRecord) : Exec BlockImportError (Option FlatFilePos) :=
  match mode with
  | .loadBlock => pure none
  | .reindex fileNumber => do
      let pos ← recordPosition fileNumber record
      pure (some pos)

/-- A record whose parent is unknown.  Outside a reindex it is passed over. -/
def deferRecord (state : ImportState Chain) (record : BlkRecord) (recordPos : Option FlatFilePos) :
    Except (ImportStop Chain) (ImportState Chain) :=
  match recordPos with
  | none => .ok state
  | some pos =>
    match state.unknownParentIndex.add record.hashPrevBlock pos with
    | none => .error ⟨state, .ok .resourceLimit⟩
    | some index => .ok { state with unknownParentIndex := index }

/-- Admit the block of a record, unless its data has come in the meantime. -/
def admitRecord (env : ImportChain Chain Block) (state : ImportState Chain) (record : BlkRecord)
    (block : Block) (recordPos : Option FlatFilePos) :
    Except (ImportStop Chain) (ImportState Chain × Option Block) :=
  let admitted :=
    if (env.lookupBlockIndex state.chain record.hash).all fun entry => !entry.haveData then
      admitBlock env state.chain block recordPos
    else (.ok ⟨.alreadyKnown, true⟩, state.chain)
  let next := { state with chain := admitted.2 }
  match admitted.1 with
  | .error error => .error (.failure next error)
  | .ok outcome =>
    .ok ({ next with counters := recordAdmissionOutcome next.counters outcome.status },
      if outcome.status = .stored then some block else none)

/-- What follows after a record that was not put aside: activation, and in a reindex the
queue of blocks that wait for this one. -/
def finishRecord (env : ImportChain Chain Block) (source : BlockFileSource Block)
    (mode : ExternalBlockFileImportMode) (record : BlkRecord)
    (progress : ImportState Chain × Option Block) :
    Except (ImportStop Chain) (ImportState Chain) :=
  match (do
    let chain ← activateGenesisIfNeeded env progress.1.chain record.hash
    activatePruneModeIfNeeded env chain progress.2) with
  | .error error => .error (.failure progress.1 error)
  | .ok chain =>
    let state := { progress.1 with chain := chain }
    match mode with
    | .loadBlock => .ok state
    | .reindex _ => drainQueue env source state [record.hash]

def importRecord (env : ImportChain Chain Block) (source : BlockFileSource Block)
    (mode : ExternalBlockFileImportMode) (state : ImportState Chain) (record : BlkRecord) :
    Except (ImportStop Chain) (ImportState Chain) :=
  match mode.recordPos record with
  | .error failure => .error ⟨state, .error failure⟩
  | .ok recordPos =>
    if record.hash ≠ env.hashGenesisBlock ∧
        env.lookupBlockIndex state.chain record.hashPrevBlock = none then
      deferRecord state record recordPos
    else
      match (env.lookupBlockIndex state.chain record.hash).filter (·.haveData) with
      | some entry =>
        let counters :=
          if record.hash ≠ env.hashGenesisBlock ∧ entry.nHeight.toInt % 1000 = 0 then
            { state.counters with skippedBlocks := state.counters.skippedBlocks + 1 }
          else state.counters
        finishRecord env source mode record ({ state with counters := counters }, none)
      | none =>
        match source.readBlock record with
        | .error _ => .ok { state with counters :=
            { state.counters with skippedRecords := state.counters.skippedRecords + 1 } }
        | .ok block => do
            let progress ← admitRecord env state record block recordPos
            finishRecord env source mode record progress

def hexOffset (offset : UInt64) : String :=
  String.ofList (Nat.toDigits 16 offset.toNat)

/-- The loop over the scanned records. -/
def importScanned (env : ImportChain Chain Block) (source : BlockFileSource Block)
    (mode : ExternalBlockFileImportMode) :
    ImportState Chain → List BlkScanResult → ImportStop Chain
  | state, [] | state, .eof :: _ => ⟨state, .ok .completed⟩
  | state, .interrupted :: _ => ⟨state, .ok .interrupted⟩
  | state, .ioError offset diagnostic :: _ => .failure state
      ⟨.scanner, "failed to scan external block file at offset 0x" ++ hexOffset offset ++ ": " ++
        diagnostic⟩
  | state, .magicMismatch :: later | state, .shortRead :: later
  | state, .decodeError :: later | state, .oversizedRecord :: later =>
    importScanned env source mode { state with counters :=
      { state.counters with skippedRecords := state.counters.skippedRecords + 1 } } later
  | state, .record record :: later =>
    match importRecord env source mode state record with
    | .error stop => stop
    | .ok next => importScanned env source mode next later

/-- `ImportExternalBlockFile`: its result, and what it leaves. -/
def importExternalBlockFile (env : ImportChain Chain Block) (source : BlockFileSource Block)
    (mode : ExternalBlockFileImportMode) (chain : Chain) (unknownParentIndex : UnknownParentIndex)
    (scanned : List BlkScanResult) :
    Exec BlockImportError BlockImportOutcome × ImportState Chain :=
  let stop := importScanned env source mode ⟨chain, unknownParentIndex, {}, []⟩ scanned
  (stop.result.map fun status => ⟨status, stop.state.counters⟩, stop.state)

end Import

end Champy
