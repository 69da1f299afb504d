import Champy.CoreSerialization
import Champy.MultiWord

/-!
# Difficulty in the consensus library

`arith_uint256` is `base_uint<256>`, eight words of 32 bits, with a compact form of a sign, an
exponent and a mantissa.  `GetNextWorkRequired` reads a `DifficultyAdjustmentContext`, which
`BuildDifficultyAdjustmentContext` collects from the block index.  A `uint_error` leaves the
functions here, and so does a failed assertion.
-/

namespace Champy

/-! ## arith_uint256 -/

abbrev ArithUint256 : Type := Words 8

namespace ArithUint256

/-- `base_uint(uint64_t)`, which is also the assignment of a 64-bit number. -/
def ofUInt64 (b : UInt64) : ArithUint256 :=
  Words.ofFn 8 fun index =>
    if index = 0 then b.toUInt32 else if index = 1 then (b >>> 32).toUInt32 else 0

/-- `UintToArith256`, with `ReadLE32` at every fourth byte. -/
def uintToArith256 (a : Uint256) : ArithUint256 :=
  Words.ofFn 8 fun index => UInt32.ofNat (readLE (((hashBytes a).drop (index * 4)).take 4))

/-- `operator*=(uint32_t)`. -/
def mulUInt32 (number : ArithUint256) (b32 : UInt32) : ArithUint256 :=
  (number.mulWord 64 b32.toNat).1

def getLow64 (number : ArithUint256) : UInt64 :=
  (number.get 0).toUInt64 ||| (number.get 1).toUInt64 <<< 32

/-- What `SetCompact` leaves in the number and in the two flags. -/
structure Decoded where
  value : ArithUint256
  negative : Bool
  overflow : Bool

def setCompact (nCompact : UInt32) : Decoded :=
  let nSize := (nCompact >>> 24).toNat
  let nWord := nCompact &&& 0x007fffff
  let nWord := if nSize ≤ 3 then nWord >>> UInt32.ofNat (8 * (3 - nSize)) else nWord
  { value :=
      if nSize ≤ 3 then ofUInt64 nWord.toUInt64
      else (ofUInt64 nWord.toUInt64).shiftLeft (8 * (nSize - 3))
    negative := nWord != 0 && (nCompact &&& 0x00800000) != 0
    overflow := nWord != 0 && (nSize > 34 || nWord > 0xff && nSize > 33 ||
      nWord > 0xffff && nSize > 32) }

/-- The size and the mantissa before the sign bit is kept clear. -/
def leadingBytes (number : ArithUint256) : Nat × UInt32 :=
  let nSize := number.bits / 8 + if number.bits % 8 ≠ 0 then 1 else 0
  if nSize ≤ 3 then (nSize, (number.getLow64 <<< UInt64.ofNat (8 * (3 - nSize))).toUInt32)
  else (nSize, (getLow64 (number.shiftRight (8 * (nSize - 3)))).toUInt32)

def getCompact (number : ArithUint256) (fNegative : Bool) : Exec Empty UInt32 := do
  let (nSize, nCompact) := number.leadingBytes
  let (nSize, nCompact) :=
    if nCompact &&& 0x00800000 ≠ 0 then (nSize + 1, nCompact >>> 8) else (nSize, nCompact)
  Exec.assertThat (nCompact &&& ~~~0x007fffff == 0)
  Exec.assertThat (nSize < 256)
  let nCompact := nCompact ||| UInt32.ofNat nSize <<< 24
  pure (nCompact ||| if fNegative && nCompact &&& 0x007fffff != 0 then 0x00800000 else 0)

end ArithUint256

open ArithUint256

/-- The fields of `Consensus::Params` that the difficulty reads. -/
structure ProofOfWorkParams where
  powLimit : Uint256
  fPowAllowMinDifficultyBlocks : Bool
  enforceBIP94 : Bool
  fPowNoRetargeting : Bool
  nPowTargetSpacing : Int64
  nPowTargetTimespan : Int64
  deriving DecidableEq, Repr

/-- Parameter sets have a spacing other than zero. -/
def ProofOfWorkParams.difficultyAdjustmentInterval (params : ProofOfWorkParams) : Int :=
  params.nPowTargetTimespan.toInt.tdiv params.nPowTargetSpacing.toInt

/-! ## Targets -/

def deriveProofOfWorkTarget (nBits : UInt32) (powLimit : Uint256) : Option ArithUint256 :=
  let bnTarget := setCompact nBits
  if bnTarget.negative || bnTarget.value.compare (ofUInt64 0) == .eq || bnTarget.overflow ||
      bnTarget.value.compare (uintToArith256 powLimit) == .gt then none
  else some bnTarget.value

structure DifficultyAdjustmentContext where
  nextHeight : Int32
  lastBits : UInt32
  lastBlockTime : Int64
  firstPeriodBits : UInt32
  firstPeriodBlockTime : Int64
  lastNonMinDifficultyBits : Option UInt32
  deriving DecidableEq, Repr

/-- The timespan that counts, between a quarter and four times the target. -/
def clampTimespan (actualTimespan targetTimespan : Int) : Exec Empty Int := do
  let actualTimespan :=
    if actualTimespan < targetTimespan.tdiv 4 then targetTimespan.tdiv 4 else actualTimespan
  let longest ← checkedInt64 (targetTimespan * 4)
  pure (if actualTimespan > longest.toInt then longest.toInt else actualTimespan)

def calculateNextWorkRequired (context : DifficultyAdjustmentContext)
    (params : ProofOfWorkParams) : Exec Empty UInt32 :=
  if params.fPowNoRetargeting then pure context.lastBits
  else do
    let actualTimespan ←
      checkedInt64 (context.lastBlockTime.toInt - context.firstPeriodBlockTime.toInt)
    let actualTimespan ← clampTimespan actualTimespan.toInt params.nPowTargetTimespan.toInt
    let powLimit := uintToArith256 params.powLimit
    let newTarget :=
      (setCompact (if params.enforceBIP94 then context.firstPeriodBits else context.lastBits)).value
    -- the factor is converted to `uint32_t`, the divisor to `uint64_t`
    let newTarget := newTarget.mulUInt32 (UInt32.ofInt actualTimespan)
    match newTarget.divide (ofUInt64 params.nPowTargetTimespan.toUInt64) with
    | none => Exec.abort .runtimeError
    | some newTarget =>
      getCompact (if newTarget.compare powLimit = .gt then powLimit else newTarget) false

def getNextWorkRequired (context : DifficultyAdjustmentContext) (candidateBlockTime : Int64)
    (params : ProofOfWorkParams) : Exec Empty UInt32 := do
  Exec.assertThat (context.nextHeight > 0)
  let interval := params.difficultyAdjustmentInterval
  Exec.assertThat (interval > 0)
  let proofOfWorkLimit ← getCompact (uintToArith256 params.powLimit) false
  if context.nextHeight.toInt.tmod interval ≠ 0 then
    if params.fPowAllowMinDifficultyBlocks then do
      let doubled ← checkedInt64 (params.nPowTargetSpacing.toInt * 2)
      let latest ← checkedInt64 (context.lastBlockTime.toInt + doubled.toInt)
      if candidateBlockTime > latest then pure proofOfWorkLimit
      else pure (context.lastNonMinDifficultyBits.getD context.lastBits)
    else pure context.lastBits
  else calculateNextWorkRequired context params

/-- The target that a timespan leads to from an old one, as its compact form keeps it. -/
def scaledTarget (params : ProofOfWorkParams) (oldBits : UInt32) (timespan : Int) :
    Exec Empty ArithUint256 :=
  let powLimit := uintToArith256 params.powLimit
  let target := (setCompact oldBits).value.mulUInt32 (UInt32.ofInt timespan)
  match target.divide (ofUInt64 params.nPowTargetTimespan.toUInt64) with
  | none => Exec.abort .runtimeError
  | some target => do
      let compact ← getCompact (if target.compare powLimit = .gt then powLimit else target) false
      pure (setCompact compact).value

/-- Parameter sets have an interval other than zero. -/
def checkPermittedDifficultyTransition (params : ProofOfWorkParams) (height : Int)
    (oldBits newBits : UInt32) : Exec Empty Bool :=
  if params.fPowAllowMinDifficultyBlocks then pure true
  else if height.tmod params.difficultyAdjustmentInterval = 0 then do
    let largestTimespan ← checkedInt64 (params.nPowTargetTimespan.toInt * 4)
    let observedNewTarget := (setCompact newBits).value
    let maximumNewTarget ← scaledTarget params oldBits largestTimespan.toInt
    if maximumNewTarget.compare observedNewTarget = .lt then pure false
    else do
      let minimumNewTarget ← scaledTarget params oldBits (params.nPowTargetTimespan.toInt.tdiv 4)
      pure (minimumNewTarget.compare observedNewTarget != .gt)
  else pure (oldBits == newBits)

/-- The work of a target, which divides by one more than it. -/
def getBitsProof (bits : UInt32) : Exec Empty ArithUint256 :=
  let bnTarget := setCompact bits
  if bnTarget.negative || bnTarget.overflow || bnTarget.value.compare (ofUInt64 0) == .eq then
    pure (ofUInt64 0)
  else match bnTarget.value.complement.divide (bnTarget.value.add (ofUInt64 1)) with
    | none => Exec.abort .runtimeError
    | some quotient => pure (quotient.add (ofUInt64 1))

def getBlockProof (header : CBlockHeader) : Exec Empty ArithUint256 :=
  getBitsProof header.nBits

/-! ## The context of the block index -/

/-- The fields of a `CBlockIndex` that the difficulty reads. -/
structure BlockIndexEntry where
  nHeight : Int32
  nTime : UInt32
  nBits : UInt32
  deriving DecidableEq, Repr

/-- A block index with the blocks that `pprev` leads to, the nearest first. -/
structure IndexedChain where
  block : BlockIndexEntry
  ancestors : List BlockIndexEntry
  deriving DecidableEq, Repr

def BlockIndexEntry.getBlockTime (block : BlockIndexEntry) : Int64 :=
  Int64.ofNat block.nTime.toNat

/-- `GetAncestor`.  The pointers to earlier blocks that shorten the walk are left out. -/
def IndexedChain.getAncestor (chain : IndexedChain) (height : Int) : Option BlockIndexEntry :=
  if height > chain.block.nHeight.toInt || height < 0 then none
  else (chain.block :: chain.ancestors)[(chain.block.nHeight.toInt - height).toNat]?

/-- The loop back over blocks of minimum difficulty, which stops at the start of a period. -/
def lastNonMinDifficultyBits (proofOfWorkLimit : UInt32) (interval : Int) :
    BlockIndexEntry → List BlockIndexEntry → UInt32
  | cursor, [] => cursor.nBits
  | cursor, pprev :: ancestors =>
    if cursor.nHeight.toInt.tmod interval ≠ 0 ∧ cursor.nBits = proofOfWorkLimit then
      lastNonMinDifficultyBits proofOfWorkLimit interval pprev ancestors
    else cursor.nBits

/-- The first block of the period that ends with the last block. -/
def firstPeriodBlock (chain : IndexedChain) (nextHeight : Int32) (interval : Int) :
    Exec Empty BlockIndexEntry :=
  if nextHeight.toInt.tmod interval = 0 then do
    let firstHeight ← checkedInt32 (chain.block.nHeight.toInt - (interval - 1))
    Exec.assertThat (firstHeight ≥ 0)
    match chain.getAncestor firstHeight.toInt with
    | none => Exec.abort .assertion
    | some firstBlock => pure firstBlock
  else pure chain.block

def buildDifficultyAdjustmentContext (chain : IndexedChain) (params : ProofOfWorkParams) :
    Exec Empty DifficultyAdjustmentContext := do
  let lastBlock := chain.block
  let interval := (Int32.ofInt params.difficultyAdjustmentInterval).toInt
  let nextHeight ← checkedInt32 (lastBlock.nHeight.toInt + 1)
  let proofOfWorkLimit ← getCompact (uintToArith256 params.powLimit) false
  let firstBlock ← firstPeriodBlock chain nextHeight interval
  pure
    { nextHeight := nextHeight
      lastBits := lastBlock.nBits
      lastBlockTime := lastBlock.getBlockTime
      firstPeriodBits := firstBlock.nBits
      firstPeriodBlockTime := firstBlock.getBlockTime
      lastNonMinDifficultyBits := some
        (if params.fPowAllowMinDifficultyBlocks && nextHeight.toInt.tmod interval != 0 then
          lastNonMinDifficultyBits proofOfWorkLimit interval lastBlock chain.ancestors
        else lastBlock.nBits) }

end Champy
