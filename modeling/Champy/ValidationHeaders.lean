import Champy.MultiWord
import Champy.ValidationTransactions

/-!
# Header rules of the value library

`pow_number` is an array of eight words with its own compact form, its own multiplication and
its own division.  `validate_header_context` walks a chain from its genesis header and collects
what the difficulty of the next header depends on; the header rules then read only that
context.  Durations and points in time are counts of seconds in 64 bits.
-/

namespace Champy

namespace Validation

open Protocol Exec UInt32

def failed {α : Type} (code : OperationErrorCode) (reason : String) : VerifyResult α :=
  reject (.failed ⟨code, reason⟩)

/-! ## Numbers -/

abbrev PowNumber : Type := Words 8

namespace PowNumber

def fromBytes (bytes : Uint256) : PowNumber :=
  Words.ofFn 8 fun limb =>
    (List.range 4).foldl (fun value byte =>
      value ||| ((hashBytes bytes).getD (limb * 4 + byte) 0).toUInt32 <<< ofNat (8 * byte)) 0

def fromCompact (compact : UInt32) : PowNumber :=
  let size := (compact >>> 24).toNat
  let word := compact &&& 0x007fffff
  if size ≤ 3 then
    Words.ofFn 8 fun index => if index = 0 then word >>> ofNat (8 * (3 - size)) else 0
  else
    let offset := size - 3
    let limb := offset / 4
    let shift := offset % 4 * 8
    Words.ofFn 8 fun index =>
      if index = limb then word <<< ofNat shift
      else if 8 < shift ∧ index = limb + 1 then word >>> ofNat (32 - shift)
      else 0

def zero (number : PowNumber) : Bool :=
  number.words.all (· == 0)

def byteAt (number : PowNumber) (index : Nat) : UInt8 :=
  ((number.get (index / 4) >>> ofNat (8 * (index % 4))) &&& 0xff).toUInt8

/-- The loop of `byte_size` from the given byte down. -/
def byteSizeFrom (number : PowNumber) : Nat → Nat
  | 0 => 0
  | index + 1 => if number.byteAt index ≠ 0 then index + 1 else byteSizeFrom number index

def byteSize (number : PowNumber) : Nat :=
  number.byteSizeFrom 32

/-- The three leading bytes, before the sign bit is kept clear. -/
def leadingBytes (number : PowNumber) : UInt32 :=
  let size := number.byteSize
  if size ≤ 3 then
    (List.range size).foldl (fun compact index =>
      compact ||| (number.byteAt index).toUInt32 <<< ofNat (8 * index)) 0
        <<< ofNat (8 * (3 - size))
  else
    (number.byteAt (size - 3)).toUInt32 ||| (number.byteAt (size - 2)).toUInt32 <<< 8 |||
      (number.byteAt (size - 1)).toUInt32 <<< 16

def compact (number : PowNumber) : UInt32 :=
  let (compact, size) :=
    if number.leadingBytes &&& 0x00800000 ≠ 0 then (number.leadingBytes >>> 8, number.byteSize + 1)
    else (number.leadingBytes, number.byteSize)
  compact ||| ofNat size <<< 24

/-- The product, and whether it overflows. -/
def multiply (number : PowNumber) (factor : UInt64) : PowNumber × Bool :=
  let product := number.mulWord 128 factor.toNat
  (product.1, product.2 != 0)

def divide (number : PowNumber) (divisor : UInt64) : PowNumber :=
  number.divWord divisor.toNat

end PowNumber

def compactNegative (compact : UInt32) : Bool :=
  compact &&& 0x00800000 != 0 && compact &&& 0x007fffff != 0

def compactOverflows (compact : UInt32) : Bool :=
  let size := compact >>> 24
  let word := compact &&& 0x007fffff
  word != 0 && (size > 34 || word > 0xff && size > 33 || word > 0xffff && size > 32)

/-- `target_result`: the target when it is valid. -/
def deriveTarget (compact : UInt32) (limit : Uint256) : Option PowNumber :=
  if compactNegative compact || compactOverflows compact then none
  else
    let target := PowNumber.fromCompact compact
    if target.zero then none
    else if target.compare (PowNumber.fromBytes limit) = .gt then none
    else some target

/-! ## Contexts -/

structure ConsensusParams where
  powLimit : Uint256 := 0
  targetSpacing : Int64 := 600
  targetTimespan : Int64 := 14 * 24 * 60 * 60
  maxTimewarp : Int64 := 600
  allowMinDifficultyBlocks : Bool := false
  noRetargeting : Bool := false
  enforceBip94 : Bool := false
  minimumBlockVersion : Int32 := 0
  deriving DecidableEq, Repr

def ConsensusParams.difficultyAdjustmentInterval (params : ConsensusParams) : Int :=
  if params.targetSpacing ≤ 0 then 0
  else params.targetTimespan.toInt.tdiv params.targetSpacing.toInt

structure HeaderContext where
  height : Int32 := 0
  previousMedianTimePast : Int64 := 0
  hasParent : Bool := false
  parentHash : Uint256 := 0
  parentTime : UInt32 := 0
  parentTarget : UInt32 := 0
  hasFirstDifficultyPeriodBlock : Bool := false
  firstDifficultyPeriodBlockTime : UInt32 := 0
  firstDifficultyPeriodBlockTarget : UInt32 := 0
  hasLastNonMinDifficultyBlock : Bool := false
  lastNonMinDifficultyBlockTarget : UInt32 := 0
  deriving DecidableEq, Repr

def compactWorkLimit (limit : Uint256) : UInt32 :=
  (PowNumber.fromBytes limit).compact

/-- The times of the last eleven headers, sorted; the one in the middle counts. -/
def previousMedianTimePast (ancestors : List BlockHeader) : Int64 :=
  let values := ((ancestors.reverse.take 11).map BlockHeader.time).mergeSort fun first second =>
    decide (first ≤ second)
  if values.length = 0 then 0 else Int64.ofNat (values.getD (values.length / 2) 0).toNat

inductive HeaderContextEvidenceCode
  | genesisParentNotNull
  | nonContiguousAncestry
  deriving DecidableEq, Repr

/-- How `validate_header_context` ends without a context. -/
inductive HeaderContextStop
  | invalidEvidence (code : HeaderContextEvidenceCode) (reason : String)
  | failed (error : OperationError)
  deriving DecidableEq, Repr

/-- The loop back over headers of minimum difficulty, which stops at the start of a period. -/
def lastNonMinDifficultyTarget (powLimitBits : UInt32) (interval : Int)
    (headers : List BlockHeader) : Nat → Option UInt32
  | 0 => none
  | height + 1 =>
    let bits := (headers.getD height ⟨0, 0, 0, 0, 0, 0⟩).bits
    if bits ≠ powLimitBits ∨ (height : Int).tmod interval = 0 then some bits
    else lastNonMinDifficultyTarget powLimitBits interval headers height

section Ancestry

variable (doubleSha256 : ByteHash)

/-- Whether each header references the one before it. -/
def contiguousAfter : BlockHeader → List BlockHeader → Bool
  | _, [] => true
  | previous, header :: headers =>
    header.previousBlockHash == previous.hash doubleSha256 && contiguousAfter header headers

/-- The fields of the context that the difficulty interval decides. -/
def withDifficultyPeriod (headers : List BlockHeader) (params : ConsensusParams)
    (context : HeaderContext) : HeaderContext :=
  let interval := params.difficultyAdjustmentInterval
  if interval ≤ 0 then context
  else
    let first := headers.getD (headers.length - interval.toNat) ⟨0, 0, 0, 0, 0, 0⟩
    let context :=
      if interval.toNat ≤ headers.length then
        { context with
          hasFirstDifficultyPeriodBlock := true
          firstDifficultyPeriodBlockTime := first.time
          firstDifficultyPeriodBlockTarget := first.bits }
      else context
    match lastNonMinDifficultyTarget (compactWorkLimit params.powLimit) interval headers
        headers.length with
    | none => context
    | some bits =>
      { context with hasLastNonMinDifficultyBlock := true, lastNonMinDifficultyBlockTarget := bits }

def validateHeaderContext (headers : List BlockHeader) (params : ConsensusParams) :
    Exec HeaderContextStop HeaderContext := do
  ensure (headers.length ≤ 2 ^ 31 - 1) (.failed ⟨.unsupportedOperation,
    "ancestor chain height exceeds validation library range"⟩)
  let result : HeaderContext :=
    { height := Int32.ofNat headers.length
      previousMedianTimePast := previousMedianTimePast headers }
  match headers with
  | [] => pure result
  | genesis :: later => do
      ensure (genesis.previousBlockHash == 0) (.invalidEvidence .genesisParentNotNull
        "ancestor chain genesis header has a non-null parent")
      ensure (contiguousAfter doubleSha256 genesis later) (.invalidEvidence
        .nonContiguousAncestry "ancestor chain is not contiguous")
      let parent := later.getLastD genesis
      pure (withDifficultyPeriod (genesis :: later) params
        { result with
          hasParent := true
          parentHash := parent.hash doubleSha256
          parentTime := parent.time
          parentTarget := parent.bits })

end Ancestry

/-! ## Difficulty -/

/-- `difficulty_adjustment_interval` of the parameters, when they make sense. -/
def difficultyAdjustmentInterval (params : ConsensusParams) : VerifyResult Int := do
  ensure (params.targetSpacing > 0) (.failed ⟨.invariantViolation,
    "difficulty target spacing must be positive"⟩)
  ensure (params.targetTimespan > 0) (.failed ⟨.invariantViolation,
    "difficulty target timespan must be positive"⟩)
  ensure (params.difficultyAdjustmentInterval > 0) (.failed ⟨.invariantViolation,
    "difficulty adjustment interval must be positive"⟩)
  pure params.difficultyAdjustmentInterval

def storedTarget (bits : UInt32) (limit : Uint256) : VerifyResult PowNumber :=
  match deriveTarget bits limit with
  | none => failed .malformedStoredData "stored difficulty target is malformed"
  | some target => pure target

def retarget (target : PowNumber) (actualTimespan targetTimespan : Int) (limit : PowNumber) :
    PowNumber :=
  let minimumTimespan := targetTimespan.tdiv 4
  let maximumTimespan := targetTimespan * 4
  let actualTimespan :=
    if actualTimespan < minimumTimespan then minimumTimespan
    else if maximumTimespan < actualTimespan then maximumTimespan else actualTimespan
  let (product, overflow) := PowNumber.multiply target (UInt64.ofInt actualTimespan)
  if overflow then limit
  else
    let quotient := PowNumber.divide product (UInt64.ofInt targetTimespan)
    if quotient.compare limit = .gt then limit else quotient

def targetInsidePeriod (header : BlockHeader) (context : HeaderContext) (params : ConsensusParams) :
    VerifyResult UInt32 :=
  if params.allowMinDifficultyBlocks then do
    let spacing := params.targetSpacing.toInt
    ensure (spacing ≤ ((2 ^ 63 - 1 : Int) - context.parentTime.toNat).tdiv 2)
      (.failed ⟨.unsupportedOperation, "difficulty target spacing exceeds validation library range"⟩)
    if (header.time.toNat : Int) > context.parentTime.toNat + spacing * 2 then
      pure (compactWorkLimit params.powLimit)
    else if context.hasLastNonMinDifficultyBlock then pure context.lastNonMinDifficultyBlockTarget
    else pure context.parentTarget
  else pure context.parentTarget

def targetAtPeriodStart (context : HeaderContext) (params : ConsensusParams) :
    VerifyResult UInt32 :=
  if params.noRetargeting then pure context.parentTarget
  else do
    ensure context.hasFirstDifficultyPeriodBlock (.failed ⟨.dataUnavailable,
      "difficulty period ancestry is unavailable"⟩)
    let baseTarget ← storedTarget
      (if params.enforceBip94 then context.firstDifficultyPeriodBlockTarget
        else context.parentTarget) params.powLimit
    let timespan := params.targetTimespan.toInt
    ensure (timespan ≤ (2 ^ 63 - 1 : Int).tdiv 4) (.failed ⟨.unsupportedOperation,
      "difficulty target timespan exceeds validation library range"⟩)
    let actualTimespan : Int :=
      context.parentTime.toNat - context.firstDifficultyPeriodBlockTime.toNat
    pure (PowNumber.compact
      (retarget baseTarget actualTimespan timespan (PowNumber.fromBytes params.powLimit)))

def expectedDifficultyBits (header : BlockHeader) (context : HeaderContext)
    (params : ConsensusParams) : VerifyResult UInt32 :=
  if !context.hasParent then
    if context.height ≠ 0 then
      failed .invariantViolation "non-genesis header context has no parent"
    else pure (compactWorkLimit params.powLimit)
  else do
    let interval ← difficultyAdjustmentInterval params
    if context.height.toInt.tmod interval ≠ 0 then targetInsidePeriod header context params
    else targetAtPeriodStart context params

def violatesTimewarp (header : BlockHeader) (context : HeaderContext) (params : ConsensusParams) :
    VerifyResult Bool :=
  if !params.enforceBip94 || !context.hasParent then pure false
  else do
    let interval ← difficultyAdjustmentInterval params
    if context.height.toInt.tmod interval ≠ 0 then pure false
    else do
      ensure (params.maxTimewarp ≥ 0) (.failed ⟨.invariantViolation,
        "maximum timewarp allowance must not be negative"⟩)
      pure (decide ((header.time.toNat : Int) <
        context.parentTime.toNat - params.maxTimewarp.toInt))

/-! ## The header rules -/

structure HeaderFacts where
  hash : Uint256
  deriving DecidableEq, Repr

def requireParentReference (header : BlockHeader) (context : HeaderContext) : VerifyResult Unit :=
  if context.hasParent then
    require (header.previousBlockHash == context.parentHash) .h01PreviousHashParent
      "header previous hash does not reference parent"
  else
    require (header.previousBlockHash == 0) .h01PreviousHashParent
      "genesis header previous hash is not null"

section Rules

variable (doubleSha256 : ByteHash)

def assessHeaderWithContext (header : BlockHeader) (context : HeaderContext) (time : Int64)
    (params : ConsensusParams) : VerifyResult HeaderFacts := do
  requireParentReference header context
  require (header.version ≥ params.minimumBlockVersion) .h06RetiredVersion
    "header version is below the active minimum version"
  match deriveTarget header.bits params.powLimit with
  | none => invalid .h02ProofOfWork "proof of work target is malformed"
  | some target => do
      let expectedBits ← expectedDifficultyBits header context params
      require (header.bits == expectedBits) .h03DifficultyTransition
        "header target does not match difficulty transition"
      let timewarp ← violatesTimewarp header context params
      require (!timewarp) .h07Timewarp "header time is too far before parent at difficulty boundary"
      require (!(context.hasParent &&
          decide ((header.time.toNat : Int) ≤ context.previousMedianTimePast.toInt)))
        .h04MedianTimePast "header time is not after parent median time"
      let latest ← checkedInt64 (time.toInt + 2 * 60 * 60)
      require ((header.time.toNat : Int) ≤ latest.toInt) .h05FutureTime
        "header time is too far after validation time"
      require ((PowNumber.fromBytes (header.hash doubleSha256)).compare target != .gt)
        .h02ProofOfWork "proof of work does not satisfy target"
      pure ⟨header.hash doubleSha256⟩

end Rules

end Validation

end Champy
