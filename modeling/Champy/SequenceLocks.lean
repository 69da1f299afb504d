import Champy.Primitives

/-!
# Relative lock times

Two implementations of the relative lock times of BIP 68.  The consensus
library folds the last invalid height and time over the inputs in `int` and
`int64_t` and compares them with the block.  The value-semantics library
`bitcoin::validation` folds in `int64_t`, reads the version as a signed
integer, and returns before any comparison when locks are not enforced.

Both are compared with `RelativeLocksMet`, which states the rule input by
input over the integers.
-/

namespace Champy

open Exec CTxIn Int64

def stdMax {α : Type} [LT α] [DecidableLT α] (first second : α) : α :=
  if first < second then second else first

/-- The expression `start + count - 1` in `int64_t`. -/
def lastInvalidInt64 {ε : Type} (start count : Int64) : Exec ε Int64 := do
  let first ← addInt64 start count
  subInt64 first 1

/-- The expression `start + count - 1` in `int`. -/
def lastInvalidInt32 {ε : Type} (start count : Int32) : Exec ε Int32 := do
  let first ← addInt32 start count
  subInt32 first 1

def hasRelativeLocktime (txin : CTxIn) : Bool :=
  (txin.nSequence &&& sequenceLocktimeDisableFlag) == 0 && txin.nSequence != sequenceFinal

def relativeLocktimeIsTime (txin : CTxIn) : Bool :=
  (txin.nSequence &&& sequenceLocktimeTypeFlag) != 0

structure SequenceLockInputContext where
  height : Int32
  previousMedianTimePast : Int64
  deriving DecidableEq, Repr

structure SequenceLockContext where
  blockHeight : Int32
  previousMedianTimePast : Int64
  inputs : List SequenceLockInputContext
  deriving DecidableEq, Repr

variable (tx : CTransaction) (context : SequenceLockContext)

def enforceBIP68SequenceLocks (flags : Int32) : Bool :=
  2 ≤ tx.version && (flags &&& locktimeVerifySequence) != 0

/-- One round of the loop of `CalculateSequenceLocks`. -/
def calculateSequenceLock {ε : Type} (locks : Int32 × Int64)
    (input : CTxIn × SequenceLockInputContext) : Exec ε (Int32 × Int64) :=
  if hasRelativeLocktime input.1 then
    if relativeLocktimeIsTime input.1 then do
      let last ← lastInvalidInt64 input.2.previousMedianTimePast
        (ofNat ((input.1.nSequence &&& sequenceLocktimeMask) <<<
          sequenceLocktimeGranularity).toNat)
      pure (locks.1, stdMax locks.2 last)
    else do
      let last ← lastInvalidInt32 input.2.height
        (Int32.ofNat (input.1.nSequence &&& sequenceLocktimeMask).toNat)
      pure (stdMax locks.1 last, locks.2)
  else pure locks

/-- The last height and the last time at which the transaction is invalid. -/
def calculateSequenceLocks {ε : Type} (tx : CTransaction) (flags : Int32)
    (context : SequenceLockContext) : Exec ε (Int32 × Int64) := do
  assertThat (context.inputs.length == tx.vin.length)
  if enforceBIP68SequenceLocks tx flags then
    (tx.vin.zip context.inputs).foldlM calculateSequenceLock (-1, -1)
  else pure (-1, -1)

def evaluateSequenceLocksAtBlock (blockHeight : Int32) (previousMedianTimePast : Int64)
    (lockPair : Int32 × Int64) : Bool :=
  !(blockHeight ≤ lockPair.1 || previousMedianTimePast ≤ lockPair.2)

def evaluateSequenceLocks (lockPair : Int32 × Int64) : Bool :=
  evaluateSequenceLocksAtBlock context.blockHeight context.previousMedianTimePast lockPair

/-! ## The value-semantics library -/

namespace Bitcoin

structure TxInput where
  sequence : UInt32
  deriving DecidableEq, Repr

structure Transaction where
  version : Int32
  inputs : List TxInput
  deriving DecidableEq, Repr

structure Coin where
  height : Int32
  previousMedianTimePast : Int64
  deriving DecidableEq, Repr

structure SpendContext where
  height : Int32
  previousMedianTimePast : Int64
  verifySequence : Bool
  deriving DecidableEq, Repr

/-- One round of the loop of `sequence_locks_satisfied`. -/
def minimumSequenceLock {ε : Type} (minimum : Int64 × Int64) (input : TxInput × Coin) :
    Exec ε (Int64 × Int64) :=
  if (input.1.sequence &&& (1 : UInt32) <<< 31) != 0 then pure minimum
  else
    let relativeLock : Int64 := ofNat (input.1.sequence &&& 0x0000ffff).toNat
    if (input.1.sequence &&& (1 : UInt32) <<< 22) != 0 then do
      let last ← lastInvalidInt64 input.2.previousMedianTimePast (relativeLock <<< 9)
      pure (minimum.1, stdMax minimum.2 last)
    else do
      let last ← lastInvalidInt64 input.2.height.toInt64 relativeLock
      pure (stdMax minimum.1 last, minimum.2)

/-- `sequence_locks_satisfied`.  Its caller has checked that there is one coin
for each input. -/
def sequenceLocksSatisfied {ε : Type} (tx : Transaction) (context : SpendContext)
    (inputCoins : List Coin) : Exec ε Bool :=
  if !context.verifySequence || tx.version < 2 then pure true
  else do
    let minimum ← (tx.inputs.zip inputCoins).foldlM minimumSequenceLock (-1, -1)
    pure (minimum.1 < context.height.toInt64 && minimum.2 < context.previousMedianTimePast)

/-- The same transaction in the representation of the value-semantics
library, with the same bits in the version. -/
def transactionOf (tx : CTransaction) : Transaction :=
  ⟨tx.version.toInt32, tx.vin.map fun txin => ⟨txin.nSequence⟩⟩

def coinOf (input : SequenceLockInputContext) : Coin :=
  ⟨input.height, input.previousMedianTimePast⟩

end Bitcoin

/-! ## The rule, input by input -/

/-- The lock count of a sequence, in blocks or in units of 512 seconds. -/
def relativeLockCount (txin : CTxIn) : Int :=
  (txin.nSequence &&& sequenceLocktimeMask).toNat

/-- The lock of one input is met by a block at the given height and previous
median time. -/
def RelativeLockMet (blockHeight previousMedianTimePast : Int)
    (input : CTxIn × SequenceLockInputContext) : Prop :=
  hasRelativeLocktime input.1 = true →
    if relativeLocktimeIsTime input.1 then
      input.2.previousMedianTimePast.toInt + relativeLockCount input.1 * 512 ≤
        previousMedianTimePast
    else input.2.height.toInt + relativeLockCount input.1 ≤ blockHeight

/-- The end of the lock of one input is computed without overflow, heights
within the given limit. -/
def RelativeLockFits (limit : Int) (input : CTxIn × SequenceLockInputContext) : Prop :=
  hasRelativeLocktime input.1 = true →
    if relativeLocktimeIsTime input.1 then
      -2 ^ 63 < input.2.previousMedianTimePast.toInt + relativeLockCount input.1 * 512 ∧
        input.2.previousMedianTimePast.toInt + relativeLockCount input.1 * 512 < 2 ^ 63
    else
      -limit < input.2.height.toInt + relativeLockCount input.1 ∧
        input.2.height.toInt + relativeLockCount input.1 < limit

/-- The block is past the sentinel values that both folds start from. -/
def PastSentinels : Prop :=
  0 ≤ context.blockHeight.toInt ∧ 0 ≤ context.previousMedianTimePast.toInt

/-- Every relative lock of the transaction is met, whatever its version. -/
def RelativeLocksMet : Prop :=
  PastSentinels context ∧ ∀ input ∈ tx.vin.zip context.inputs,
    RelativeLockMet context.blockHeight.toInt context.previousMedianTimePast.toInt input

/-- No relative lock of the transaction overflows an `int` or an `int64_t`. -/
def RelativeLocksFit : Prop :=
  ∀ input ∈ tx.vin.zip context.inputs, RelativeLockFits (2 ^ 31) input

theorem RelativeLockFits.mono {input : CTxIn × SequenceLockInputContext}
    (fits : RelativeLockFits (2 ^ 31) input) : RelativeLockFits (2 ^ 63) input := by
  intro active
  have bounds := fits active
  cases isTime : relativeLocktimeIsTime input.1 with
  | true =>
    rw [isTime, if_pos rfl] at bounds
    rwa [if_pos rfl]
  | false =>
    rw [isTime, if_neg Bool.false_ne_true] at bounds
    rw [if_neg Bool.false_ne_true]
    omega

theorem stdMax_int64_lt_iff {first second bound : Int64} :
    stdMax first second < bound ↔ first < bound ∧ second < bound := by
  simp only [stdMax, lt_iff_toInt_lt]
  split <;> omega

theorem stdMax_int32_lt_iff {first second bound : Int32} :
    stdMax first second < bound ↔ first < bound ∧ second < bound := by
  simp only [stdMax, Int32.lt_iff_toInt_lt]
  split <;> omega

private theorem sequenceLockMask_lt (sequence : UInt32) :
    (sequence &&& sequenceLocktimeMask).toNat < 65536 := by
  rw [UInt32.toNat_and]
  exact Nat.and_lt_two_pow (n := 16) _ (by decide)

private theorem sequenceLockShift_toInt (sequence : UInt32) :
    (ofNat ((sequence &&& sequenceLocktimeMask) <<< sequenceLocktimeGranularity).toNat).toInt =
      (sequence &&& sequenceLocktimeMask).toNat * 512 := by
  have bound := sequenceLockMask_lt sequence
  have shifted : ((sequence &&& sequenceLocktimeMask) <<<
      sequenceLocktimeGranularity).toNat = (sequence &&& sequenceLocktimeMask).toNat * 512 := by
    have granularity : sequenceLocktimeGranularity.toNat % 32 = 9 := by decide
    rw [UInt32.toNat_shiftLeft, Nat.shiftLeft_eq, granularity]
    exact Nat.mod_eq_of_lt (by omega)
  rw [shifted, toInt_ofNat_of_lt (by omega)]
  omega

private theorem int64ShiftLeft_toInt {lock : Nat} (bound : lock < 65536) :
    (ofNat lock <<< (9 : Int64)).toInt = lock * 512 := by
  have shifted : ofNat lock <<< (9 : Int64) = ofNat (lock * 512) := by
    apply Int64.toBitVec_inj.mp
    rw [Int64.toBitVec_shiftLeft]
    simp
    bv_omega
  rw [shifted, toInt_ofNat_of_lt (by omega)]
  omega

variable {ε : Type}

theorem lastInvalidInt64_eq_ok {start count last : Int64} :
    (lastInvalidInt64 start count : Exec ε Int64) = .ok last ↔
      start.toInt + count.toInt < 2 ^ 63 ∧ last.toInt = start.toInt + count.toInt - 1 := by
  have one : (1 : Int64).toInt = 1 := by decide
  simp only [lastInvalidInt64, bind_eq_ok, addInt64_eq_ok, subInt64_eq_ok, one]
  constructor
  · rintro ⟨first, firstEq, lastEq⟩
    have := first.toInt_lt
    omega
  · rintro ⟨upper, lastEq⟩
    have := last.le_toInt
    have firstEq := toInt_ofInt_of_le (n := start.toInt + count.toInt) (by omega) upper
    exact ⟨_, firstEq, by omega⟩

theorem lastInvalidInt32_eq_ok {start count last : Int32} :
    (lastInvalidInt32 start count : Exec ε Int32) = .ok last ↔
      start.toInt + count.toInt < 2 ^ 31 ∧ last.toInt = start.toInt + count.toInt - 1 := by
  have one : (1 : Int32).toInt = 1 := by decide
  simp only [lastInvalidInt32, bind_eq_ok, addInt32_eq_ok, subInt32_eq_ok, one]
  constructor
  · rintro ⟨first, firstEq, lastEq⟩
    have := first.toInt_lt
    omega
  · rintro ⟨upper, lastEq⟩
    have := last.le_toInt
    have firstEq := Int32.toInt_ofInt_of_le (n := start.toInt + count.toInt) (by omega) upper
    exact ⟨_, firstEq, by omega⟩

/-! The folds are followed twice: for whether they return at all, and, when an
answer is asked for, for whether it is true. -/

private theorem exists_lastInvalidInt64 (ε : Type) (asked : Prop) (start count bound : Int64) :
    (∃ last, (lastInvalidInt64 start count : Exec ε Int64) = .ok last ∧ (asked → last < bound)) ↔
      (-2 ^ 63 < start.toInt + count.toInt ∧ start.toInt + count.toInt < 2 ^ 63) ∧
        (asked → start.toInt + count.toInt ≤ bound.toInt) := by
  simp only [lastInvalidInt64_eq_ok, lt_iff_toInt_lt]
  constructor
  · rintro ⟨last, ⟨upper, lastEq⟩, below⟩
    have := last.le_toInt
    exact ⟨by omega, fun isAsked => by have := below isAsked; omega⟩
  · rintro ⟨fits, met⟩
    have lastEq := toInt_ofInt_of_le (n := start.toInt + count.toInt - 1) (by omega) (by omega)
    exact ⟨_, ⟨fits.2, lastEq⟩, fun isAsked => by have := met isAsked; omega⟩

private theorem exists_lastInvalidInt32 (ε : Type) (asked : Prop) (start count bound : Int32) :
    (∃ last, (lastInvalidInt32 start count : Exec ε Int32) = .ok last ∧ (asked → last < bound)) ↔
      (-2 ^ 31 < start.toInt + count.toInt ∧ start.toInt + count.toInt < 2 ^ 31) ∧
        (asked → start.toInt + count.toInt ≤ bound.toInt) := by
  simp only [lastInvalidInt32_eq_ok, Int32.lt_iff_toInt_lt]
  constructor
  · rintro ⟨last, ⟨upper, lastEq⟩, below⟩
    have := last.le_toInt
    exact ⟨by omega, fun isAsked => by have := below isAsked; omega⟩
  · rintro ⟨fits, met⟩
    have lastEq := Int32.toInt_ofInt_of_le (n := start.toInt + count.toInt - 1)
      (by omega) (by omega)
    exact ⟨_, ⟨fits.2, lastEq⟩, fun isAsked => by have := met isAsked; omega⟩

/-- Locks that one more lock raises are below a bound when they were and the lock is. -/
private theorem exists_raised_iff {α β : Type} {ran early : α → Prop} {below : β → Prop}
    {start : β} {raise : α → β}
    (raised : ∀ last, below (raise last) ↔ below start ∧ early last) :
    (∃ res, (∃ last, ran last ∧ raise last = res) ∧ below res) ↔
      below start ∧ ∃ last, ran last ∧ early last := by
  constructor
  · rintro ⟨_, ⟨last, run, rfl⟩, isBelow⟩
    exact ⟨((raised last).mp isBelow).1, last, run, ((raised last).mp isBelow).2⟩
  · rintro ⟨startBelow, last, run, lastEarly⟩
    exact ⟨_, ⟨last, run, rfl⟩, (raised last).mpr ⟨startBelow, lastEarly⟩⟩

private theorem exists_answer_iff {ε α : Type} {asked : Prop} {run : Exec ε α} {test : α → Bool} :
    (∃ answer, (do let res ← run; pure (test res) : Exec ε Bool) = .ok answer ∧
        (asked → answer = true)) ↔
      ∃ res, run = .ok res ∧ (asked → test res = true) := by
  simp only [bind_eq_ok, pure_eq_ok, Except.ok.injEq]
  constructor
  · rintro ⟨_, ⟨res, ran, rfl⟩, isTrue⟩
    exact ⟨res, ran, isTrue⟩
  · rintro ⟨res, ran, isTrue⟩
    exact ⟨_, ⟨res, ran, rfl⟩, isTrue⟩

private theorem calculateSequenceLock_lt_iff (asked : Prop) (blockHeight : Int32)
    (previousMedianTimePast : Int64) (locks : Int32 × Int64)
    (input : CTxIn × SequenceLockInputContext) :
    (∃ res, (calculateSequenceLock locks input : Exec ε (Int32 × Int64)) = .ok res ∧
        (asked → res.1 < blockHeight ∧ res.2 < previousMedianTimePast)) ↔
      (asked → locks.1 < blockHeight ∧ locks.2 < previousMedianTimePast) ∧
        RelativeLockFits (2 ^ 31) input ∧
          (asked → RelativeLockMet blockHeight.toInt previousMedianTimePast.toInt input) := by
  unfold calculateSequenceLock RelativeLockMet RelativeLockFits relativeLockCount
  have bound := sequenceLockMask_lt input.1.nSequence
  by_cases active : hasRelativeLocktime input.1 = true
  · by_cases isTime : relativeLocktimeIsTime input.1 = true
    · have lockMet := exists_lastInvalidInt64 ε asked input.2.previousMedianTimePast
        (ofNat ((input.1.nSequence &&& sequenceLocktimeMask) <<< sequenceLocktimeGranularity).toNat)
        previousMedianTimePast
      rw [sequenceLockShift_toInt] at lockMet
      simp only [active, isTime, if_true, forall_const, bind_eq_ok, pure_eq_ok, Except.ok.injEq]
      rw [← lockMet]
      exact exists_raised_iff fun last => by rw [stdMax_int64_lt_iff, ← and_assoc, forall_and]
    · have lockMet := exists_lastInvalidInt32 ε asked input.2.height
        (Int32.ofNat (input.1.nSequence &&& sequenceLocktimeMask).toNat) blockHeight
      rw [Int32.toInt_ofNat_of_lt (by omega)] at lockMet
      simp only [active, isTime, if_true, forall_const, bind_eq_ok, pure_eq_ok,
        Except.ok.injEq, Bool.false_eq_true, if_false]
      rw [← lockMet]
      exact exists_raised_iff fun last => by rw [stdMax_int32_lt_iff, and_right_comm, forall_and]
  · simp [active]

/-- The consensus library returns exactly when no lock of an enforced version
overflows, and true when moreover the block is past the sentinel values and every
such lock is met. -/
theorem evaluateSequenceLocksAtBlock_calculateSequenceLocks_iff {tx : CTransaction}
    {flags : Int32} {context : SequenceLockContext} (asked : Prop)
    (sizes : context.inputs.length = tx.vin.length)
    (flagOn : (flags &&& locktimeVerifySequence) ≠ 0) :
    (∃ answer, (do
        let lockPair ← calculateSequenceLocks tx flags context
        pure (evaluateSequenceLocksAtBlock context.blockHeight context.previousMedianTimePast
          lockPair) : Exec ε Bool) = .ok answer ∧ (asked → answer = true)) ↔
      (asked → PastSentinels context) ∧
        (2 ≤ tx.version → RelativeLocksFit tx context ∧ (asked → RelativeLocksMet tx context)) := by
  have start : ((-1 : Int32) < context.blockHeight ∧
      (-1 : Int64) < context.previousMedianTimePast) ↔ PastSentinels context := by
    have heightSentinel : (-1 : Int32).toInt = -1 := by decide
    have timeSentinel : (-1 : Int64).toInt = -1 := by decide
    rw [Int32.lt_iff_toInt_lt, lt_iff_toInt_lt, heightSentinel, timeSentinel, PastSentinels]
    omega
  have ok : ∀ lockPair : Int32 × Int64,
      evaluateSequenceLocksAtBlock context.blockHeight context.previousMedianTimePast lockPair =
          true ↔
        lockPair.1 < context.blockHeight ∧ lockPair.2 < context.previousMedianTimePast := by
    intro lockPair
    simp [evaluateSequenceLocksAtBlock, Int32.le_iff_toInt_le, le_iff_toInt_le,
      Int32.lt_iff_toInt_lt, lt_iff_toInt_lt]
  have run := foldlM_exists_ok_iff (ε := ε)
    (calculateSequenceLock_lt_iff asked context.blockHeight context.previousMedianTimePast)
    (tx.vin.zip context.inputs) (-1, -1)
  rw [exists_answer_iff]
  by_cases enforced : 2 ≤ tx.version
  · have enforcement : enforceBIP68SequenceLocks tx flags = true := by
      simp [enforceBIP68SequenceLocks, enforced, flagOn]
    simp only [calculateSequenceLocks, sizes, enforcement, enforced, assertThat,
      beq_self_eq_true, if_true, ok_bind, forall_const, ok]
    rw [run, start]
    simp only [RelativeLocksMet, RelativeLocksFit]
    grind
  · simp only [calculateSequenceLocks, sizes, enforceBIP68SequenceLocks, enforced,
      assertThat, beq_self_eq_true, if_true, ok_bind, decide_false, Bool.false_and,
      Bool.false_eq_true, if_false, pure_eq_ok, Except.ok.injEq, ok, start,
      false_implies, and_true, exists_eq_left']

/-! ## The value-semantics fold -/

namespace Bitcoin

private theorem minimumSequenceLock_lt_iff {ε : Type} (asked : Prop) (blockHeight : Int32)
    (previousMedianTimePast : Int64) (minimum : Int64 × Int64)
    (input : CTxIn × SequenceLockInputContext) :
    (∃ res, (minimumSequenceLock minimum (⟨input.1.nSequence⟩, coinOf input.2) :
          Exec ε (Int64 × Int64)) = .ok res ∧
        (asked → res.1 < blockHeight.toInt64 ∧ res.2 < previousMedianTimePast)) ↔
      (asked → minimum.1 < blockHeight.toInt64 ∧ minimum.2 < previousMedianTimePast) ∧
        RelativeLockFits (2 ^ 63) input ∧
          (asked → RelativeLockMet blockHeight.toInt previousMedianTimePast.toInt input) := by
  have active : hasRelativeLocktime input.1 =
      !((input.1.nSequence &&& (1 : UInt32) <<< 31) != 0) := by
    rw [hasRelativeLocktime]
    by_cases final : input.1.nSequence = sequenceFinal
    · rw [final]
      decide
    · rw [bne_iff_ne.mpr final, Bool.and_true, bne, Bool.not_not]
      rfl
  have bound := sequenceLockMask_lt input.1.nSequence
  unfold minimumSequenceLock RelativeLockMet RelativeLockFits relativeLockCount
  rw [active]
  cases (input.1.nSequence &&& (1 : UInt32) <<< 31) != 0 with
  | true => simp
  | false =>
    by_cases isTime : relativeLocktimeIsTime input.1 = true
    · have lockMet := exists_lastInvalidInt64 ε asked input.2.previousMedianTimePast
        (ofNat (input.1.nSequence &&& sequenceLocktimeMask).toNat <<< 9)
        previousMedianTimePast
      rw [int64ShiftLeft_toInt bound] at lockMet
      have typeFlag : ((input.1.nSequence &&& (1 : UInt32) <<< 22) != 0) = true := isTime
      simp only [typeFlag, isTime, Bool.not_false, if_true, forall_const, bind_eq_ok,
        pure_eq_ok, Except.ok.injEq, Bool.false_eq_true, if_false, coinOf]
      rw [← lockMet]
      exact exists_raised_iff fun last => by rw [stdMax_int64_lt_iff, ← and_assoc, forall_and]
    · have lockMet := exists_lastInvalidInt64 ε asked input.2.height.toInt64
        (ofNat (input.1.nSequence &&& sequenceLocktimeMask).toNat)
        blockHeight.toInt64
      rw [toInt_ofNat_of_lt (by omega), Int32.toInt_toInt64, Int32.toInt_toInt64] at lockMet
      have typeFlag : ((input.1.nSequence &&& (1 : UInt32) <<< 22) != 0) = false :=
        Bool.eq_false_iff.mpr isTime
      simp only [typeFlag, isTime, Bool.not_false, forall_const, bind_eq_ok,
        pure_eq_ok, Except.ok.injEq, Bool.false_eq_true, if_false, coinOf]
      rw [← lockMet]
      exact exists_raised_iff fun last => by rw [stdMax_int64_lt_iff, and_right_comm, forall_and]

theorem sequenceLocksSatisfied_iff {ε : Type} {tx : CTransaction}
    {context : SequenceLockContext} (asked : Prop) :
    (∃ answer, (sequenceLocksSatisfied (transactionOf tx)
        ⟨context.blockHeight, context.previousMedianTimePast, true⟩
        (context.inputs.map coinOf) : Exec ε Bool) = .ok answer ∧ (asked → answer = true)) ↔
      tx.version.toInt32 < 2 ∨
        (∀ input ∈ tx.vin.zip context.inputs, RelativeLockFits (2 ^ 63) input) ∧
          (asked → RelativeLocksMet tx context) := by
  have start : ((-1 : Int64) < context.blockHeight.toInt64 ∧
      (-1 : Int64) < context.previousMedianTimePast) ↔ PastSentinels context := by
    have sentinel : (-1 : Int64).toInt = -1 := by decide
    rw [lt_iff_toInt_lt, lt_iff_toInt_lt, sentinel, Int32.toInt_toInt64, PastSentinels]
    omega
  have run := foldlM_exists_ok_iff (ε := ε)
    (minimumSequenceLock_lt_iff asked context.blockHeight context.previousMedianTimePast)
    (tx.vin.zip context.inputs) (-1, -1)
  by_cases old : tx.version.toInt32 < 2
  · simp [sequenceLocksSatisfied, transactionOf, old]
  · simp only [sequenceLocksSatisfied, transactionOf, old, Bool.not_true, Bool.false_or,
      decide_false, Bool.false_eq_true, if_false, false_or, RelativeLocksMet]
    rw [exists_answer_iff]
    simp only [Bool.and_eq_true, decide_eq_true_eq]
    rw [List.zip_map, List.foldlM_map]
    refine run.trans ?_
    rw [start]
    grind

/-- Two runs return the same exactly when both return and neither alone is true. -/
private theorem exists_same_answer_iff {ε : Type} {first second : Exec ε Bool} :
    (∃ answer, first = .ok answer ∧ second = .ok answer) ↔
      (∃ answer, first = .ok answer ∧ (False → answer = true)) ∧
        (∃ answer, second = .ok answer ∧ (False → answer = true)) ∧
          ((∃ answer, first = .ok answer ∧ (True → answer = true)) ↔
            ∃ answer, second = .ok answer ∧ (True → answer = true)) := by
  rcases first with failure | _ | _ <;> rcases second with failure' | _ | _ <;> simp

private theorem version_toInt32_lt_two_iff (version : UInt32) :
    version.toInt32 < 2 ↔ version < 2 ∨ 0x80000000 ≤ version := by
  have signed : version.toInt32.toInt = version.toBitVec.toInt := rfl
  have two : (2 : Int32).toInt = 2 := by decide
  rw [Int32.lt_iff_toInt_lt, signed, two, BitVec.toInt_eq_toNat_cond, UInt32.lt_iff_toNat_lt,
    UInt32.le_iff_toNat_le, UInt32.toNat_toBitVec]
  have upper := version.toNat_lt
  simp only [UInt32.reduceToNat]
  split <;> omega

/-- Where the two libraries give the same answer: below version two the block
must be past the sentinel values that only the consensus library compares; for
the other versions no lock may overflow; and for those that are negative when read
as signed, every lock must be met. -/
def SequenceLockLibrariesAgree (tx : CTransaction) (context : SequenceLockContext) : Prop :=
  if tx.version < 2 then PastSentinels context
  else RelativeLocksFit tx context ∧ (tx.version < 0x80000000 ∨ RelativeLocksMet tx context)

theorem sequenceLocksSatisfied_eq_calculateSequenceLocks_iff {ε : Type} (tx : CTransaction)
    (flags : Int32) (context : SequenceLockContext)
    (sizes : context.inputs.length = tx.vin.length)
    (flagOn : (flags &&& locktimeVerifySequence) ≠ 0) :
    (∃ answer, (sequenceLocksSatisfied (transactionOf tx)
          ⟨context.blockHeight, context.previousMedianTimePast, true⟩
          (context.inputs.map coinOf) : Exec ε Bool) = .ok answer ∧
        (do let lockPair ← calculateSequenceLocks tx flags context
            pure (evaluateSequenceLocksAtBlock context.blockHeight
              context.previousMedianTimePast lockPair) : Exec ε Bool) = .ok answer) ↔
      SequenceLockLibrariesAgree tx context := by
  rw [exists_same_answer_iff]
  simp only [sequenceLocksSatisfied_iff,
    evaluateSequenceLocksAtBlock_calculateSequenceLocks_iff _ sizes flagOn]
  unfold SequenceLockLibrariesAgree
  have past : RelativeLocksMet tx context → PastSentinels context := fun met => met.1
  have wider : RelativeLocksFit tx context →
      ∀ input ∈ tx.vin.zip context.inputs, RelativeLockFits (2 ^ 63) input :=
    fun fits input mem => (fits input mem).mono
  generalize (∀ input ∈ tx.vin.zip context.inputs, RelativeLockFits (2 ^ 63) input) = fitWide
    at wider ⊢
  generalize RelativeLocksFit tx context = fit at wider ⊢
  generalize RelativeLocksMet tx context = met at past ⊢
  generalize PastSentinels context = isPast at past ⊢
  by_cases old : tx.version < 2
  · have signedOld := (version_toInt32_lt_two_iff tx.version).mpr (.inl old)
    have notEnforced : ¬ 2 ≤ tx.version := by simpa using old
    simp only [old, signedOld, notEnforced, if_true]
    grind
  · have enforced : 2 ≤ tx.version := by simpa using old
    by_cases nonnegative : tx.version < 0x80000000
    · have signedEnforced : ¬ tx.version.toInt32 < 2 := by
        rw [version_toInt32_lt_two_iff, not_or]
        exact ⟨old, by simpa using nonnegative⟩
      simp only [old, enforced, nonnegative, signedEnforced, if_false]
      grind
    · have signedOld := (version_toInt32_lt_two_iff tx.version).mpr
        (.inr (by simpa using nonnegative))
      simp only [old, enforced, nonnegative, signedOld, if_false]
      grind

/-- A spend with one relative lock of ten blocks and the given version. -/
def tenBlockLockTransaction (version : UInt32) : CTransaction where
  vin := [⟨⟨1, 0⟩, [], 10, []⟩]
  vout := [⟨1000, []⟩]
  version := version
  nLockTime := 0
  hash := 2

/-- A block at height 105 that spends a coin of height 100. -/
def fiveBlocksLaterContext : SequenceLockContext :=
  ⟨105, 1000, [⟨100, 900⟩]⟩

/-- Both refuse the spend at height 105, where ten blocks have not passed. -/
theorem sequenceLocksSatisfied_eq_calculateSequenceLocks_iff_versionTwo :
    ∃ answer, (sequenceLocksSatisfied (transactionOf (tenBlockLockTransaction 2))
          ⟨105, 1000, true⟩ (fiveBlocksLaterContext.inputs.map coinOf) : Exec Unit Bool) =
            .ok answer ∧
        (do let lockPair ← calculateSequenceLocks (tenBlockLockTransaction 2) 1
              fiveBlocksLaterContext
            pure (evaluateSequenceLocksAtBlock 105 1000 lockPair) : Exec Unit Bool) =
              .ok answer := by
  refine (sequenceLocksSatisfied_eq_calculateSequenceLocks_iff (tenBlockLockTransaction 2) 1
    fiveBlocksLaterContext rfl (by decide)).mpr ⟨?_, .inl (by decide)⟩
  rintro input (_ | ⟨_, _ | _⟩)
  exact fun _ => by decide

/-- The version `0xffffffff` is minus one for the value-semantics library,
which skips the lock, and at least two for the consensus library, which
enforces it. -/
theorem sequenceLocks_disagree_on_negative_version :
    (sequenceLocksSatisfied (transactionOf (tenBlockLockTransaction 0xffffffff))
        ⟨105, 1000, true⟩ (fiveBlocksLaterContext.inputs.map coinOf) : Exec Unit Bool) = .ok true ∧
      (do let lockPair ← calculateSequenceLocks (tenBlockLockTransaction 0xffffffff) 1
            fiveBlocksLaterContext
          pure (evaluateSequenceLocksAtBlock 105 1000 lockPair) : Exec Unit Bool) = .ok false :=
  ⟨rfl, rfl⟩

end Bitcoin

end Champy
