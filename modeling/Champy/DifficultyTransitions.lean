import Champy.DifficultyAgreement
import Mathlib.Order.Bounds.Basic

/-!
# Permitted changes of the difficulty

A compact form keeps the leading bytes of a target.  What it denotes is the greatest number
below the target that has a compact form, so rounding never changes the order of two targets.
The permitted range of `CheckPermittedDifficultyTransition` is made of the targets for the
shortest and the longest timespan, and every other retarget lies between them.  The work of a
target is the whole part of `2^256` divided by one more than it.
-/

namespace Champy

open ArithUint256 Validation Words Nat

/-! ## Numbers with a compact form -/

/-- A mantissa of 23 bits and a number of zero bytes after it. -/
def CompactNumber (number : Nat) : Prop :=
  ∃ mantissa zeros, mantissa < 2 ^ 23 ∧ number = mantissa * 256 ^ zeros

/-- The greatest number with a compact form that is not above another. -/
def IsCompactFloor (number floor : Nat) : Prop :=
  IsGreatest {value | CompactNumber value ∧ value ≤ number} floor

theorem IsCompactFloor.mono {first second firstFloor secondFloor : Nat} (ordered : first ≤ second)
    (ofFirst : IsCompactFloor first firstFloor) (ofSecond : IsCompactFloor second secondFloor) :
    firstFloor ≤ secondFloor :=
  ofSecond.2 ⟨ofFirst.1.1, Nat.le_trans ofFirst.1.2 ordered⟩

theorem CompactNumber.isCompactFloor {num : Nat} (compact : CompactNumber num) :
    IsCompactFloor num num :=
  ⟨⟨compact, Nat.le_refl _⟩, fun _ below => below.2⟩

/-- Dropping the bytes that do not fit, but no more of them. -/
theorem isCompactFloor_of_zeros {num zeros : Nat} (fits : num < 2 ^ 23 * 256 ^ zeros)
    (tight : zeros = 0 ∨ 2 ^ 15 * 256 ^ zeros ≤ num) :
    IsCompactFloor num (num / 256 ^ zeros * 256 ^ zeros) := by
  have positive : 0 < 256 ^ zeros := Nat.pow_pos (by decide)
  refine ⟨⟨⟨_, zeros, (Nat.div_lt_iff_lt_mul positive).mpr fits, rfl⟩, div_mul_le_self _ _⟩, ?_⟩
  intro value below
  obtain ⟨⟨mantissa, otherZeros, small, rfl⟩, below⟩ := below
  by_cases more : zeros ≤ otherZeros
  · -- The other number is a multiple of the same power.
    obtain ⟨extra, rfl⟩ := Nat.exists_eq_add_of_le more
    rw [Nat.pow_add, Nat.mul_left_comm, Nat.mul_comm] at below ⊢
    exact Nat.mul_le_mul_right _ ((Nat.le_div_iff_mul_le positive).mpr below)
  · -- The other number has fewer digits than the leading ones that are kept.
    obtain ⟨fewer, rfl⟩ := Nat.exists_eq_add_of_lt (Nat.lt_of_not_le more)
    have large : 2 ^ 15 * 256 ^ (otherZeros + fewer + 1) ≤ num := tight.resolve_left (by omega)
    have kept : 2 ^ 15 ≤ num / 256 ^ (otherZeros + fewer + 1) :=
      (Nat.le_div_iff_mul_le positive).mpr large
    calc mantissa * 256 ^ otherZeros ≤ 2 ^ 23 * 256 ^ (otherZeros + fewer) :=
          Nat.mul_le_mul (Nat.le_of_lt small)
            (Nat.pow_le_pow_right (by decide) (Nat.le_add_right _ _))
      _ = 2 ^ 15 * 256 ^ (otherZeros + fewer + 1) := by
          rw [Nat.pow_succ]
          ring
      _ ≤ _ := Nat.mul_le_mul_right _ kept

/-! ## Reading and writing the compact form -/

variable (compact : UInt32)

theorem toNat_setCompact : (setCompact compact).value.toNat =
      if compact.toNat / 2 ^ 24 ≤ 3 then
        compact.toNat % 2 ^ 23 / 256 ^ (3 - compact.toNat / 2 ^ 24)
      else compact.toNat % 2 ^ 23 * 256 ^ (compact.toNat / 2 ^ 24 - 3) % 2 ^ 256 := by
  have amount : (24 : UInt32).toNat % 32 = 24 := rfl
  have size : (compact >>> 24).toNat = compact.toNat / 2 ^ 24 := by
    rw [UInt32.toNat_shiftRight, amount, shiftRight_eq_div_pow]
  have mask : (0x007fffff : UInt32).toNat = 2 ^ 23 - 1 := rfl
  have mantissa : (compact &&& 0x007fffff).toNat = compact.toNat % 2 ^ 23 := by
    rw [UInt32.toNat_and, mask, and_two_pow_sub_one_eq_mod]
  have bytes : ∀ count, (256 : Nat) ^ count = 2 ^ (8 * count) := by
    intro count
    rw [Nat.pow_mul]
  simp only [setCompact, size]
  split
  · next short =>
      have shift : (UInt32.ofNat (8 * (3 - compact.toNat / 2 ^ 24))).toNat % 32 =
          8 * (3 - compact.toNat / 2 ^ 24) := by
        rw [UInt32.toNat_ofNat']
        omega
      rw [toNat_ofUInt64, UInt32.toNat_toUInt64, UInt32.toNat_shiftRight, shift, mantissa,
        shiftRight_eq_div_pow, bytes]
  · rw [toNat_shiftLeft, toNat_ofUInt64, UInt32.toNat_toUInt64, mantissa, bytes]

theorem compactNumber_setCompact : CompactNumber (setCompact compact).value.toNat := by
  have small : compact.toNat % 2 ^ 23 < 2 ^ 23 := mod_lt _ (by decide)
  rw [toNat_setCompact]
  split
  · exact ⟨_, 0, Nat.lt_of_le_of_lt (Nat.div_le_self _ _) small, (Nat.mul_one _).symm⟩
  · -- What does not fit in 256 bits is cut off from the mantissa.
    generalize compact.toNat % 2 ^ 23 = mantissa at small
    generalize compact.toNat / 2 ^ 24 - 3 = zeros
    by_cases inside : zeros ≤ 32
    · have width : (2 : Nat) ^ 256 = 256 ^ (32 - zeros) * 256 ^ zeros := by
        rw [← Nat.pow_add, Nat.sub_add_cancel inside]
        rfl
      rw [width, mul_mod_mul_right]
      exact ⟨_, zeros, Nat.lt_of_le_of_lt (mod_le _ _) small, rfl⟩
    · have width : 256 ^ zeros = 2 ^ 256 * 256 ^ (zeros - 32) := by
        rw [show (2 : Nat) ^ 256 = 256 ^ 32 from rfl, ← Nat.pow_add]
        congr 1
        omega
      rw [width, Nat.mul_left_comm, mul_mod_right]
      exact ⟨0, 0, by decide, rfl⟩

theorem toNat_compact_parts {mantissa : UInt32} {size : Nat} (small : mantissa.toNat < 2 ^ 23)
    (bound : size < 256) :
    (mantissa ||| UInt32.ofNat size <<< 24).toNat / 2 ^ 24 = size ∧
      (mantissa ||| UInt32.ofNat size <<< 24).toNat % 2 ^ 23 = mantissa.toNat := by
  have amount : (24 : UInt32).toNat % 32 = 24 := rfl
  have high : (UInt32.ofNat size <<< 24).toNat = size <<< 24 := by
    rw [UInt32.toNat_shiftLeft, amount, UInt32.toNat_ofNat_of_lt' (by rw [UInt32.size]; omega),
      shiftLeft_eq]
    omega
  have whole : (mantissa ||| UInt32.ofNat size <<< 24).toNat = mantissa.toNat + size * 2 ^ 24 := by
    rw [UInt32.toNat_or, high, or_shiftLeft_eq_add (by omega)]
  omega

theorem le_of_signBit_set {word : UInt32} (set : word &&& 0x00800000 ≠ 0) : 2 ^ 23 ≤ word.toNat := by
  have signBit : (0x00800000 : UInt32) = 1 <<< UInt32.ofNat 23 := by decide
  rw [signBit, word_and_bit_ne_zero (by decide)] at set
  exact ge_two_pow_of_testBit set

theorem isCompactFloor_parts {num size : Nat} {mantissa : UInt32} (wide : num < 2 ^ 256)
    (leading : mantissa.toNat = num * 256 ^ (3 - size) / 256 ^ (size - 3))
    (small : mantissa.toNat < 2 ^ 23) (bound : size < 256)
    (tight : size ≤ 3 ∨ 2 ^ 15 * 256 ^ (size - 3) ≤ num) :
    IsCompactFloor num (setCompact (mantissa ||| UInt32.ofNat size <<< 24)).value.toNat := by
  obtain ⟨sizePart, mantissaPart⟩ := toNat_compact_parts small bound
  rw [toNat_setCompact, sizePart, mantissaPart]
  by_cases short : size ≤ 3
  · -- The mantissa is the number, with zero bytes that reading drops again.
    have none : size - 3 = 0 := Nat.sub_eq_zero_of_le short
    rw [none, Nat.pow_zero, Nat.div_one] at leading
    have whole : mantissa.toNat / 256 ^ (3 - size) = num := by
      rw [leading, Nat.mul_div_cancel _ (Nat.pow_pos (by decide))]
    have fits : num < 2 ^ 23 := by
      rw [← whole]
      exact Nat.lt_of_le_of_lt (Nat.div_le_self _ _) small
    rw [if_pos short, whole]
    exact CompactNumber.isCompactFloor ⟨num, 0, fits, (Nat.mul_one _).symm⟩
  · have none : 3 - size = 0 := by omega
    rw [none, Nat.pow_zero, Nat.mul_one] at leading
    have fits : num < 2 ^ 23 * 256 ^ (size - 3) := by
      rw [leading, Nat.div_lt_iff_lt_mul (Nat.pow_pos (by decide))] at small
      exact small
    have noOverflow : num / 256 ^ (size - 3) * 256 ^ (size - 3) < 2 ^ 256 :=
      Nat.lt_of_le_of_lt (div_mul_le_self _ _) wide
    rw [if_neg short, leading, mod_eq_of_lt noOverflow]
    exact isCompactFloor_of_zeros fits (Or.inr (tight.resolve_left short))

theorem isCompactFloor_compact (num : Words 8) :
    IsCompactFloor num.toNat (setCompact (PowNumber.compact num)).value.toNat := by
  have wide : num.toNat < 2 ^ 256 := num.toNat_lt
  have size : byteLength num.toNat ≤ 32 := byteLength_le.mpr wide
  have leading := toNat_leadingBytes_value num
  have leadingLt := leadingThreeBytes_lt num.toNat
  rw [PowNumber.compact, byteSize_eq]
  by_cases sign : PowNumber.leadingBytes num &&& 0x00800000 ≠ 0
  · -- The top bit of the leading bytes is set, so one byte less is kept.
    have top := le_of_signBit_set sign
    have amount : (8 : UInt32).toNat % 32 = 8 := rfl
    have mantissa : (PowNumber.leadingBytes num >>> 8).toNat =
        leadingThreeBytes num.toNat / 256 := by
      rw [UInt32.toNat_shiftRight, amount, shiftRight_eq_div_pow, leading]
    rw [if_pos sign]
    refine isCompactFloor_parts wide ?_ (by omega) (by omega) ?_
    · rw [mantissa, leadingThreeBytes]
      by_cases short : byteLength num.toNat ≤ 2
      · obtain ⟨missing, split⟩ := Nat.exists_eq_add_of_le short
        have before : 3 - byteLength num.toNat = missing + 1 := by omega
        have after : 3 - (byteLength num.toNat + 1) = missing := by omega
        have noneBefore : byteLength num.toNat - 3 = 0 := by omega
        have noneAfter : byteLength num.toNat + 1 - 3 = 0 := by omega
        rw [before, after, noneBefore, noneAfter, Nat.pow_succ, ← Nat.mul_assoc, Nat.pow_zero,
          Nat.div_one, Nat.div_one, Nat.mul_div_cancel _ (by decide)]
      · have noneBefore : 3 - byteLength num.toNat = 0 := by omega
        have noneAfter : 3 - (byteLength num.toNat + 1) = 0 := by omega
        have after : byteLength num.toNat + 1 - 3 = byteLength num.toNat - 3 + 1 := by omega
        rw [noneBefore, noneAfter, after, Nat.pow_succ, Nat.div_div_eq_div_mul]
    · by_cases short : byteLength num.toNat ≤ 2
      · exact Or.inl (by omega)
      · right
        have none : 3 - byteLength num.toNat = 0 := by omega
        have after : byteLength num.toNat + 1 - 3 = byteLength num.toNat - 3 + 1 := by omega
        rw [leading, leadingThreeBytes, none, Nat.pow_zero, Nat.mul_one,
          Nat.le_div_iff_mul_le (Nat.pow_pos (by decide))] at top
        rw [after, Nat.pow_succ]
        omega
  · have clear := lt_of_signBit_clear (leading ▸ leadingLt) sign
    rw [if_neg sign]
    refine isCompactFloor_parts wide leading clear (by omega) ?_
    by_cases short : byteLength num.toNat ≤ 3
    · exact Or.inl short
    · right
      have large : 256 ^ (byteLength num.toNat - 1) ≤ num.toNat := lt_byteLength.mp (by omega)
      have power : byteLength num.toNat - 1 = byteLength num.toNat - 3 + 2 := by omega
      rw [power, Nat.pow_add] at large
      omega

/-! ## Retargets -/

/-- The target for a timespan, before it is rounded. -/
def unroundedTarget (params : ProofOfWorkParams) (oldBits : UInt32) (span timespan : Nat) :
    Nat :=
  min ((setCompact oldBits).value.toNat * timespan / span) params.powLimit.toNat

theorem unroundedTarget_mono (params : ProofOfWorkParams) (oldBits : UInt32)
    (span : Nat) {shorter longer : Nat} (ordered : shorter ≤ longer) :
    unroundedTarget params oldBits span shorter ≤ unroundedTarget params oldBits span longer :=
  min_le_min_right _ (Nat.div_le_div_right (Nat.mul_le_mul_left _ ordered))

section Transitions

variable {params : ProofOfWorkParams} {oldBits : UInt32} {span : Nat}
  (isTimespan : params.nPowTargetTimespan.toInt = span)
  (positive : 0 < span) (short : 4 * span < 2 ^ 32)
  (room : params.powLimit.toNat * (4 * span) < 2 ^ 256)
  (valid : (setCompact oldBits).value.toNat ≤ params.powLimit.toNat)

include isTimespan positive short room valid

/-- The common part of a retarget and of the two bounds on it. -/
theorem compact_of_timespan {timespan : Nat} (bounded : timespan ≤ 4 * span) : ∃ quot bits,
      ((setCompact oldBits).value.mulUInt32 (UInt32.ofInt timespan)).divide
        (ofUInt64 params.nPowTargetTimespan.toUInt64) = some quot ∧
      getCompact (if quot.compare (uintToArith256 params.powLimit) = .gt then
        uintToArith256 params.powLimit else quot) false = .ok bits ∧
      IsCompactFloor (unroundedTarget params oldBits span timespan)
        (setCompact bits).value.toNat := by
  have factor : (UInt32.ofInt timespan).toNat = timespan :=
    (toNat_uint32_ofInt (by omega) (by omega)).trans (Int.toNat_natCast _)
  have fits : (setCompact oldBits).value.toNat * timespan < 2 ^ (32 * 8) :=
    Nat.lt_of_le_of_lt (Nat.mul_le_mul valid bounded) room
  obtain ⟨product, -⟩ := mulWord_spec (by omega : 2 ^ 32 * timespan < 2 ^ 64) fits
  have divisor : (ofUInt64 params.nPowTargetTimespan.toUInt64).toNat = span := by
    have nonneg : (0 : Int64) ≤ params.nPowTargetTimespan := by
      rw [Int64.le_iff_toInt_le, isTimespan, Int64.toInt_zero]
      omega
    rw [toNat_ofUInt64, Int64.toNat_toUInt64_of_le nonneg]
    show params.nPowTargetTimespan.toInt.toNat = span
    omega
  obtain ⟨quot, divided, value⟩ := divide_spec
    ((setCompact oldBits).value.mulUInt32 (UInt32.ofInt timespan)) (by rwa [divisor])
  refine ⟨quot, _, divided, getCompact_eq _, ?_⟩
  have limited : (if quot.compare (uintToArith256 params.powLimit) = .gt then
      uintToArith256 params.powLimit else quot).toNat =
        unroundedTarget params oldBits span timespan := by
    rw [mulUInt32, factor, product, divisor] at value
    rw [unroundedTarget, ← value]
    split
    · next above =>
        rw [compare_eq, Nat.compare_eq_gt, toNat_uintToArith256] at above
        rw [toNat_uintToArith256, min_eq_right (Nat.le_of_lt above)]
    · next within =>
        rw [compare_eq, Nat.compare_eq_gt, toNat_uintToArith256] at within
        rw [min_eq_left (Nat.le_of_not_lt within)]
  rw [← limited]
  exact isCompactFloor_compact _

theorem scaledTarget_eq {timespan : Nat} (bounded : timespan ≤ 4 * span) :
    ∃ target, scaledTarget params oldBits timespan = .ok target ∧
      IsCompactFloor (unroundedTarget params oldBits span timespan) target.toNat := by
  obtain ⟨quot, bits, divided, encoded, floor⟩ :=
    compact_of_timespan isTimespan positive short room valid bounded
  refine ⟨(setCompact bits).value, ?_, floor⟩
  simp only [scaledTarget]
  rw [divided]
  dsimp only
  rw [encoded]
  rfl

theorem checkPermittedDifficultyTransition_of_between {height : Int} {newBits : UInt32}
    (noMinDifficulty : params.fPowAllowMinDifficultyBlocks = false)
    (boundary : height.tmod params.difficultyAdjustmentInterval = 0) {target : Nat}
    (lower : unroundedTarget params oldBits span (span / 4) ≤ target)
    (upper : target ≤ unroundedTarget params oldBits span (4 * span))
    (rounded : IsCompactFloor target (setCompact newBits).value.toNat) :
    checkPermittedDifficultyTransition params height oldBits newBits = .ok true := by
  obtain ⟨largest, scaledLargest, floorLargest⟩ :=
    scaledTarget_eq isTimespan positive short room valid (Nat.le_refl _)
  obtain ⟨smallest, scaledSmallest, floorSmallest⟩ :=
    scaledTarget_eq isTimespan positive short room valid (by omega : span / 4 ≤ 4 * span)
  have longest : (checkedInt64 (params.nPowTargetTimespan.toInt * 4) : Exec Empty Int64) =
      .ok (Int64.ofInt ((4 * span : Nat) : Int)) := by
    rw [checkedInt64_eq_ok, isTimespan, Int64.toInt_ofInt_of_le (by omega) (by omega)]
    omega
  have longestValue : (Int64.ofInt ((4 * span : Nat) : Int)).toInt =
      ((4 * span : Nat) : Int) := Int64.toInt_ofInt_of_le (by omega) (by omega)
  have shortest : params.nPowTargetTimespan.toInt.tdiv 4 = ((span / 4 : Nat) : Int) := by
    rw [isTimespan]
    rfl
  have notAbove : ¬ largest.compare (setCompact newBits).value = .lt := by
    rw [compare_eq, Nat.compare_eq_lt]
    exact Nat.not_lt.mpr (rounded.mono upper floorLargest)
  have notBelow : (smallest.compare (setCompact newBits).value != .gt) = true := by
    rw [bne_iff_ne, compare_eq, ne_eq, Nat.compare_eq_gt]
    exact Nat.not_lt.mpr (floorSmallest.mono lower rounded)
  rw [checkPermittedDifficultyTransition, noMinDifficulty, if_neg Bool.false_ne_true,
    if_pos boundary, longest, Exec.ok_bind]
  dsimp only
  rw [longestValue, scaledLargest, Exec.ok_bind, if_neg notAbove, shortest, scaledSmallest,
    Exec.ok_bind, notBelow]
  rfl

variable {ctx : DifficultyAdjustmentContext}

theorem calculateNextWorkRequired_between {difference : Int64} (isLast : ctx.lastBits = oldBits)
    (retargets : params.fPowNoRetargeting = false) (noBIP94 : params.enforceBIP94 = false)
    (subtracted : (checkedInt64 (ctx.lastBlockTime.toInt -
      ctx.firstPeriodBlockTime.toInt) : Exec Empty Int64) = .ok difference) :
    ∃ bits target, calculateNextWorkRequired ctx params = .ok bits ∧
      unroundedTarget params oldBits span (span / 4) ≤ target ∧
      target ≤ unroundedTarget params oldBits span (4 * span) ∧
      IsCompactFloor target (setCompact bits).value.toNat := by
  have quarter : (span : Int).tdiv 4 = ((span / 4 : Nat) : Int) := rfl
  obtain ⟨timespan, clamped, atLeast, atMost⟩ : ∃ timespan : Nat,
      clampedTimespan difference.toInt span = timespan ∧
        span / 4 ≤ timespan ∧ timespan ≤ 4 * span := by
    refine ⟨(clampedTimespan difference.toInt span).toNat, ?_⟩
    rw [clampedTimespan, quarter]
    split
    · omega
    · split <;> omega
  obtain ⟨quot, bits, divided, encoded, floor⟩ :=
    compact_of_timespan isTimespan positive short room valid atMost
  refine ⟨bits, _, ?_, unroundedTarget_mono params oldBits span atLeast,
    unroundedTarget_mono params oldBits span atMost, floor⟩
  rw [calculateNextWorkRequired, if_neg (by rw [retargets]; exact Bool.false_ne_true), subtracted,
    Exec.ok_bind, isTimespan, clampTimespan_eq (by omega) (by omega), Exec.ok_bind, clamped]
  simp only [noBIP94, if_neg Bool.false_ne_true, isLast]
  rw [divided]
  exact encoded

/-- Without retargeting the old target is kept, which is also between the bounds. -/
theorem calculateNextWorkRequired_permitted {bits : UInt32}
    (isLast : ctx.lastBits = oldBits) (noBIP94 : params.enforceBIP94 = false)
    (calculated : calculateNextWorkRequired ctx params = .ok bits) :
    ∃ target, unroundedTarget params oldBits span (span / 4) ≤ target ∧
      target ≤ unroundedTarget params oldBits span (4 * span) ∧
      IsCompactFloor target (setCompact bits).value.toNat := by
  by_cases retargets : params.fPowNoRetargeting = false
  · have subtraction := calculated
    rw [calculateNextWorkRequired, if_neg (by rw [retargets]; exact Bool.false_ne_true)]
      at subtraction
    obtain ⟨difference, subtracted, -⟩ := Exec.bind_eq_ok.mp subtraction
    obtain ⟨bits', target, calculated', between⟩ := calculateNextWorkRequired_between isTimespan
      positive short room valid isLast retargets noBIP94 subtracted
    cases calculated.symm.trans calculated'
    exact ⟨target, between⟩
  · rw [calculateNextWorkRequired, if_pos (Bool.of_not_eq_false retargets), isLast] at calculated
    cases calculated
    refine ⟨(setCompact oldBits).value.toNat, ?_, ?_,
      (compactNumber_setCompact oldBits).isCompactFloor⟩
    · apply Nat.le_trans (min_le_left _ _)
      apply Nat.div_le_of_le_mul
      rw [Nat.mul_comm span]
      exact Nat.mul_le_mul_left _ (Nat.div_le_self _ _)
    · apply le_min _ valid
      rw [Nat.mul_left_comm, ← Nat.mul_assoc, Nat.mul_div_cancel _ positive]
      omega

end Transitions

theorem getNextWorkRequired_eq {params : ProofOfWorkParams} {ctx : DifficultyAdjustmentContext}
    (noMinDifficulty : params.fPowAllowMinDifficultyBlocks = false)
    (height : 0 < ctx.nextHeight) (interval : 0 < params.difficultyAdjustmentInterval)
    (candidateBlockTime : Int64) :
    getNextWorkRequired ctx candidateBlockTime params =
      if ctx.nextHeight.toInt.tmod params.difficultyAdjustmentInterval ≠ 0 then
        .ok ctx.lastBits
      else calculateNextWorkRequired ctx params := by
  rw [getNextWorkRequired, decide_eq_true height]
  dsimp only
  rw [decide_eq_true interval, compactWorkLimit_eq, noMinDifficulty]
  rfl

/-- What `GetNextWorkRequired` returns is permitted, and it returns where its assertions hold
and the block times have 32 bits. -/
theorem checkPermittedDifficultyTransition_of_required {params : ProofOfWorkParams}
    {targetTimespan : Nat} (isTimespan : params.nPowTargetTimespan.toInt = targetTimespan)
    (short : 4 * targetTimespan < 2 ^ 32)
    (room : params.powLimit.toNat * (4 * targetTimespan) < 2 ^ 256)
    (noMinDifficulty : params.fPowAllowMinDifficultyBlocks = false)
    (noBIP94 : params.enforceBIP94 = false) (context : DifficultyAdjustmentContext)
    (candidateBlockTime : Int64) {target : ArithUint256}
    (valid : deriveProofOfWorkTarget context.lastBits params.powLimit = some target) :
    (∀ bits, getNextWorkRequired context candidateBlockTime params = .ok bits →
      checkPermittedDifficultyTransition params context.nextHeight.toInt context.lastBits bits =
        .ok true) ∧
    (0 < context.nextHeight → 0 < params.difficultyAdjustmentInterval →
      ∀ first last : UInt32, context.firstPeriodBlockTime = Int64.ofNat first.toNat →
        context.lastBlockTime = Int64.ofNat last.toNat →
        ∃ bits, getNextWorkRequired context candidateBlockTime params = .ok bits) := by
  rw [← deriveTarget_eq] at valid
  obtain ⟨rfl, withinLimit⟩ := deriveTarget_eq_some valid
  have positive : 0 < params.difficultyAdjustmentInterval → 0 < targetTimespan := by
    intro interval
    apply Nat.pos_of_ne_zero
    intro zero
    rw [ProofOfWorkParams.difficultyAdjustmentInterval, isTimespan, zero] at interval
    exact absurd interval (by simp)
  constructor
  · intro bits required
    obtain ⟨_, height, rest⟩ := Exec.bind_eq_ok.mp required
    dsimp only at rest
    obtain ⟨_, interval, -⟩ := Exec.bind_eq_ok.mp rest
    rw [Exec.assertThat_eq_ok, decide_eq_true_eq] at height interval
    rw [getNextWorkRequired_eq noMinDifficulty height interval] at required
    by_cases boundary : context.nextHeight.toInt.tmod params.difficultyAdjustmentInterval = 0
    · rw [if_neg (not_not_intro boundary)] at required
      obtain ⟨target, lower, upper, rounded⟩ := calculateNextWorkRequired_permitted isTimespan
        (positive interval) short room withinLimit rfl noBIP94 required
      exact checkPermittedDifficultyTransition_of_between isTimespan (positive interval) short room
        withinLimit noMinDifficulty boundary lower upper rounded
    · rw [if_pos boundary] at required
      cases required
      rw [checkPermittedDifficultyTransition, noMinDifficulty, if_neg Bool.false_ne_true,
        if_neg boundary, beq_self_eq_true]
      rfl
  · intro height interval first last firstTime lastTime
    rw [getNextWorkRequired_eq noMinDifficulty height interval]
    split
    · exact ⟨_, rfl⟩
    · by_cases retargets : params.fPowNoRetargeting = false
      · have firstLt := first.toNat_lt
        have lastLt := last.toNat_lt
        have subtracted : (checkedInt64 (context.lastBlockTime.toInt -
            context.firstPeriodBlockTime.toInt) : Exec Empty Int64) =
              .ok (Int64.ofInt (last.toNat - first.toNat)) := by
          rw [checkedInt64_eq_ok, firstTime, lastTime, toInt_ofNat_toNat, toInt_ofNat_toNat]
          exact Int64.toInt_ofInt_of_le (by omega) (by omega)
        obtain ⟨bits, -, calculated, -⟩ := calculateNextWorkRequired_between isTimespan
          (positive interval) short room withinLimit rfl retargets noBIP94 subtracted
        exact ⟨bits, calculated⟩
      · rw [calculateNextWorkRequired, if_pos (Bool.of_not_eq_false retargets)]
        exact ⟨_, rfl⟩

/-- Two weeks of blocks every ten minutes. -/
def sampleDifficultyParams : ProofOfWorkParams where
  powLimit := BitVec.ofNat 256 (2 ^ 224 - 1)
  fPowAllowMinDifficultyBlocks := false
  enforceBIP94 := false
  fPowNoRetargeting := false
  nPowTargetSpacing := 600
  nPowTargetTimespan := 1209600

/-- The end of a first period that took half the time. -/
def samplePeriod : DifficultyAdjustmentContext where
  nextHeight := 2016
  lastBits := 0x1d00ffff
  lastBlockTime := Int64.ofNat (604800 : UInt32).toNat
  firstPeriodBits := 0x1d00ffff
  firstPeriodBlockTime := Int64.ofNat (0 : UInt32).toNat
  lastNonMinDifficultyBits := none

theorem checkPermittedDifficultyTransition_of_required_samplePeriod :
    ∃ bits, getNextWorkRequired samplePeriod 605000 sampleDifficultyParams = .ok bits ∧
      checkPermittedDifficultyTransition sampleDifficultyParams 2016 0x1d00ffff bits =
        .ok true := by
  have derived : ∃ target, deriveProofOfWorkTarget samplePeriod.lastBits
      sampleDifficultyParams.powLimit = some target :=
    Option.isSome_iff_exists.mp (by decide +kernel)
  obtain ⟨target, valid⟩ := derived
  obtain ⟨permitted, returns⟩ := checkPermittedDifficultyTransition_of_required
    (show sampleDifficultyParams.nPowTargetTimespan.toInt = (1209600 : Nat) by decide)
    (by decide) (by decide +kernel) rfl rfl samplePeriod 605000 valid
  obtain ⟨bits, required⟩ := returns (by decide) (by decide) 0 604800 rfl rfl
  exact ⟨bits, required, permitted bits required⟩

/-! ## The work of a target -/

/-- No compact form stands for 256 ones, so the divisor never wraps to zero. -/
theorem setCompact_succ_lt : (setCompact compact).value.toNat + 1 < 2 ^ 256 := by
  rw [toNat_setCompact]
  split
  · have short := Nat.div_le_self (compact.toNat % 2 ^ 23) (256 ^ (3 - compact.toNat / 2 ^ 24))
    omega
  · next long =>
    obtain ⟨zeros, more⟩ := Nat.exists_eq_add_of_lt (Nat.lt_of_not_le long)
    have whole : compact.toNat / 2 ^ 24 - 3 = zeros + 1 := by omega
    rw [whole, pow_succ 256 zeros, ← Nat.mul_assoc]
    omega

theorem toNat_succ {num : ArithUint256} (room : num.toNat + 1 < 2 ^ 256) :
    (num.add (ofUInt64 1)).toNat = num.toNat + 1 := by
  rw [toNat_add, toNat_ofUInt64]
  exact mod_eq_of_lt room

/-- The quotient in `GetBitsProof` leaves one out, which is added afterwards. -/
theorem proof_quotient {flipped target : Nat} (total : flipped + target + 1 = 2 ^ 256) :
    flipped / (target + 1) + 1 = 2 ^ 256 / (target + 1) := by
  rw [← total, Nat.add_assoc, add_div_right _ (succ_pos target)]

theorem getBitsProof_exact : (∀ nBits, let target := setCompact nBits
      ∃ work, getBitsProof nBits = .ok work ∧ work.toNat < 2 ^ 256 ∧ work.toNat =
        if target.negative ∨ target.overflow ∨ target.value.toNat = 0 then 0
        else 2 ^ 256 / (target.value.toNat + 1)) ∧
    ∀ dividend divisor : ArithUint256, divisor.toNat ≠ 0 →
      ∃ quotient, dividend.divide divisor = some quotient ∧
        quotient.toNat = dividend.toNat / divisor.toNat := by
  refine ⟨?_, fun dividend divisor nonzero => dividend.divide_spec (Nat.pos_of_ne_zero nonzero)⟩
  intro nBits target
  have zero : (target.value.compare (ofUInt64 0) == .eq) = true ↔ target.value.toNat = 0 := by
    rw [beq_iff_eq, compare_eq, toNat_ofUInt64_zero, Nat.compare_eq_eq]
  have skipped : (target.negative || target.overflow ||
      target.value.compare (ofUInt64 0) == .eq) = true ↔
        target.negative ∨ target.overflow ∨ target.value.toNat = 0 := by
    rw [Bool.or_eq_true, Bool.or_eq_true, zero, or_assoc]
  by_cases refused : target.negative ∨ target.overflow ∨ target.value.toNat = 0
  · refine ⟨ofUInt64 0, ?_, ?_⟩
    · rw [getBitsProof, if_pos (skipped.mpr refused)]
      rfl
    · rw [if_pos refused, toNat_ofUInt64_zero]
      exact ⟨by decide, rfl⟩
  · have wide := setCompact_succ_lt nBits
    have divisor : (target.value.add (ofUInt64 1)).toNat = target.value.toNat + 1 := toNat_succ wide
    have nonzero : target.value.toNat ≠ 0 := fun none => refused (.inr (.inr none))
    have whole : 2 ^ 256 / (target.value.toNat + 1) < 2 ^ 256 :=
      Nat.div_lt_self (by decide) (by omega)
    obtain ⟨quotient, divided, value⟩ :=
      target.value.complement.divide_spec (Nat.lt_of_lt_of_eq (Nat.succ_pos _) divisor.symm)
    have total : quotient.toNat + 1 = 2 ^ 256 / (target.value.toNat + 1) := by
      rw [value, divisor, proof_quotient target.value.toNat_complement]
    have work : (quotient.add (ofUInt64 1)).toNat = 2 ^ 256 / (target.value.toNat + 1) := by
      rw [toNat_succ (total ▸ whole), total]
    refine ⟨quotient.add (ofUInt64 1), ?_, work ▸ whole, ?_⟩
    · rw [getBitsProof, if_neg (skipped.not.mpr refused), divided]
      rfl
    · rw [if_neg refused, work]

end Champy
