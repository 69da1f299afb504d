import Champy.CheckedExecution
import Mathlib.Algebra.Order.Floor.Ring
import Mathlib.Data.Rat.Floor
import Mathlib.Tactic.Linarith
import Mathlib.Tactic.LinearCombination

/-!
# Fee fractions

The fee that a feerate gives at another size, with 128-bit products or with products kept in
two words.  Both ways give the exactly rounded quotient whenever it fits, and no signed
operation on the way overflows.  A signed shift to the left counts as a multiplication here.
-/

namespace Champy

open Exec

structure FeeFrac where
  fee : Int64
  size : Int32
  deriving DecidableEq, Repr

namespace FeeFrac

/-- The correction of a quotient that was rounded towards zero. -/
def roundingCorrection (mod : Int) (roundDown : Bool) : Int :=
  (decide (0 < mod)).toInt - (mod != 0 && roundDown).toInt

def mulFallback (a : Int64) (b : Int32) : Exec Empty (Int64 × UInt32) := do
  let low ← checkedInt64 (a.toInt % 2 ^ 32 * b.toInt)
  let high ← checkedInt64 (a.toInt / 2 ^ 32 * b.toInt)
  let first ← checkedInt64 (high.toInt + low.toInt / 2 ^ 32)
  return (first, UInt32.ofNat (low.toInt % 2 ^ 32).toNat)

def divFallback (n : Int64 × UInt32) (d : Int32) (roundDown : Bool) : Exec Empty Int64 := do
  let quotHigh ← checkedInt64 (n.1.toInt.tdiv d.toInt)
  let shifted ← checkedInt64 (n.1.toInt.tmod d.toInt * 2 ^ 32)
  let nLow ← checkedInt64 (shifted.toInt + n.2.toNat)
  let quotLow ← checkedInt64 (nLow.toInt.tdiv d.toInt)
  let modLow := Int32.ofInt (nLow.toInt.tmod d.toInt)
  let rounded ← checkedInt64 (quotLow.toInt + roundingCorrection modLow.toInt roundDown)
  let high ← checkedInt64 (quotHigh.toInt * 2 ^ 32)
  checkedInt64 (high.toInt + rounded.toInt)

/-- A 128-bit signed result, or a fault when the exact value does not fit. -/
def checkedInt128 (value : Int) : Exec Empty Int :=
  if -2 ^ 127 ≤ value ∧ value < 2 ^ 127 then .ok value else Exec.abort .signedOverflow

/-- `FeeFrac::Mul` where the compiler has 128-bit integers. -/
def mul (a : Int64) (b : Int32) : Exec Empty Int :=
  checkedInt128 (a.toInt * b.toInt)

/-- `FeeFrac::Div` where the compiler has 128-bit integers. -/
def div (n : Int) (d : Int32) (roundDown : Bool) : Exec Empty Int64 := do
  let quot := Int64.ofInt (← checkedInt128 (n.tdiv d.toInt))
  let mod := Int32.ofInt (n.tmod d.toInt)
  checkedInt64 (quot.toInt + roundingCorrection mod.toInt roundDown)

end FeeFrac

/-- The choice of `Mul` and `Div` that the compiler makes. -/
structure FeeArithmetic (Wide : Type) where
  mul : Int64 → Int32 → Exec Empty Wide
  div : Wide → Int32 → Bool → Exec Empty Int64

def int128Arithmetic : FeeArithmetic Int := ⟨FeeFrac.mul, FeeFrac.div⟩

def fallbackArithmetic : FeeArithmetic (Int64 × UInt32) := ⟨FeeFrac.mulFallback, FeeFrac.divFallback⟩

def ceilDiv (dividend divisor : Int) : Exec Empty Int := do
  Exec.assertThat (0 < divisor)
  return (dividend / divisor + (dividend % divisor != 0).toInt) % 2 ^ 64

namespace FeeFrac

/-- `FeeFrac::EvaluateFee`.  Unsigned products and conversions keep the low bits. -/
def evaluateFee {Wide : Type} (arithmetic : FeeArithmetic Wide) (roundDown : Bool)
    (feefrac : FeeFrac) (atSize : Int32) : Exec Empty Int64 := do
  if 0 ≤ feefrac.fee ∧ feefrac.fee < 0x200000000 then
    let product := feefrac.fee.toInt * atSize.toInt % 2 ^ 64
    let size := feefrac.size.toInt % 2 ^ 32
    if roundDown then
      return Int64.ofInt (product / size)
    else
      return Int64.ofInt (← ceilDiv product size)
  else
    arithmetic.div (← arithmetic.mul feefrac.fee atSize) feefrac.size roundDown

def evaluateFeeDown {Wide : Type} (arithmetic : FeeArithmetic Wide) (feefrac : FeeFrac)
    (atSize : Int32) : Exec Empty Int64 :=
  feefrac.evaluateFee arithmetic true atSize

def evaluateFeeUp {Wide : Type} (arithmetic : FeeArithmetic Wide) (feefrac : FeeFrac)
    (atSize : Int32) : Exec Empty Int64 :=
  feefrac.evaluateFee arithmetic false atSize

end FeeFrac

open FeeFrac

/-! ## Rounded quotients -/

/-- `result` is `n / d` rounded down, or up. -/
def IsRounded (roundDown : Bool) (n d result : Int) : Prop :=
  if roundDown then result * d ≤ n ∧ n < (result + 1) * d
  else (result - 1) * d < n ∧ n ≤ result * d

theorem isRounded_true_iff {n d res : Int} (pos : 0 < d) :
    IsRounded true n d res ↔ ⌊(n : ℚ) / d⌋ = res := by
  have cast : (0 : ℚ) < d := by exact_mod_cast pos
  rw [Int.floor_eq_iff, le_div_iff₀ cast, div_lt_iff₀ cast]
  exact_mod_cast Iff.rfl

theorem isRounded_false_iff {n d res : Int} (pos : 0 < d) :
    IsRounded false n d res ↔ ⌈(n : ℚ) / d⌉ = res := by
  have cast : (0 : ℚ) < d := by exact_mod_cast pos
  rw [Int.ceil_eq_iff, lt_div_iff₀ cast, div_le_iff₀ cast]
  exact_mod_cast Iff.rfl

section Rounding

variable {roundDown : Bool} {n d res : Int}

theorem IsRounded.unique {other : Int} (pos : 0 < d) (rounded : IsRounded roundDown n d res)
    (rounded' : IsRounded roundDown n d other) : res = other := by
  cases roundDown with
  | false => rw [← (isRounded_false_iff pos).mp rounded, (isRounded_false_iff pos).mp rounded']
  | true => rw [← (isRounded_true_iff pos).mp rounded, (isRounded_true_iff pos).mp rounded']

theorem IsRounded.mul_add (rounded : IsRounded roundDown n d res) (quot : Int) :
    IsRounded roundDown (quot * d + n) d (quot + res) := by
  cases roundDown with
  | false =>
    obtain ⟨above, below⟩ := rounded
    exact ⟨by linarith, by linarith⟩
  | true =>
    obtain ⟨above, below⟩ := rounded
    exact ⟨by linarith, by linarith⟩

theorem tmod_bounds (pos : 0 < d) (n : Int) :
    -d < n.tmod d ∧ n.tmod d < d ∧ (0 ≤ n → 0 ≤ n.tmod d) ∧ (n ≤ 0 → n.tmod d ≤ 0) := by
  have nonneg := @Int.tmod_nonneg n d
  have nonpos := @Int.tmod_nonneg (-n) d
  have below := Int.tmod_lt_of_pos n pos
  have above := Int.tmod_lt_of_pos (-n) pos
  rw [Int.neg_tmod] at nonpos above
  omega

theorem roundingCorrection_eq (mod : Int) (roundDown : Bool) : roundingCorrection mod roundDown =
      if 0 < mod then (if roundDown then 0 else 1)
      else if mod < 0 then (if roundDown then -1 else 0) else 0 := by
  rcases lt_trichotomy mod 0 with negative | rfl | pos
  · have nonzero : (mod != 0) = true := bne_iff_ne.mpr negative.ne
    cases roundDown <;> simp [roundingCorrection, nonzero, negative, negative.not_gt]
  · simp [roundingCorrection]
  · have nonzero : (mod != 0) = true := bne_iff_ne.mpr pos.ne'
    cases roundDown <;> simp [roundingCorrection, nonzero, pos]

theorem isRounded_tdiv (pos : 0 < d) (n : Int) (roundDown : Bool) :
    IsRounded roundDown n d (n.tdiv d + roundingCorrection (n.tmod d) roundDown) := by
  have split := Int.mul_tdiv_add_tmod n d
  obtain ⟨above, below, -⟩ := tmod_bounds pos n
  generalize n.tdiv d = quot at *
  generalize n.tmod d = mod at *
  subst split
  rw [mul_comm d quot]
  refine IsRounded.mul_add ?_ quot
  rw [roundingCorrection_eq]
  cases roundDown <;> simp only [IsRounded] <;> split_ifs <;> omega

theorem isRounded_ediv (pos : 0 < d) (n : Int) : IsRounded true n d (n / d) :=
  ⟨Int.ediv_mul_le n pos.ne', Int.lt_ediv_add_one_mul_self n pos⟩

theorem IsRounded.le (pos : 0 < d) (rounded : IsRounded roundDown n d res) (bound : Int)
    (below : n ≤ bound * d) : res ≤ bound := by
  cases roundDown with
  | false => exact Int.sub_one_lt_iff.mp (lt_of_mul_lt_mul_right (rounded.1.trans_le below) pos.le)
  | true => exact le_of_mul_le_mul_right (rounded.1.trans below) pos

theorem IsRounded.ge (pos : 0 < d) (rounded : IsRounded roundDown n d res) (bound : Int)
    (above : bound * d ≤ n) : bound ≤ res := by
  cases roundDown with
  | false => exact le_of_mul_le_mul_right (above.trans rounded.2) pos
  | true => exact Int.lt_add_one_iff.mp (lt_of_mul_lt_mul_right (above.trans_lt rounded.2) pos.le)

/-- The quotient before its correction lies between zero and the rounded quotient. -/
theorem IsRounded.tdiv_between (pos : 0 < d) (rounded : IsRounded roundDown n d res) :
    n.tdiv d + roundingCorrection (n.tmod d) roundDown = res ∧
      (0 ≤ n → 0 ≤ n.tdiv d ∧ n.tdiv d ≤ res) ∧ (n ≤ 0 → res ≤ n.tdiv d ∧ n.tdiv d ≤ 0) := by
  have corrected := (isRounded_tdiv pos n roundDown).unique pos rounded
  obtain ⟨-, -, nonneg, nonpos⟩ := tmod_bounds pos n
  refine ⟨corrected, fun sign => ⟨Int.tdiv_nonneg sign pos.le, ?_⟩, fun sign => ⟨?_, ?_⟩⟩
  · have := nonneg sign
    rw [← corrected, roundingCorrection_eq]
    split_ifs <;> omega
  · have := nonpos sign
    rw [← corrected, roundingCorrection_eq]
    split_ifs <;> omega
  · have := Int.tdiv_nonneg (neg_nonneg.mpr sign) pos.le
    rw [Int.neg_tdiv] at this
    omega

theorem IsRounded.fits_tdiv (pos : 0 < d) (rounded : IsRounded roundDown n d res)
    (low : -2 ^ 63 ≤ res) (high : res < 2 ^ 63) :
    -2 ^ 63 ≤ n.tdiv d ∧ n.tdiv d < 2 ^ 63 := by
  obtain ⟨-, nonneg, nonpos⟩ := rounded.tdiv_between pos
  rcases le_total 0 n with sign | sign
  · have := nonneg sign
    omega
  · have := nonpos sign
    omega

end Rounding

/-! ## Signed results that fit -/

theorem toInt_ofInt_tmod {d : Int32} (pos : 0 < d.toInt) (n : Int) :
    (Int32.ofInt (n.tmod d.toInt)).toInt = n.tmod d.toInt := by
  have bounds := tmod_bounds pos n
  have width := d.toInt_lt
  exact Int32.toInt_ofInt_of_le (by omega) (by omega)

theorem exists_mulFallback (a : Int64) (b : Int32) : ∃ words, mulFallback a b = .ok words ∧
      words.1.toInt * 2 ^ 32 + words.2.toNat = a.toInt * b.toInt := by
  have aLow := a.le_toInt
  have aHigh := a.toInt_lt
  have factor : |b.toInt| ≤ 2 ^ 31 := abs_le.mpr ⟨b.le_toInt, b.toInt_lt.le⟩
  have lowBound : |a.toInt % 2 ^ 32 * b.toInt| ≤ (2 ^ 32 - 1) * 2 ^ 31 := by
    rw [abs_mul]
    exact mul_le_mul (abs_le.mpr (by omega)) factor (abs_nonneg _) (by norm_num)
  have highBound : |a.toInt / 2 ^ 32 * b.toInt| ≤ 2 ^ 31 * 2 ^ 31 := by
    rw [abs_mul]
    exact mul_le_mul (abs_le.mpr (by omega)) factor (abs_nonneg _) (by norm_num)
  rw [abs_le] at lowBound highBound
  obtain ⟨low, lowEq, lowValue⟩ :=
    exists_checkedInt64 (a.toInt % 2 ^ 32 * b.toInt) (by omega) (by omega)
  obtain ⟨high, highEq, highValue⟩ :=
    exists_checkedInt64 (a.toInt / 2 ^ 32 * b.toInt) (by omega) (by omega)
  obtain ⟨first, firstEq, firstValue⟩ :=
    exists_checkedInt64 (high.toInt + low.toInt / 2 ^ 32) (by omega) (by omega)
  refine ⟨(first, UInt32.ofNat (low.toInt % 2 ^ 32).toNat), ?_, ?_⟩
  · simp only [mulFallback, lowEq, highEq, firstEq, ok_bind, pure_eq_ok]
  have second : ((UInt32.ofNat (low.toInt % 2 ^ 32).toNat).toNat : Int) = low.toInt % 2 ^ 32 := by
    rw [UInt32.toNat_ofNat']
    omega
  calc first.toInt * 2 ^ 32 + ((UInt32.ofNat (low.toInt % 2 ^ 32).toNat).toNat : Int)
      = high.toInt * 2 ^ 32 + low.toInt := by rw [second, firstValue]; omega
    _ = (a.toInt / 2 ^ 32 * 2 ^ 32 + a.toInt % 2 ^ 32) * b.toInt := by rw [highValue, lowValue]; ring
    _ = a.toInt * b.toInt := by rw [Int.ediv_mul_add_emod]

theorem divFallback_eq {n : Int64 × UInt32} {d : Int32} {roundDown : Bool} {res : Int64}
    (pos : 0 < d.toInt)
    (rounded : IsRounded roundDown (n.1.toInt * 2 ^ 32 + n.2.toNat) d.toInt res.toInt) :
    divFallback n d roundDown = .ok res := by
  have wordLow := n.1.le_toInt
  have wordHigh := n.1.toInt_lt
  have sizeHigh := d.toInt_lt
  have word := n.2.toNat_lt
  obtain ⟨above, below, nonneg, nonpos⟩ := tmod_bounds pos n.1.toInt
  have nearHigh := isRounded_tdiv pos n.1.toInt true
  obtain ⟨-, highNonneg, highNonpos⟩ := nearHigh.tdiv_between pos
  have highFits := nearHigh.fits_tdiv pos (nearHigh.ge pos (-2 ^ 63) (by nlinarith))
    (Int.lt_of_le_sub_one (nearHigh.le pos (2 ^ 63 - 1) (by nlinarith)))
  obtain ⟨quotHigh, quotHighEq, quotHighValue⟩ := exists_checkedInt64 _ highFits.1 highFits.2
  obtain ⟨shifted, shiftedEq, shiftedValue⟩ :=
    exists_checkedInt64 (n.1.toInt.tmod d.toInt * 2 ^ 32) (by omega) (by omega)
  obtain ⟨nLow, nLowEq, nLowValue⟩ :=
    exists_checkedInt64 (shifted.toInt + n.2.toNat) (by omega) (by omega)
  have nearLow := isRounded_tdiv pos nLow.toInt roundDown
  have lowAbove := nearLow.ge pos (-2 ^ 32) (by nlinarith)
  have lowBelow := nearLow.le pos (2 ^ 32) (by nlinarith)
  have lowFits := nearLow.fits_tdiv pos (by omega) (by omega)
  -- The rounded quotients of the two halves add up to the result.
  have sum : quotHigh.toInt * 2 ^ 32 +
      (nLow.toInt.tdiv d.toInt + roundingCorrection (nLow.toInt.tmod d.toInt) roundDown) =
      res.toInt := by
    refine (nearLow.mul_add (quotHigh.toInt * 2 ^ 32)).unique pos ?_
    convert rounded using 1
    rw [nLowValue, shiftedValue, quotHighValue]
    linear_combination 2 ^ 32 * Int.mul_tdiv_add_tmod n.1.toInt d.toInt
  have resultLow := res.le_toInt
  have resultHigh := res.toInt_lt
  have highShift : -2 ^ 63 ≤ quotHigh.toInt * 2 ^ 32 ∧ quotHigh.toInt * 2 ^ 32 < 2 ^ 63 := by
    rcases le_total 0 n.1.toInt with sign | sign
    · have := nearLow.ge pos 0 (by rw [nLowValue, shiftedValue]; have := nonneg sign; omega)
      have := highNonneg sign
      omega
    · have := nearLow.le pos (2 ^ 32 - 1) (by have := nonpos sign; nlinarith)
      have := highNonpos sign
      omega
  obtain ⟨quotLow, quotLowEq, quotLowValue⟩ := exists_checkedInt64 _ lowFits.1 lowFits.2
  obtain ⟨corrected, correctedEq, correctedValue⟩ := exists_checkedInt64
    (quotLow.toInt + roundingCorrection (nLow.toInt.tmod d.toInt) roundDown) (by omega) (by omega)
  obtain ⟨high, highEq, highValue⟩ := exists_checkedInt64 _ highShift.1 highShift.2
  simp only [divFallback, quotHighEq, shiftedEq, nLowEq, quotLowEq, ok_bind,
    toInt_ofInt_tmod pos, correctedEq, highEq]
  rw [checkedInt64_eq_ok, ← sum, highValue, correctedValue, quotLowValue]

/-! ## Both arithmetics are exact -/

/-- The product and the division give every rounded quotient that fits. -/
def FeeArithmetic.Exact {Wide : Type} (arithmetic : FeeArithmetic Wide) : Prop :=
  ∀ (a : Int64) (b d : Int32) (roundDown : Bool) (result : Int64), 0 < d.toInt →
    IsRounded roundDown (a.toInt * b.toInt) d.toInt result.toInt →
    ∃ wide, arithmetic.mul a b = .ok wide ∧ arithmetic.div wide d roundDown = .ok result

theorem fallbackArithmetic_exact : fallbackArithmetic.Exact := by
  intro a b d roundDown res pos rounded
  obtain ⟨words, product, value⟩ := exists_mulFallback a b
  exact ⟨words, product, divFallback_eq pos (value ▸ rounded)⟩

theorem int128Arithmetic_exact : int128Arithmetic.Exact := by
  intro a b d roundDown res pos rounded
  have product : |a.toInt * b.toInt| ≤ 2 ^ 63 * 2 ^ 31 := by
    rw [abs_mul]
    exact mul_le_mul (abs_le.mpr ⟨a.le_toInt, a.toInt_lt.le⟩)
      (abs_le.mpr ⟨b.le_toInt, b.toInt_lt.le⟩) (abs_nonneg _) (by norm_num)
  rw [abs_le] at product
  obtain ⟨corrected, -⟩ := rounded.tdiv_between pos
  obtain ⟨low, high⟩ := rounded.fits_tdiv pos res.le_toInt res.toInt_lt
  refine ⟨a.toInt * b.toInt, if_pos (by omega), ?_⟩
  have quot : checkedInt128 ((a.toInt * b.toInt).tdiv d.toInt) = .ok _ := if_pos (by omega)
  simp only [int128Arithmetic, FeeFrac.div, quot, ok_bind, toInt_ofInt_tmod pos]
  rw [checkedInt64_eq_ok, Int64.toInt_ofInt_of_le low high, corrected]

theorem isRounded_ceilDiv {dividend divisor : Int} (pos : 0 < divisor) :
    IsRounded false dividend divisor (dividend / divisor + (dividend % divisor != 0).toInt) := by
  have split := Int.mul_ediv_add_emod dividend divisor
  have below := Int.emod_lt_of_pos dividend pos
  have above := Int.emod_nonneg dividend pos.ne'
  generalize dividend / divisor = quot at *
  generalize dividend % divisor = mod at *
  subst split
  rw [mul_comm divisor quot]
  refine IsRounded.mul_add ?_ quot
  by_cases zero : mod = 0
  · simp [IsRounded, zero, pos]
  · have nonzero : (mod != 0) = true := bne_iff_ne.mpr zero
    simp only [IsRounded, nonzero, Bool.toInt_true]
    exact ⟨by omega, by omega⟩

theorem FeeFrac.evaluateFee_eq {Wide : Type} {arithmetic : FeeArithmetic Wide}
    (exact : arithmetic.Exact) {roundDown : Bool} {feefrac : FeeFrac} {atSize : Int32}
    {res : Int64} (pos : 0 < feefrac.size.toInt) (nonneg : 0 ≤ atSize.toInt)
    (rounded : IsRounded roundDown (feefrac.fee.toInt * atSize.toInt) feefrac.size.toInt
      res.toInt) :
    feefrac.evaluateFee arithmetic roundDown atSize = .ok res := by
  unfold FeeFrac.evaluateFee
  split
  · rename_i small
    rw [Int64.le_iff_toInt_le, Int64.lt_iff_toInt_lt] at small
    have smallLow : 0 ≤ feefrac.fee.toInt := small.1
    have smallHigh : feefrac.fee.toInt < 0x200000000 := small.2
    have sizeHigh := feefrac.size.toInt_lt
    have atHigh := atSize.toInt_lt
    have resultLow := res.le_toInt
    have resultHigh := res.toInt_lt
    -- The product of a small fee needs at most 64 bits.
    have product : feefrac.fee.toInt * atSize.toInt % 2 ^ 64 = feefrac.fee.toInt * atSize.toInt :=
      Int.emod_eq_of_lt (mul_nonneg smallLow nonneg) (by nlinarith)
    have size : feefrac.size.toInt % 2 ^ 32 = feefrac.size.toInt :=
      Int.emod_eq_of_lt pos.le (by omega)
    rw [product, size]
    cases roundDown with
    | false =>
      have quot := (isRounded_ceilDiv pos).unique pos rounded
      have atLeast := rounded.ge pos 0 (by rw [zero_mul]; exact mul_nonneg smallLow nonneg)
      simp only [ceilDiv, pos, decide_true, assertThat, if_true, ok_bind,
        pure_eq_ok, quot, Bool.false_eq_true, if_false]
      rw [Int.emod_eq_of_lt atLeast (by omega), Int64.ofInt_toInt]
    | true =>
      have quot := (isRounded_ediv pos _).unique pos rounded
      simp only [quot, if_true, pure_eq_ok, Int64.ofInt_toInt]
  · obtain ⟨wide, mulEq, divEq⟩ :=
      exact feefrac.fee atSize feefrac.size roundDown res pos rounded
    simp only [mulEq, ok_bind, divEq]

theorem words_lt_iff (first second : Int64 × UInt32) :
    (first.1 < second.1 ∨ first.1 = second.1 ∧ first.2 < second.2) ↔
      first.1.toInt * 2 ^ 32 + first.2.toNat < second.1.toInt * 2 ^ 32 + second.2.toNat := by
  have firstWord := first.2.toNat_lt
  have secondWord := second.2.toNat_lt
  rw [Int64.lt_iff_toInt_lt, UInt32.lt_iff_toNat_lt, ← Int64.toInt_inj]
  omega

/-- `EvaluateFeeDown` and `EvaluateFeeUp` are the floor and the ceiling of the quotient whenever
it fits, with either arithmetic, and the words of `MulFallback` are ordered as the products. -/
theorem FeeFrac.evaluateFee_exact :
    (∀ (fee : Int64) (size atSize : Int32), 0 < size → 0 ≤ atSize → ∀ result : Int64,
      (⌊((fee.toInt * atSize.toInt : Int) : ℚ) / size.toInt⌋ = result.toInt →
        evaluateFeeDown int128Arithmetic ⟨fee, size⟩ atSize = .ok result ∧
          evaluateFeeDown fallbackArithmetic ⟨fee, size⟩ atSize = .ok result) ∧
      (⌈((fee.toInt * atSize.toInt : Int) : ℚ) / size.toInt⌉ = result.toInt →
        evaluateFeeUp int128Arithmetic ⟨fee, size⟩ atSize = .ok result ∧
          evaluateFeeUp fallbackArithmetic ⟨fee, size⟩ atSize = .ok result)) ∧
    ∀ (a a' : Int64) (b b' : Int32), ∃ words words', mulFallback a b = .ok words ∧
      mulFallback a' b' = .ok words' ∧
      ((words.1 < words'.1 ∨ words.1 = words'.1 ∧ words.2 < words'.2) ↔
        a.toInt * b.toInt < a'.toInt * b'.toInt) := by
  refine ⟨fun fee size atSize positive nonneg result => ?_, fun a a' b b' => ?_⟩
  · rw [Int32.lt_iff_toInt_lt] at positive
    rw [Int32.le_iff_toInt_le] at nonneg
    refine ⟨fun floor => ?_, fun ceil => ?_⟩
    · have rounded := (isRounded_true_iff positive).mpr floor
      exact ⟨evaluateFee_eq int128Arithmetic_exact positive nonneg rounded,
        evaluateFee_eq fallbackArithmetic_exact positive nonneg rounded⟩
    · have rounded := (isRounded_false_iff positive).mpr ceil
      exact ⟨evaluateFee_eq int128Arithmetic_exact positive nonneg rounded,
        evaluateFee_eq fallbackArithmetic_exact positive nonneg rounded⟩
  · obtain ⟨words, product, value⟩ := exists_mulFallback a b
    obtain ⟨words', product', value'⟩ := exists_mulFallback a' b'
    exact ⟨words, words', product, product', by rw [words_lt_iff, value, value']⟩

/-- A negative fee, whose quotient is rounded away from zero or towards it. -/
theorem FeeFrac.evaluateFee_negativeFee : evaluateFeeDown fallbackArithmetic ⟨-7, 2⟩ 3 = .ok (-11) ∧
      evaluateFeeUp fallbackArithmetic ⟨-7, 2⟩ 3 = .ok (-10) := by
  have quotient := evaluateFee_exact.1 (-7) 2 3 (by decide) (by decide)
  refine ⟨((quotient (-11)).1 ?_).2, ((quotient (-10)).2 ?_).2⟩
  · exact (isRounded_true_iff (by decide)).mp ⟨by decide, by decide⟩
  · exact (isRounded_false_iff (by decide)).mp ⟨by decide, by decide⟩

end Champy
