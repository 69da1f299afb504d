import Mathlib.Data.Nat.Bitwise
import Mathlib.Data.Nat.Size
import Mathlib.Tactic.Ring

/-!
# Numbers in words of 32 bits

Fixed-width arithmetic on lists of 32-bit words, the least significant first.  Each
operation is the loop that a C implementation runs: a carry going up, a remainder coming
down, a shift that puts each word together from two.  `Words.toNat` reads the number, and
one lemma for each operation says what it computes there.

The file names nothing of any particular program.
-/

namespace Champy

open List Nat

/-- The number that a list of words stands for. -/
def wordsToNat : List UInt32 → Nat
  | [] => 0
  | word :: words => word.toNat + 2 ^ 32 * wordsToNat words

variable (words : List UInt32)

theorem two_pow_words (length : Nat) : 2 ^ (32 * (length + 1)) = 2 ^ 32 * 2 ^ (32 * length) := by
  rw [← Nat.pow_add, mul_succ, add_comm]

theorem wordsToNat_lt : wordsToNat words < 2 ^ (32 * words.length) := by
  induction words with
  | nil => exact one_pos
  | cons word words ih =>
    have low := word.toNat_lt
    rw [wordsToNat, length_cons, two_pow_words]
    omega

theorem wordsToNat_div_mod (index : Nat) :
    wordsToNat words / 2 ^ (32 * index) % 2 ^ 32 = (words.getD index 0).toNat := by
  induction words generalizing index with
  | nil => simp [wordsToNat]
  | cons word words ih =>
    have low := word.toNat_lt
    cases index with
    | zero =>
      rw [wordsToNat, getD_cons_zero, Nat.mul_zero, Nat.pow_zero, Nat.div_one]
      omega
    | succ index =>
      have tail : (word.toNat + 2 ^ 32 * wordsToNat words) / 2 ^ 32 = wordsToNat words := by
        omega
      rw [wordsToNat, getD_cons_succ, two_pow_words, ← Nat.div_div_eq_div_mul, tail, ih]

theorem wordsToNat_testBit (index : Nat) :
    (wordsToNat words).testBit index = (words.getD (index / 32) 0).toNat.testBit (index % 32) := by
  have position : index = index % 32 + 32 * (index / 32) := (mod_add_div index 32).symm
  have inside : index % 32 < 32 := mod_lt _ (by decide)
  rw [← wordsToNat_div_mod, testBit_mod_two_pow, testBit_div_two_pow, ← position]
  simp [inside]

/-! ## Words of a fixed width -/

@[ext]
structure Words (width : Nat) where
  words : List UInt32
  length_words : words.length = width

namespace Words

variable {width : Nat} (first number : Words width) (words : List UInt32) (second : Words width)

def get (index : Nat) : UInt32 :=
  number.words.getD index 0

def toNat : Nat :=
  wordsToNat number.words

/-- The number whose words a function gives. -/
def ofFn (width : Nat) (word : Nat → UInt32) : Words width :=
  ⟨(range width).map word, by rw [length_map, length_range]⟩

theorem toNat_lt : number.toNat < 2 ^ (32 * width) := by
  have bound := wordsToNat_lt number.words
  rwa [number.length_words] at bound

theorem get_ofFn (word : Nat → UInt32) (index : Nat) :
    (ofFn width word).get index = if index < width then word index else 0 := by
  rw [get, ofFn, getD_eq_getElem?_getD, getElem?_map]
  split
  next inside => rw [getElem?_range inside]; rfl
  next outside => rw [getElem?_eq_none (by rw [length_range]; omega)]; rfl

theorem toNat_testBit (index : Nat) :
    number.toNat.testBit index = (number.get (index / 32)).toNat.testBit (index % 32) :=
  wordsToNat_testBit number.words index

theorem get_eq_div_mod (index : Nat) :
    (number.get index).toNat = number.toNat / 2 ^ (32 * index) % 2 ^ 32 :=
  (wordsToNat_div_mod number.words index).symm

theorem toNat_inj {first second : Words width} : first.toNat = second.toNat ↔ first = second := by
  constructor
  · intro eq
    ext1
    apply ext_getElem (first.length_words.trans second.length_words.symm)
    intro index inFirst inSecond
    have words : first.get index = second.get index := by
      apply UInt32.toNat_inj.mp
      rw [get_eq_div_mod, get_eq_div_mod, eq]
    rw [get, get, getD_eq_getElem?_getD, getD_eq_getElem?_getD,
      getElem?_eq_getElem inFirst, getElem?_eq_getElem inSecond] at words
    exact words
  · intro eq
    rw [eq]

/-! ## Loops that carry upwards -/

/-- Multiplication by a factor, with an accumulator of the given number of bits. -/
def mulLoop (accumulatorBits factor : Nat) : List UInt32 → Nat → List UInt32 × Nat
  | [], carry => ([], carry)
  | word :: words, carry =>
    let product := (word.toNat * factor + carry) % 2 ^ accumulatorBits
    let above := mulLoop accumulatorBits factor words (product / 2 ^ 32)
    (UInt32.ofNat product :: above.1, above.2)

theorem length_mulLoop (accumulatorBits factor : Nat) (words : List UInt32) (carry : Nat) :
    (mulLoop accumulatorBits factor words carry).1.length = words.length := by
  induction words generalizing carry with
  | nil => rfl
  | cons word words ih => rw [mulLoop, length_cons, length_cons, ih]

variable {accumulatorBits factor : Nat}

/-- The words and the carry that comes out hold the exact product, when the accumulator has
room for one product of a word and a carry. -/
theorem wordsToNat_mulLoop
    (room : 2 ^ 32 * factor < 2 ^ accumulatorBits) (words : List UInt32) {carry : Nat}
    (small : carry ≤ factor) :
    wordsToNat (mulLoop accumulatorBits factor words carry).1 +
        2 ^ (32 * words.length) * (mulLoop accumulatorBits factor words carry).2 =
      wordsToNat words * factor + carry := by
  induction words generalizing carry with
  | nil => simp [mulLoop, wordsToNat]
  | cons word words ih =>
    have low := word.toNat_lt
    have bound : word.toNat * factor + carry ≤ 2 ^ 32 * factor := by
      have scaled : (word.toNat + 1) * factor ≤ 2 ^ 32 * factor := Nat.mul_le_mul_right factor low
      rw [add_mul, Nat.one_mul] at scaled
      omega
    have exact : (word.toNat * factor + carry) % 2 ^ accumulatorBits =
        word.toNat * factor + carry := mod_eq_of_lt (by omega)
    have carryOut : (word.toNat * factor + carry) / 2 ^ 32 ≤ factor := Nat.div_le_of_le_mul bound
    have later := ih carryOut
    simp only [mulLoop, exact, wordsToNat, UInt32.toNat_ofNat', length_cons, two_pow_words]
    generalize mulLoop accumulatorBits factor words
      ((word.toNat * factor + carry) / 2 ^ 32) = above at later ⊢
    have split := mod_add_div (word.toNat * factor + carry) (2 ^ 32)
    have distributed : (word.toNat + 2 ^ 32 * wordsToNat words) * factor =
        word.toNat * factor + 2 ^ 32 * (wordsToNat words * factor) := by
      rw [add_mul, Nat.mul_assoc]
    rw [distributed, Nat.mul_assoc, add_assoc, ← mul_add, later]
    omega

/-- Addition, with the carry in the accumulator. -/
def addLoop : List UInt32 → List UInt32 → Nat → List UInt32
  | first :: firsts, second :: seconds, carry =>
    let sum := carry + first.toNat + second.toNat
    UInt32.ofNat sum :: addLoop firsts seconds (sum / 2 ^ 32)
  | _, _, _ => []

variable {firsts seconds : List UInt32}

theorem length_addLoop (same : firsts.length = seconds.length)
    (carry : Nat) : (addLoop firsts seconds carry).length = firsts.length := by
  induction firsts generalizing seconds carry with
  | nil => rfl
  | cons first firsts ih =>
    cases seconds with
    | nil => cases same
    | cons second seconds =>
      rw [addLoop, length_cons, length_cons, ih (succ.inj same)]

theorem wordsToNat_addLoop (same : firsts.length = seconds.length) (carry : Nat) :
    wordsToNat (addLoop firsts seconds carry) =
      (wordsToNat firsts + wordsToNat seconds + carry) % 2 ^ (32 * firsts.length) := by
  induction firsts generalizing seconds carry with
  | nil =>
    cases seconds with
    | nil => simp [addLoop, wordsToNat, mod_one]
    | cons second seconds => cases same
  | cons first firsts ih =>
    cases seconds with
    | nil => cases same
    | cons second seconds =>
      have split := mod_add_div (carry + first.toNat + second.toNat) (2 ^ 32)
      have total : first.toNat + 2 ^ 32 * wordsToNat firsts +
          (second.toNat + 2 ^ 32 * wordsToNat seconds) + carry =
            (carry + first.toNat + second.toNat) % 2 ^ 32 + 2 ^ 32 *
              (wordsToNat firsts + wordsToNat seconds +
                (carry + first.toNat + second.toNat) / 2 ^ 32) := by
        omega
      have low : (carry + first.toNat + second.toNat) % 2 ^ 32 < 2 ^ 32 := mod_lt _ (by decide)
      rw [addLoop, wordsToNat, wordsToNat, wordsToNat, ih (succ.inj same), length_cons,
        two_pow_words, total, UInt32.toNat_ofNat', mod_mul, add_mul_mod_self_left,
        add_mul_div_left _ _ (by decide), mod_eq_of_lt low, div_eq_of_lt low,
        zero_add]

/-- One is added, and the carry goes on while a word becomes zero. -/
def incrementLoop : List UInt32 → List UInt32
  | [] => []
  | word :: words => if word + 1 = 0 then 0 :: incrementLoop words else (word + 1) :: words

theorem length_incrementLoop : (incrementLoop words).length = words.length := by
  induction words with
  | nil => rfl
  | cons word words ih =>
    rw [incrementLoop]
    split
    · rw [length_cons, length_cons, ih]
    · rfl

theorem wordsToNat_incrementLoop :
    wordsToNat (incrementLoop words) = (wordsToNat words + 1) % 2 ^ (32 * words.length) := by
  induction words with
  | nil => simp [incrementLoop, wordsToNat]
  | cons word words ih =>
    have low := word.toNat_lt
    have next : (word + 1).toNat = (word.toNat + 1) % 2 ^ 32 := UInt32.toNat_add word 1
    rw [incrementLoop, length_cons, two_pow_words]
    by_cases wraps : word + 1 = 0
    · have full : word.toNat + 1 = 2 ^ 32 := by
        rw [wraps] at next
        have zero : (0 : UInt32).toNat = 0 := rfl
        omega
      have total : word.toNat + 2 ^ 32 * wordsToNat words + 1 =
          2 ^ 32 * (wordsToNat words + 1) := by
        omega
      rw [if_pos wraps, wordsToNat, wordsToNat, ih, total, mul_mod_mul_left]
      exact zero_add _
    · have small : word.toNat + 1 < 2 ^ 32 := by
        apply lt_of_le_of_ne low
        intro (full : word.toNat + 1 = 2 ^ 32)
        rw [full, mod_self] at next
        exact wraps (UInt32.toNat_inj.mp next)
      have bound := wordsToNat_lt words
      have total : word.toNat + 2 ^ 32 * wordsToNat words + 1 < 2 ^ 32 * 2 ^ (32 * words.length) := by
        omega
      rw [if_neg wraps, wordsToNat, wordsToNat, next, mod_eq_of_lt small, mod_eq_of_lt total]
      omega

theorem wordsToNat_complement : wordsToNat (words.map fun word => ~~~word) + wordsToNat words + 1 =
      2 ^ (32 * words.length) := by
  induction words with
  | nil => rfl
  | cons word words ih =>
    have low := word.toNat_lt
    have flipped : (~~~word).toNat = 2 ^ 32 - 1 - word.toNat := UInt32.toNat_not word
    rw [map_cons, wordsToNat, wordsToNat, flipped, length_cons, two_pow_words]
    omega

/-! ## Loops from the most significant word down -/

/-- Division by a divisor that fits the accumulator beside a word, with the remainder. -/
def divLoop (divisor : Nat) : List UInt32 → List UInt32 × Nat
  | [] => ([], 0)
  | word :: words =>
    let above := divLoop divisor words
    let current := above.2 * 2 ^ 32 + word.toNat
    (UInt32.ofNat (current / divisor) :: above.1, current % divisor)

theorem length_divLoop (divisor : Nat) (words : List UInt32) :
    (divLoop divisor words).1.length = words.length := by
  induction words with
  | nil => rfl
  | cons word words ih => rw [divLoop, length_cons, length_cons, ih]

variable {word : UInt32} {divisor bit shift : Nat}

theorem divLoop_spec (pos : 0 < divisor) (words : List UInt32) :
    wordsToNat words = divisor * wordsToNat (divLoop divisor words).1 + (divLoop divisor words).2 ∧
      (divLoop divisor words).2 < divisor := by
  induction words with
  | nil => exact ⟨rfl, pos⟩
  | cons word words ih =>
    obtain ⟨quot, remainder⟩ := ih
    have low := word.toNat_lt
    simp only [divLoop, wordsToNat]
    generalize divLoop divisor words = above at quot remainder ⊢
    have digit : (above.2 * 2 ^ 32 + word.toNat) / divisor < 2 ^ 32 := by
      apply Nat.div_lt_of_lt_mul
      have scaled : (above.2 + 1) * 2 ^ 32 ≤ divisor * 2 ^ 32 := Nat.mul_le_mul_right _ remainder
      omega
    have split := div_add_mod (above.2 * 2 ^ 32 + word.toNat) divisor
    refine ⟨?_, mod_lt _ pos⟩
    rw [UInt32.toNat_ofNat', mod_eq_of_lt digit, quot, mul_add, mul_add,
      ← Nat.mul_assoc divisor, Nat.mul_comm divisor (2 ^ 32), Nat.mul_assoc (2 ^ 32)]
    omega

theorem wordsToNat_divLoop (pos : 0 < divisor) (words : List UInt32) :
    wordsToNat (divLoop divisor words).1 = wordsToNat words / divisor := by
  obtain ⟨quot, remainder⟩ := divLoop_spec pos words
  rw [quot, mul_add_div pos, div_eq_of_lt remainder, add_zero]

/-- Comparison, where the most significant difference decides. -/
def compareLoop : List UInt32 → List UInt32 → Ordering
  | first :: firsts, second :: seconds =>
    match compareLoop firsts seconds with
    | .eq => compare first.toNat second.toNat
    | order => order
  | _, _ => .eq

theorem compareLoop_eq (same : firsts.length = seconds.length) :
    compareLoop firsts seconds = compare (wordsToNat firsts) (wordsToNat seconds) := by
  induction firsts generalizing seconds with
  | nil =>
    cases seconds with
    | nil => rfl
    | cons second seconds => cases same
  | cons first firsts ih =>
    cases seconds with
    | nil => cases same
    | cons second seconds =>
      have firstLow := first.toNat_lt
      have secondLow := second.toNat_lt
      rw [compareLoop, ih (succ.inj same), wordsToNat, wordsToNat]
      rcases Nat.lt_trichotomy (wordsToNat firsts) (wordsToNat seconds) with less | eq | more
      · have whole : first.toNat + 2 ^ 32 * wordsToNat firsts <
            second.toNat + 2 ^ 32 * wordsToNat seconds := by omega
        rw [Nat.compare_eq_lt.mpr less, Nat.compare_eq_lt.mpr whole]
      · rw [eq, Nat.compare_eq_eq.mpr rfl]
        rcases Nat.lt_trichotomy first.toNat second.toNat with less | eq | more
        · rw [Nat.compare_eq_lt.mpr less, Nat.compare_eq_lt.mpr (by omega)]
        · rw [eq, Nat.compare_eq_eq.mpr rfl, Nat.compare_eq_eq.mpr rfl]
        · rw [Nat.compare_eq_gt.mpr more, Nat.compare_eq_gt.mpr (by omega)]
      · have whole : second.toNat + 2 ^ 32 * wordsToNat seconds <
            first.toNat + 2 ^ 32 * wordsToNat firsts := by omega
        rw [Nat.compare_eq_gt.mpr more, Nat.compare_eq_gt.mpr whole]

/-! ## Shifts -/

theorem shiftAmount (inside : shift < 32) : (UInt32.ofNat shift).toNat % 32 = shift := by
  rw [UInt32.toNat_ofNat_of_lt' (by rw [UInt32.size]; omega), mod_eq_of_lt inside]

theorem testBit_wordShiftLeft (inside : shift < 32) (bit : Nat) (bitInside : bit < 32) :
    (word <<< UInt32.ofNat shift).toNat.testBit bit =
      (decide (shift ≤ bit) && word.toNat.testBit (bit - shift)) := by
  rw [UInt32.toNat_shiftLeft, shiftAmount inside, testBit_mod_two_pow, testBit_shiftLeft]
  simp [bitInside]

theorem testBit_wordShiftRight (inside : shift < 32) (bit : Nat) :
    (word >>> UInt32.ofNat shift).toNat.testBit bit = word.toNat.testBit (bit + shift) := by
  rw [UInt32.toNat_shiftRight, shiftAmount inside, testBit_shiftRight, add_comm]

theorem testBit_word_of_le (word : UInt32) (outside : 32 ≤ bit) :
    word.toNat.testBit bit = false := by
  apply testBit_lt_two_pow
  have low := word.toNat_lt
  have power : 2 ^ 32 ≤ 2 ^ bit := Nat.pow_le_pow_right (by decide) outside
  omega

/-- Each word of the result is put together from two words of the number. -/
def shiftLeft (shift : Nat) : Words width :=
  ofFn width fun index =>
    (if shift / 32 + 1 ≤ index ∧ shift % 32 ≠ 0 then
        number.get (index - shift / 32 - 1) >>> UInt32.ofNat (32 - shift % 32) else 0) |||
      (if shift / 32 ≤ index then number.get (index - shift / 32) <<< UInt32.ofNat (shift % 32)
        else 0)

def shiftRight (shift : Nat) : Words width :=
  ofFn width fun index =>
    (if index + shift / 32 + 1 < width ∧ shift % 32 ≠ 0 then
        number.get (index + shift / 32 + 1) <<< UInt32.ofNat (32 - shift % 32) else 0) |||
      (if index + shift / 32 < width then
        number.get (index + shift / 32) >>> UInt32.ofNat (shift % 32) else 0)

theorem testBit_shiftLeft_near (shift bit : Nat) : (if shift / 32 ≤ bit / 32 then
        number.get (bit / 32 - shift / 32) <<< UInt32.ofNat (shift % 32) else 0).toNat.testBit
          (bit % 32) =
      (decide (shift ≤ bit ∧ shift % 32 ≤ bit % 32) && number.toNat.testBit (bit - shift)) := by
  have bitInside : bit % 32 < 32 := mod_lt _ (by decide)
  by_cases reaches : shift / 32 ≤ bit / 32
  · rw [if_pos reaches, testBit_wordShiftLeft (mod_lt _ (by decide)) _ bitInside]
    by_cases same : shift % 32 ≤ bit % 32
    · have distance : shift ≤ bit := by omega
      have word : (bit - shift) / 32 = bit / 32 - shift / 32 := by omega
      have place : (bit - shift) % 32 = bit % 32 - shift % 32 := by omega
      rw [toNat_testBit, word, place]
      simp [same, distance]
    · simp [same]
  · have distance : ¬ shift ≤ bit := by omega
    rw [if_neg reaches]
    simp [distance]

theorem testBit_shiftLeft_far (shift bit : Nat) :
    (if shift / 32 + 1 ≤ bit / 32 ∧ shift % 32 ≠ 0 then
        number.get (bit / 32 - shift / 32 - 1) >>> UInt32.ofNat (32 - shift % 32)
          else 0).toNat.testBit (bit % 32) =
      (decide (shift ≤ bit ∧ bit % 32 < shift % 32) && number.toNat.testBit (bit - shift)) := by
  by_cases reaches : shift / 32 + 1 ≤ bit / 32 ∧ shift % 32 ≠ 0
  · rw [if_pos reaches, testBit_wordShiftRight (by omega)]
    by_cases same : bit % 32 < shift % 32
    · have distance : shift ≤ bit := by omega
      have word : (bit - shift) / 32 = bit / 32 - shift / 32 - 1 := by omega
      have place : (bit - shift) % 32 = bit % 32 + (32 - shift % 32) := by omega
      rw [toNat_testBit, word, place]
      simp [same, distance]
    · rw [testBit_word_of_le _ (by omega)]
      simp [same]
  · have distance : ¬ (shift ≤ bit ∧ bit % 32 < shift % 32) := by omega
    rw [if_neg reaches]
    simp [distance]

theorem toNat_shiftLeft (shift : Nat) :
    (number.shiftLeft shift).toNat = number.toNat * 2 ^ shift % 2 ^ (32 * width) := by
  apply eq_of_testBit_eq
  intro bit
  rw [toNat_testBit, shiftLeft, get_ofFn, testBit_mod_two_pow, testBit_mul_two_pow]
  by_cases inWidth : bit / 32 < width
  · have below : bit < 32 * width := by omega
    rw [if_pos inWidth, UInt32.toNat_or, testBit_or, testBit_shiftLeft_near, testBit_shiftLeft_far]
    by_cases order : bit % 32 < shift % 32
    · have above : ¬ shift % 32 ≤ bit % 32 := by omega
      simp [below, order, above]
    · have above : shift % 32 ≤ bit % 32 := by omega
      simp [below, order, above]
  · have above : ¬ bit < 32 * width := by omega
    rw [if_neg inWidth]
    simp [above]

theorem testBit_of_width_le (outside : 32 * width ≤ bit) : number.toNat.testBit bit = false :=
  testBit_lt_two_pow (Nat.lt_of_lt_of_le number.toNat_lt (Nat.pow_le_pow_right (by decide) outside))

theorem testBit_shiftRight_near (shift bit : Nat) : (if bit / 32 + shift / 32 < width then
        number.get (bit / 32 + shift / 32) >>> UInt32.ofNat (shift % 32) else 0).toNat.testBit
          (bit % 32) =
      (decide (bit % 32 + shift % 32 < 32) && number.toNat.testBit (bit + shift)) := by
  by_cases reaches : bit / 32 + shift / 32 < width
  · rw [if_pos reaches, testBit_wordShiftRight (mod_lt _ (by decide))]
    by_cases same : bit % 32 + shift % 32 < 32
    · have word : (bit + shift) / 32 = bit / 32 + shift / 32 := by omega
      have place : (bit + shift) % 32 = bit % 32 + shift % 32 := by omega
      rw [toNat_testBit, word, place]
      simp [same]
    · rw [testBit_word_of_le _ (by omega)]
      simp [same]
  · rw [if_neg reaches, testBit_of_width_le number (by omega)]
    simp

theorem testBit_shiftRight_far (shift bit : Nat) :
    (if bit / 32 + shift / 32 + 1 < width ∧ shift % 32 ≠ 0 then
        number.get (bit / 32 + shift / 32 + 1) <<< UInt32.ofNat (32 - shift % 32)
          else 0).toNat.testBit (bit % 32) =
      (decide (32 ≤ bit % 32 + shift % 32) && number.toNat.testBit (bit + shift)) := by
  have bitInside : bit % 32 < 32 := mod_lt _ (by decide)
  by_cases reaches : bit / 32 + shift / 32 + 1 < width ∧ shift % 32 ≠ 0
  · rw [if_pos reaches, testBit_wordShiftLeft (by omega) _ bitInside]
    by_cases same : 32 ≤ bit % 32 + shift % 32
    · have word : (bit + shift) / 32 = bit / 32 + shift / 32 + 1 := by omega
      have place : (bit + shift) % 32 = bit % 32 - (32 - shift % 32) := by omega
      have inWord : 32 - shift % 32 ≤ bit % 32 := by omega
      rw [toNat_testBit, word, place]
      simp [same, inWord]
    · have inWord : ¬ 32 - shift % 32 ≤ bit % 32 := by omega
      simp [same, inWord]
  · rw [if_neg reaches]
    by_cases same : 32 ≤ bit % 32 + shift % 32
    · rw [testBit_of_width_le number (by omega)]
      simp
    · simp [same]

theorem toNat_shiftRight (shift : Nat) :
    (number.shiftRight shift).toNat = number.toNat / 2 ^ shift := by
  apply eq_of_testBit_eq
  intro bit
  rw [toNat_testBit, shiftRight, get_ofFn, testBit_div_two_pow]
  by_cases inWidth : bit / 32 < width
  · rw [if_pos inWidth, UInt32.toNat_or, testBit_or, testBit_shiftRight_near,
      testBit_shiftRight_far]
    by_cases order : bit % 32 + shift % 32 < 32
    · have above : ¬ 32 ≤ bit % 32 + shift % 32 := by omega
      simp [order, above]
    · have above : 32 ≤ bit % 32 + shift % 32 := by omega
      simp [order, above]
  · rw [if_neg inWidth, testBit_of_width_le number (by omega)]
    simp

/-! ## Counting and setting bits -/

theorem word_and_bit_ne_zero (inside : bit < 32) :
    word &&& (1 <<< UInt32.ofNat bit) ≠ 0 ↔ word.toNat.testBit bit = true := by
  have power : (1 <<< UInt32.ofNat bit : UInt32).toNat = 2 ^ bit := by
    have bound : 2 ^ bit < 2 ^ 32 := Nat.pow_lt_pow_right (by decide) inside
    have one : (1 : UInt32).toNat = 1 := rfl
    rw [UInt32.toNat_shiftLeft, shiftAmount inside, one, shiftLeft_eq, Nat.one_mul,
      mod_eq_of_lt bound]
  have zero : word &&& (1 <<< UInt32.ofNat bit) = 0 ↔
      (word &&& (1 <<< UInt32.ofNat bit)).toNat = 0 := UInt32.toNat_inj.symm
  rw [ne_eq, zero, UInt32.toNat_and, power, and_two_pow]
  cases word.toNat.testBit bit <;> simp

/-- The position of the highest bit of a word that is not zero, plus one, looking from the
given position down. -/
def highestBit (word : UInt32) : Nat → Nat
  | 0 => 1
  | position + 1 =>
    if word &&& (1 <<< UInt32.ofNat (position + 1)) ≠ 0 then position + 2
    else highestBit word position

theorem highestBit_eq (nonzero : word ≠ 0) {position : Nat} (inside : position < 32)
    (bound : word.toNat < 2 ^ (position + 1)) :
    highestBit word position = size word.toNat := by
  have pos : 0 < word.toNat := by
    apply pos_of_ne_zero
    intro zero
    exact nonzero (UInt32.toNat_inj.mp zero)
  induction position with
  | zero =>
    have one : word.toNat = 1 := by omega
    rw [highestBit, one, size_one]
  | succ position ih =>
    rw [highestBit]
    by_cases set : word &&& (1 <<< UInt32.ofNat (position + 1)) ≠ 0
    · have large : 2 ^ (position + 1) ≤ word.toNat :=
        ge_two_pow_of_testBit ((word_and_bit_ne_zero inside).mp set)
      have lower := lt_size.mpr large
      have upper := size_le.mpr bound
      rw [if_pos set]
      omega
    · have clear : word.toNat.testBit (position + 1) = false := by
        rw [word_and_bit_ne_zero inside, Bool.not_eq_true] at set
        exact set
      have small : word.toNat < 2 ^ (position + 1) := by
        apply lt_pow_two_of_testBit
        intro bit above
        rcases eq_or_lt_of_le above with same | further
        · rw [← same, clear]
        · exact testBit_lt_two_pow
            (Nat.lt_of_lt_of_le bound (Nat.pow_le_pow_right (by decide) further))
      rw [if_neg set]
      exact ih (by omega) small

/-- The number of bits, counted from the highest word that is not zero. -/
def bitsLoop : List UInt32 → Nat
  | [] => 0
  | word :: words =>
    if bitsLoop words ≠ 0 then 32 + bitsLoop words
    else if word ≠ 0 then highestBit word 31 else 0

theorem bitsLoop_eq : bitsLoop words = size (wordsToNat words) := by
  induction words with
  | nil => rfl
  | cons word words ih =>
    have low := word.toNat_lt
    rw [bitsLoop, wordsToNat, ih]
    by_cases above : size (wordsToNat words) ≠ 0
    · obtain ⟨count, counted⟩ := exists_eq_succ_of_ne_zero above
      have large : 2 ^ count ≤ wordsToNat words := lt_size.mp (by omega)
      have small : wordsToNat words < 2 ^ (count + 1) := size_le.mp (by omega)
      have lower : 32 + count < size (word.toNat + 2 ^ 32 * wordsToNat words) := by
        rw [lt_size, Nat.pow_add]
        omega
      have upper : size (word.toNat + 2 ^ 32 * wordsToNat words) ≤ 32 + (count + 1) := by
        rw [size_le, Nat.pow_add]
        omega
      rw [if_pos above]
      omega
    · have zero : wordsToNat words = 0 := size_eq_zero.mp (by omega)
      rw [if_neg above, zero, Nat.mul_zero, add_zero]
      by_cases nonzero : word ≠ 0
      · rw [if_pos nonzero, highestBit_eq nonzero (by decide) low]
      · have none : word.toNat = 0 := by
          rw [not_not.mp nonzero]
          rfl
        rw [if_neg nonzero, none, size_zero]

def bits : Nat :=
  bitsLoop number.words

theorem bits_eq : number.bits = size number.toNat := bitsLoop_eq number.words

def setBit (bit : Nat) : Words width :=
  ofFn width fun index =>
    if index = bit / 32 then number.get index ||| 1 <<< UInt32.ofNat (bit % 32)
    else number.get index

theorem toNat_setBit (inside : bit < 32 * width) :
    (number.setBit bit).toNat = number.toNat ||| 2 ^ bit := by
  apply eq_of_testBit_eq
  intro place
  have inWord : bit % 32 < 32 := mod_lt _ (by decide)
  rw [toNat_testBit, setBit, get_ofFn, testBit_or, testBit_two_pow, toNat_testBit]
  by_cases inWidth : place / 32 < width
  · rw [if_pos inWidth]
    by_cases word : place / 32 = bit / 32
    · have one : (1 : UInt32).toNat.testBit (place % 32 - bit % 32) =
          decide (0 = place % 32 - bit % 32) := @testBit_two_pow 0 _
      have same : (bit % 32 ≤ place % 32 ∧ 0 = place % 32 - bit % 32) ↔ bit = place := by omega
      rw [if_pos word, UInt32.toNat_or, testBit_or,
        testBit_wordShiftLeft inWord _ (mod_lt _ (by decide)), one, ← Bool.decide_and,
        decide_eq_decide.mpr same]
    · have ne : bit ≠ place := by omega
      rw [if_neg word]
      simp [ne]
  · have ne : bit ≠ place := by omega
    have outside := number.testBit_of_width_le (show 32 * width ≤ place by omega)
    rw [toNat_testBit] at outside
    rw [if_neg inWidth, outside]
    simp [ne]

/-! ## Arithmetic -/

def add : Words width :=
  ⟨addLoop first.words second.words 0, by
    rw [length_addLoop (first.length_words.trans second.length_words.symm), first.length_words]⟩

theorem toNat_add : (first.add second).toNat = (first.toNat + second.toNat) % 2 ^ (32 * width) := by
  rw [add, toNat, wordsToNat_addLoop (first.length_words.trans second.length_words.symm),
    add_zero, first.length_words]
  rfl

/-- `operator~`. -/
def complement : Words width :=
  ⟨number.words.map fun word => ~~~word, by rw [length_map, number.length_words]⟩

def neg : Words width :=
  ⟨incrementLoop (number.words.map fun word => ~~~word), by
    rw [length_incrementLoop, length_map, number.length_words]⟩

def sub : Words width :=
  first.add second.neg

theorem toNat_complement : number.complement.toNat + number.toNat + 1 = 2 ^ (32 * width) := by
  have total := wordsToNat_complement number.words
  rwa [number.length_words] at total

theorem toNat_neg : number.neg.toNat = (2 ^ (32 * width) - number.toNat) % 2 ^ (32 * width) := by
  have complement := wordsToNat_complement number.words
  have length : (number.words.map fun word => ~~~word).length = width := by
    rw [length_map, number.length_words]
  have flipped : wordsToNat (number.words.map fun word => ~~~word) + 1 =
      2 ^ (32 * width) - number.toNat := by
    rw [number.length_words] at complement
    rw [toNat]
    omega
  rw [toNat, neg, wordsToNat_incrementLoop, length, flipped]

theorem toNat_sub_mod : (first.sub second).toNat =
      (first.toNat + (2 ^ (32 * width) - second.toNat)) % 2 ^ (32 * width) := by
  rw [sub, toNat_add, toNat_neg, add_mod_mod]

theorem toNat_sub {first second : Words width} (ordered : second.toNat ≤ first.toNat) :
    (first.sub second).toNat = first.toNat - second.toNat := by
  have bound := first.toNat_lt
  have total : first.toNat + (2 ^ (32 * width) - second.toNat) =
      first.toNat - second.toNat + 2 ^ (32 * width) := by
    have small := second.toNat_lt
    omega
  rw [toNat_sub_mod, total, add_mod_right, mod_eq_of_lt (by omega)]

/-- Multiplication by a factor: the low words, and what carries out of the highest. -/
def mulWord (accumulatorBits factor : Nat) (number : Words width) : Words width × Nat :=
  (⟨(mulLoop accumulatorBits factor number.words 0).1, by
      rw [length_mulLoop, number.length_words]⟩,
    (mulLoop accumulatorBits factor number.words 0).2)

theorem mulWord_spec (room : 2 ^ 32 * factor < 2 ^ accumulatorBits) {number : Words width}
    (fits : number.toNat * factor < 2 ^ (32 * width)) :
    (number.mulWord accumulatorBits factor).1.toNat = number.toNat * factor ∧
      (number.mulWord accumulatorBits factor).2 = 0 := by
  have product := wordsToNat_mulLoop room number.words (zero_le factor)
  rw [number.length_words, add_zero] at product
  change (number.mulWord accumulatorBits factor).1.toNat +
    2 ^ (32 * width) * (number.mulWord accumulatorBits factor).2 = number.toNat * factor at product
  generalize number.mulWord accumulatorBits factor = res at product ⊢
  have carry : res.2 = 0 := by
    rcases Nat.eq_zero_or_pos res.2 with zero | pos
    · exact zero
    · have large : 2 ^ (32 * width) * 1 ≤ 2 ^ (32 * width) * res.2 := mul_le_mul_left _ pos
      omega
  rw [carry, Nat.mul_zero, add_zero] at product
  exact ⟨product, carry⟩

def divWord (divisor : Nat) (number : Words width) : Words width :=
  ⟨(divLoop divisor number.words).1, by rw [length_divLoop, number.length_words]⟩

theorem toNat_divWord (pos : 0 < divisor) (number : Words width) :
    (number.divWord divisor).toNat = number.toNat / divisor :=
  wordsToNat_divLoop pos number.words

def compare : Ordering :=
  compareLoop first.words second.words

theorem compare_eq : first.compare second = Ord.compare first.toNat second.toNat :=
  compareLoop_eq (first.length_words.trans second.length_words.symm)

/-! ## Long division -/

/-- The loop of a division of bits: the divisor, shifted so that it lines up with the number,
is taken away where it fits and then moves down by one bit. -/
def longDivision : Nat → Words width → Words width → Words width → Words width
  | 0, number, divisor, quotient =>
    if number.compare divisor ≠ .lt then quotient.setBit 0 else quotient
  | shift + 1, number, divisor, quotient =>
    if number.compare divisor ≠ .lt then
      longDivision shift (number.sub divisor) (divisor.shiftRight 1) (quotient.setBit (shift + 1))
    else longDivision shift number (divisor.shiftRight 1) quotient

theorem compare_ne_lt : first.compare second ≠ .lt ↔ second.toNat ≤ first.toNat := by
  rw [compare_eq, ne_eq, Nat.compare_eq_lt, Nat.not_lt]

/-- A bit below a multiple of a higher power of two is added. -/
theorem mul_two_pow_or (factor bit : Nat) :
    factor * 2 ^ (bit + 1) ||| 2 ^ bit = (2 * factor + 1) * 2 ^ bit := by
  have below : 2 ^ bit < 2 ^ (bit + 1) := Nat.pow_lt_pow_right (by decide) (lt_succ_self bit)
  rw [Nat.mul_comm, ← two_pow_add_eq_or_of_lt below, Nat.pow_succ]
  ring

/-- The invariant: the divisor stands shifted by as many bits as there are rounds to come, the
rest of the number is less than twice that, and the quotient has no bit yet where those
rounds may set one. -/
theorem toNat_longDivision {base : Nat} (pos : 0 < base) (done : Nat)
    {number divisor quot : Words width} (inside : shift < 32 * width)
    (aligned : divisor.toNat = base * 2 ^ shift) (rest : number.toNat < base * 2 ^ (shift + 1))
    (found : quot.toNat = done * 2 ^ (shift + 1)) :
    (longDivision shift number divisor quot).toNat =
      done * 2 ^ (shift + 1) + number.toNat / base := by
  induction shift generalizing done number divisor quot with
  | zero =>
    rw [Nat.pow_zero, mul_one] at aligned
    rw [longDivision]
    by_cases fits : number.compare divisor ≠ .lt
    · have large : base ≤ number.toNat := aligned ▸ (compare_ne_lt number divisor).mp fits
      have one : number.toNat / base = 1 := by
        apply Nat.div_eq_of_lt_le
        · rwa [Nat.one_mul]
        · rw [Nat.mul_comm]
          exact rest
      rw [if_pos fits, toNat_setBit quot inside, found, mul_two_pow_or, one]
      ring
    · have small : number.toNat < base := by
        rw [compare_ne_lt, aligned] at fits
        omega
      rw [if_neg fits, found, div_eq_of_lt small]
      rfl
  | succ shift ih =>
    have halved : (divisor.shiftRight 1).toNat = base * 2 ^ shift := by
      rw [toNat_shiftRight, aligned, Nat.pow_succ, ← Nat.mul_assoc, Nat.pow_one,
        Nat.mul_div_cancel _ (by decide)]
    rw [longDivision]
    by_cases fits : number.compare divisor ≠ .lt
    · have large := (compare_ne_lt number divisor).mp fits
      have taken : (number.sub divisor).toNat = number.toNat - base * 2 ^ (shift + 1) := by
        rw [toNat_sub large, aligned]
      have left : (number.sub divisor).toNat < base * 2 ^ (shift + 1) := by
        have doubled : base * 2 ^ (shift + 1 + 1) = base * 2 ^ (shift + 1) * 2 := by
          rw [Nat.pow_succ 2 (shift + 1), Nat.mul_assoc]
        omega
      have set : (quot.setBit (shift + 1)).toNat = (2 * done + 1) * 2 ^ (shift + 1) := by
        rw [toNat_setBit quot inside, found, mul_two_pow_or]
      have split : number.toNat / base =
          (number.toNat - base * 2 ^ (shift + 1)) / base + 2 ^ (shift + 1) := by
        rw [aligned] at large
        rw [← add_mul_div_left _ _ pos, Nat.sub_add_cancel large]
      rw [if_pos fits, ih (2 * done + 1) (by omega) halved left set, taken, split]
      ring
    · have small : number.toNat < base * 2 ^ (shift + 1) := by
        rw [compare_ne_lt, aligned] at fits
        omega
      have shifted : quot.toNat = 2 * done * 2 ^ (shift + 1) := by
        rw [found]
        ring
      rw [if_neg fits, ih (2 * done) (by omega) halved small shifted]
      ring

/-- The quotient, when the divisor is not zero. -/
def divide (divisor : Words width) : Option (Words width) :=
  if divisor.bits = 0 then none
  else if number.bits < divisor.bits then some (ofFn width fun _ => 0)
  else
    let shift := number.bits - divisor.bits
    some (longDivision shift number (divisor.shiftLeft shift) (ofFn width fun _ => 0))

theorem toNat_zero : (ofFn width fun _ => 0).toNat = 0 := by
  apply eq_of_testBit_eq
  intro bit
  rw [toNat_testBit, get_ofFn, ite_self, zero_testBit]
  exact zero_testBit _

theorem divide_spec {divisor : Words width} (pos : 0 < divisor.toNat) :
    ∃ quot, number.divide divisor = some quot ∧ quot.toNat = number.toNat / divisor.toNat := by
  have divisorBits : divisor.bits ≠ 0 := by
    rw [bits_eq, ne_eq, size_eq_zero]
    omega
  rw [divide, if_neg divisorBits]
  by_cases short : number.bits < divisor.bits
  · rw [if_pos short]
    refine ⟨_, rfl, ?_⟩
    have small : number.toNat < divisor.toNat := by
      rw [bits_eq, bits_eq, lt_size] at short
      exact Nat.lt_of_lt_of_le (lt_size_self _) short
    rw [toNat_zero, div_eq_of_lt small]
  · rw [if_neg short]
    refine ⟨_, rfl, ?_⟩
    have numberBound : number.toNat < 2 ^ number.bits := by
      rw [bits_eq]
      exact lt_size_self _
    have divisorBound : divisor.toNat < 2 ^ divisor.bits := by
      rw [bits_eq]
      exact lt_size_self _
    have divisorLarge : 2 ^ divisor.bits ≤ divisor.toNat * 2 := by
      have top : 2 ^ (divisor.bits - 1) ≤ divisor.toNat := by
        rw [← lt_size, ← bits_eq]
        omega
      have doubled : 2 ^ divisor.bits = 2 ^ (divisor.bits - 1) * 2 := by
        rw [← Nat.pow_succ, succ_eq_add_one, Nat.sub_add_cancel (by omega)]
      omega
    have width_bound : number.bits ≤ 32 * width := by
      rw [bits_eq]
      exact size_le.mpr number.toNat_lt
    have together : divisor.bits + (number.bits - divisor.bits) = number.bits := by omega
    generalize number.bits - divisor.bits = shift at together ⊢
    have aligned : (divisor.shiftLeft shift).toNat = divisor.toNat * 2 ^ shift := by
      rw [toNat_shiftLeft]
      apply mod_eq_of_lt
      calc divisor.toNat * 2 ^ shift < 2 ^ divisor.bits * 2 ^ shift :=
            Nat.mul_lt_mul_of_pos_right divisorBound (Nat.two_pow_pos shift)
        _ = 2 ^ number.bits := by rw [← Nat.pow_add, together]
        _ ≤ 2 ^ (32 * width) := Nat.pow_le_pow_right (by decide) width_bound
    have rest : number.toNat < divisor.toNat * 2 ^ (shift + 1) := by
      calc number.toNat < 2 ^ number.bits := numberBound
        _ = 2 ^ divisor.bits * 2 ^ shift := by rw [← Nat.pow_add, together]
        _ ≤ divisor.toNat * 2 * 2 ^ shift := Nat.mul_le_mul_right _ divisorLarge
        _ = divisor.toNat * 2 ^ (shift + 1) := by ring
    have nothing : (ofFn width fun _ => 0).toNat = 0 * 2 ^ (shift + 1) := by
      rw [toNat_zero, zero_mul]
    rw [toNat_longDivision pos 0 (by omega) aligned rest nothing, zero_mul, zero_add]

end Words

end Champy
