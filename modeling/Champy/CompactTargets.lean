import Champy.ProofOfWork
import Champy.ValidationHeaders

/-!
# The two compact forms agree

`pow_number` and `arith_uint256` are both eight words.  They read the same number from a limit
and from a compact form, and they write the same compact form: the leading three bytes of the
number, counted by bytes on one side and by bits on the other.
-/

namespace Champy

open List UInt32 Words ArithUint256

/-! ## Bytes put into a word -/

theorem or_shiftLeft_eq_add {low high width : Nat} (bound : low < 2 ^ width) :
    low ||| high <<< width = low + high * 2 ^ width := by
  rw [Nat.shiftLeft_eq, Nat.or_comm, Nat.mul_comm, ← Nat.two_pow_add_eq_or_of_lt bound,
    Nat.add_comm]

theorem toNat_foldl_bytes (num offset : Nat) {byte : Nat → UInt8} {count : Nat}
    (bytes : ∀ index < count, (byte index).toNat = num / 256 ^ (offset + index) % 256)
    (fits : count ≤ 4) :
    ((range count).foldl (fun word index =>
        word ||| (byte index).toUInt32 <<< UInt32.ofNat (8 * index)) 0).toNat =
      num / 256 ^ offset % 256 ^ count := by
  induction count with
  | zero => simp [Nat.mod_one]
  | succ count ih =>
    have below := ih (fun index inside => bytes index (by omega)) (by omega)
    have power : (256 : Nat) ^ count = 2 ^ (8 * count) := by rw [Nat.pow_mul]
    have top : (byte count).toNat <<< (8 * count) < 2 ^ 32 := by
      have small := (byte count).toNat_lt
      have room : 2 ^ 8 * 2 ^ (8 * count) ≤ 2 ^ 32 := by
        rw [← Nat.pow_add]
        exact Nat.pow_le_pow_right (by decide) (by omega)
      rw [Nat.shiftLeft_eq]
      exact Nat.lt_of_lt_of_le (Nat.mul_lt_mul_of_pos_right small (Nat.two_pow_pos _)) room
    have bound : num / 256 ^ offset % 256 ^ count < 2 ^ (8 * count) := by
      rw [← power]
      exact Nat.mod_lt _ (Nat.pow_pos (by decide))
    rw [range_succ, foldl_append, foldl_cons, foldl_nil, UInt32.toNat_or,
      below, UInt32.toNat_shiftLeft, shiftAmount (by omega), UInt8.toNat_toUInt32,
      Nat.mod_eq_of_lt top, or_shiftLeft_eq_add bound, bytes count (by omega), Nat.mod_pow_succ,
      Nat.pow_add, Nat.div_div_eq_div_mul, power, Nat.mul_comm (2 ^ (8 * count))]

theorem getD_writeLE {width index : Nat} (inside : index < width) (value : Nat) :
    ((writeLE width value).getD index 0).toNat = value / 256 ^ index % 256 := by
  induction width generalizing index value with
  | zero => omega
  | succ width ih =>
    rw [writeLE]
    cases index with
    | zero => rw [getD_cons_zero, UInt8.toNat_ofNat', Nat.pow_zero, Nat.div_one]
    | succ index =>
      rw [getD_cons_succ, ih (by omega), Nat.div_div_eq_div_mul, Nat.pow_succ, Nat.mul_comm]

theorem drop_writeLE (width value count : Nat) :
    (writeLE width value).drop count = writeLE (width - count) (value / 256 ^ count) := by
  induction count generalizing width value with
  | zero => simp
  | succ count ih =>
    cases width with
    | zero => simp [writeLE]
    | succ width =>
      rw [writeLE, drop_succ_cons, ih, Nat.div_div_eq_div_mul, Nat.pow_succ, Nat.mul_comm,
        Nat.add_sub_add_right]

theorem take_writeLE {width count : Nat} (inside : count ≤ width) (value : Nat) :
    (writeLE width value).take count = writeLE count value := by
  induction count generalizing width value with
  | zero => simp [writeLE]
  | succ count ih =>
    cases width with
    | zero => omega
    | succ width => rw [writeLE, take_succ_cons, ih (by omega), writeLE]

theorem readLE_writeLE_eq_mod (width value : Nat) :
    readLE (writeLE width value) = value % 256 ^ width := by
  induction width generalizing value with
  | zero => simp [writeLE, Nat.mod_one]
  | succ width ih =>
    have power : (256 : Nat) ^ (width + 1) = 256 * 256 ^ width := Nat.pow_succ'
    rw [writeLE, readLE_cons, ih, UInt8.toNat_ofNat', power, Nat.mod_mul]

/-! ## Limits -/

open ArithUint256 Validation

theorem toNat_ofFn_digits {width num : Nat} {word : Nat → UInt32}
    (digits : ∀ index < width, (word index).toNat = num / 2 ^ (32 * index) % 2 ^ 32)
    (bound : num < 2 ^ (32 * width)) : (Words.ofFn width word).toNat = num := by
  apply Nat.eq_of_testBit_eq
  intro bit
  have inside : bit % 32 < 32 := Nat.mod_lt _ (by decide)
  have pos : bit % 32 + 32 * (bit / 32) = bit := Nat.mod_add_div bit 32
  rw [Words.toNat_testBit, Words.get_ofFn]
  by_cases inWidth : bit / 32 < width
  · rw [if_pos inWidth, digits _ inWidth, Nat.testBit_mod_two_pow, Nat.testBit_div_two_pow, pos]
    simp [inside]
  · have large : 2 ^ (32 * width) ≤ 2 ^ bit := Nat.pow_le_pow_right (by decide) (by omega)
    rw [if_neg inWidth, Nat.testBit_lt_two_pow (Nat.lt_of_lt_of_le bound large)]
    exact Nat.zero_testBit _

theorem pow256_eq (index : Nat) : (256 : Nat) ^ (index * 4) = 2 ^ (32 * index) := by
  rw [show (256 : Nat) = 2 ^ 8 from rfl, ← Nat.pow_mul]
  congr 1
  omega

theorem toNat_uintToArith256 (a : Uint256) : (uintToArith256 a).toNat = a.toNat := by
  apply toNat_ofFn_digits
  · intro index inside
    have small : a.toNat / 2 ^ (32 * index) % 2 ^ 32 < 2 ^ 32 := Nat.mod_lt _ (by decide)
    rw [hashBytes, drop_writeLE, take_writeLE (by omega), readLE_writeLE_eq_mod, pow256_eq,
      toNat_ofNat']
    exact Nat.mod_eq_of_lt small
  · exact a.isLt

theorem toNat_fromBytes (bytes : Uint256) : (PowNumber.fromBytes bytes).toNat = bytes.toNat := by
  apply toNat_ofFn_digits
  · intro limb inside
    have digits : ∀ index < 4, ((hashBytes bytes).getD (limb * 4 + index) 0).toNat =
        bytes.toNat / 256 ^ (limb * 4 + index) % 256 := by
      intro index inWord
      rw [hashBytes, getD_writeLE (by omega)]
    have word : (256 : Nat) ^ 4 = 2 ^ 32 := by decide
    rw [toNat_foldl_bytes bytes.toNat (limb * 4) digits (Nat.le_refl 4), pow256_eq, word]
  · exact bytes.isLt

theorem fromBytes_eq (bytes : Uint256) : PowNumber.fromBytes bytes = uintToArith256 bytes := by
  rw [← toNat_inj, toNat_fromBytes, toNat_uintToArith256]

/-! ## Reading a compact form -/

theorem ofUInt64_toUInt64 (word : UInt32) :
    ofUInt64 word.toUInt64 = Words.ofFn 8 fun index => if index = 0 then word else 0 := by
  have high : (word.toUInt64 >>> 32).toUInt32 = 0 := by
    apply UInt32.toNat_inj.mp
    have small := word.toNat_lt
    have amount : (32 : UInt64).toNat % 64 = 32 := rfl
    have none : word.toNat >>> 32 = 0 := by
      rw [Nat.shiftRight_eq_div_pow]
      exact Nat.div_eq_of_lt small
    rw [UInt64.toNat_toUInt32, UInt64.toNat_shiftRight, toNat_toUInt64, amount, none]
    rfl
  rw [ofUInt64, high, toUInt32_toUInt64]
  congr 1
  funext index
  split
  · rfl
  · rw [ite_self]

theorem get_ofUInt64 (word : UInt32) (index : Nat) :
    (ofUInt64 word.toUInt64).get index = if index = 0 then word else 0 := by
  rw [ofUInt64_toUInt64, Words.get_ofFn]
  split
  · rfl
  · rw [if_neg (by omega)]

variable (num : PowNumber) (compact : UInt32)

theorem mantissa_lt : (compact &&& 0x007fffff).toNat < 2 ^ 23 := by
  have mask : (0x007fffff : UInt32).toNat = 2 ^ 23 - 1 := rfl
  rw [UInt32.toNat_and, mask, Nat.and_two_pow_sub_one_eq_mod]
  exact Nat.mod_lt _ (by decide)

/-- A mantissa moved by one byte stays inside its word. -/
theorem mantissa_shiftRight_eq_zero : (compact &&& 0x007fffff) >>> 24 = 0 := by
  have small := mantissa_lt compact
  have amount : (24 : UInt32).toNat % 32 = 24 := rfl
  have none : (compact &&& 0x007fffff).toNat >>> 24 = 0 := by
    rw [Nat.shiftRight_eq_div_pow]
    exact Nat.div_eq_of_lt (by omega)
  apply UInt32.toNat_inj.mp
  rw [UInt32.toNat_shiftRight, amount, none]
  rfl

theorem fromCompact_eq : PowNumber.fromCompact compact = (setCompact compact).value := by
  simp only [PowNumber.fromCompact, setCompact]
  by_cases short : (compact >>> 24).toNat ≤ 3
  · rw [if_pos short, if_pos short, if_pos short, ofUInt64_toUInt64]
  · rw [if_neg short, if_neg short, if_neg short, shiftLeft]
    have words : 8 * ((compact >>> 24).toNat - 3) / 32 = ((compact >>> 24).toNat - 3) / 4 := by
      omega
    have bits : 8 * ((compact >>> 24).toNat - 3) % 32 = ((compact >>> 24).toNat - 3) % 4 * 8 := by
      omega
    have byte : ((compact >>> 24).toNat - 3) % 4 * 8 = 0 ∨ ((compact >>> 24).toNat - 3) % 4 * 8 = 8 ∨
        8 < ((compact >>> 24).toNat - 3) % 4 * 8 := by
      omega
    rw [words, bits]
    generalize ((compact >>> 24).toNat - 3) / 4 = limb
    generalize ((compact >>> 24).toNat - 3) % 4 * 8 = shift at byte
    congr 1
    funext index
    rw [get_ofUInt64, get_ofUInt64]
    rcases Nat.lt_trichotomy index limb with below | rfl | above
    · have outside : ¬ (limb + 1 ≤ index ∧ shift ≠ 0) := by omega
      have notNext : ¬ (8 < shift ∧ index = limb + 1) := by omega
      rw [if_neg (Nat.ne_of_lt below), if_neg notNext, if_neg outside,
        if_neg (Nat.not_le.mpr below), UInt32.or_self]
    · have outside : ¬ (index + 1 ≤ index ∧ shift ≠ 0) := by omega
      rw [if_pos rfl, if_neg outside, if_pos (Nat.le_refl index), if_pos (Nat.sub_self index),
        UInt32.zero_or]
    · have next : index - limb ≠ 0 := by omega
      rw [if_neg (Nat.ne_of_gt above), if_pos (Nat.le_of_lt above), if_neg next,
        zero_shiftLeft, UInt32.or_zero]
      by_cases adjacent : index = limb + 1
      · have first : index - limb - 1 = 0 := by omega
        rw [if_pos first]
        rcases byte with none | one | several
        · simp [none]
        · -- the word after the mantissa stays zero, so the shorter guard makes no difference
          simp [one, adjacent, mantissa_shiftRight_eq_zero]
        · have some : shift ≠ 0 := by omega
          simp [several, some, adjacent]
      · have further : index - limb - 1 ≠ 0 := by omega
        have notNext : ¬ (8 < shift ∧ index = limb + 1) := by omega
        rw [if_neg notNext, if_neg further, zero_shiftRight, ite_self]

/-! ## Writing a compact form -/

theorem toNat_byteAt (index : Nat) : (num.byteAt index).toNat = num.toNat / 256 ^ index % 256 := by
  have mask : (0xff : UInt32).toNat = 2 ^ 8 - 1 := rfl
  have power : (256 : Nat) ^ index = 2 ^ (32 * (index / 4)) * 2 ^ (8 * (index % 4)) := by
    rw [show (256 : Nat) = 2 ^ 8 from rfl, ← Nat.pow_mul, ← Nat.pow_add]
    congr 1
    omega
  have room : (2 : Nat) ^ 32 = 2 ^ (8 * (index % 4)) * 2 ^ (32 - 8 * (index % 4)) := by
    rw [← Nat.pow_add]
    congr 1
    omega
  have enough : (2 : Nat) ^ 8 ∣ 2 ^ (32 - 8 * (index % 4)) := Nat.pow_dvd_pow 2 (by omega)
  rw [PowNumber.byteAt, toNat_toUInt8, UInt32.toNat_and, mask,
    Nat.and_two_pow_sub_one_eq_mod, UInt32.toNat_shiftRight, shiftAmount (by omega),
    Nat.shiftRight_eq_div_pow, get_eq_div_mod, power, Nat.mod_mod, room, Nat.mod_mul_right_div_self,
    Nat.mod_mod_of_dvd _ enough, Nat.div_div_eq_div_mul]
  rfl

def byteLength (number : Nat) : Nat :=
  (Nat.size number + 7) / 8

theorem byteLength_le {num count : Nat} : byteLength num ≤ count ↔ num < 256 ^ count := by
  rw [show (256 : Nat) = 2 ^ 8 from rfl, ← Nat.pow_mul, ← Nat.size_le, byteLength]
  omega

theorem lt_byteLength {num count : Nat} : count < byteLength num ↔ 256 ^ count ≤ num := by
  rw [← Nat.not_le, byteLength_le, Nat.not_lt]

theorem byteSizeFrom_eq {count : Nat} (bound : num.toNat < 256 ^ count) :
    num.byteSizeFrom count = byteLength num.toNat := by
  induction count with
  | zero =>
    have zero : num.toNat = 0 := by omega
    rw [PowNumber.byteSizeFrom, zero]
    rfl
  | succ count ih =>
    have byte : num.byteAt count ≠ 0 ↔ 256 ^ count ≤ num.toNat := by
      have quot : num.toNat / 256 ^ count < 256 := by
        rw [Nat.div_lt_iff_lt_mul (Nat.pow_pos (by decide)), Nat.mul_comm, ← Nat.pow_succ]
        exact bound
      have zero : num.byteAt count = 0 ↔ (num.byteAt count).toNat = 0 := UInt8.toNat_inj.symm
      rw [ne_eq, zero, toNat_byteAt, Nat.mod_eq_of_lt quot, Nat.div_eq_zero_iff_lt
        (Nat.pow_pos (by decide)), Nat.not_lt]
    rw [PowNumber.byteSizeFrom]
    by_cases present : num.byteAt count ≠ 0
    · have least := lt_byteLength.mpr (byte.mp present)
      have most := byteLength_le.mpr bound
      rw [if_pos present]
      omega
    · rw [if_neg present]
      apply ih
      rw [byte] at present
      omega

theorem byteSize_eq : num.byteSize = byteLength num.toNat := byteSizeFrom_eq num num.toNat_lt

/-- The three leading bytes of a number, with zero bytes after a shorter one. -/
def leadingThreeBytes (number : Nat) : Nat :=
  number * 256 ^ (3 - byteLength number) / 256 ^ (byteLength number - 3)

theorem leadingThreeBytes_lt (num : Nat) : leadingThreeBytes num < 2 ^ 24 := by
  have bound := byteLength_le.mp (Nat.le_refl (byteLength num))
  rw [leadingThreeBytes, Nat.div_lt_iff_lt_mul (Nat.pow_pos (by decide))]
  calc num * 256 ^ (3 - byteLength num) < 256 ^ byteLength num * 256 ^ (3 - byteLength num) :=
        Nat.mul_lt_mul_of_pos_right bound (Nat.pow_pos (by decide))
    _ = 2 ^ 24 * 256 ^ (byteLength num - 3) := by
        rw [show (2 : Nat) ^ 24 = 256 ^ 3 by decide, ← Nat.pow_add, ← Nat.pow_add]
        congr 1
        omega

theorem toNat_leadingBytes_value :
    (PowNumber.leadingBytes num).toNat = leadingThreeBytes num.toNat := by
  have bound := byteLength_le.mp (Nat.le_refl (byteLength num.toNat))
  have leading := leadingThreeBytes_lt num.toNat
  rw [leadingThreeBytes] at leading ⊢
  simp only [PowNumber.leadingBytes, byteSize_eq]
  generalize byteLength num.toNat = size at bound leading
  by_cases short : size ≤ 3
  · have bytes := toNat_foldl_bytes num.toNat 0
      (fun index (_ : index < size) => by rw [toNat_byteAt, Nat.zero_add]) (by omega)
    have none : size - 3 = 0 := by omega
    rw [none, Nat.pow_zero, Nat.div_one] at leading ⊢
    rw [Nat.pow_zero, Nat.div_one, Nat.mod_eq_of_lt bound] at bytes
    rw [if_pos short, UInt32.toNat_shiftLeft, shiftAmount (by omega), bytes,
      Nat.shiftLeft_eq, Nat.pow_mul]
    exact Nat.mod_eq_of_lt (Nat.lt_trans leading (by decide))
  · have bytes := toNat_foldl_bytes num.toNat (size - 3)
      (fun index (_ : index < 3) => toNat_byteAt num (size - 3 + index)) (by decide)
    have none : 3 - size = 0 := by omega
    have second : size - 3 + 1 = size - 2 := by omega
    have third : size - 3 + 2 = size - 1 := by omega
    rw [none, Nat.pow_zero, Nat.mul_one] at leading ⊢
    rw [show (256 : Nat) ^ 3 = 2 ^ 24 by decide, Nat.mod_eq_of_lt leading] at bytes
    rw [if_neg short, ← bytes]
    simp [range_succ, second, third]

theorem toNat_getLow64 {num : ArithUint256} (small : num.toNat < 2 ^ 64) :
    (getLow64 num).toNat = num.toNat := by
  have low : (num.get 0).toNat = num.toNat % 2 ^ 32 := by
    rw [get_eq_div_mod, Nat.mul_zero, Nat.pow_zero, Nat.div_one]
  have high : (num.get 1).toNat = num.toNat / 2 ^ 32 := by
    rw [get_eq_div_mod, Nat.mul_one]
    exact Nat.mod_eq_of_lt (by omega)
  have amount : (32 : UInt64).toNat % 64 = 32 := rfl
  have bound : num.toNat % 2 ^ 32 < 2 ^ 32 := Nat.mod_lt _ (by decide)
  have top : (num.toNat / 2 ^ 32) <<< 32 < 2 ^ 64 := by
    rw [Nat.shiftLeft_eq]
    omega
  rw [getLow64, UInt64.toNat_or, UInt64.toNat_shiftLeft, amount, toNat_toUInt64,
    toNat_toUInt64, low, high, Nat.mod_eq_of_lt top, or_shiftLeft_eq_add bound]
  omega

theorem leadingBytes_core (num : ArithUint256) : (leadingBytes num).1 = byteLength num.toNat ∧
      (leadingBytes num).2.toNat = leadingThreeBytes num.toNat := by
  have bound := byteLength_le.mp (Nat.le_refl (byteLength num.toNat))
  have leading := leadingThreeBytes_lt num.toNat
  have size : num.bits / 8 + (if num.bits % 8 ≠ 0 then 1 else 0) = byteLength num.toNat := by
    rw [byteLength, bits_eq]
    split <;> omega
  rw [leadingThreeBytes] at leading ⊢
  simp only [leadingBytes, size]
  generalize byteLength num.toNat = size at bound leading
  by_cases short : size ≤ 3
  · have small : num.toNat < 2 ^ 24 := by
      have larger : 256 ^ size ≤ 256 ^ 3 := Nat.pow_le_pow_right (by decide) short
      omega
    have amount : (UInt64.ofNat (8 * (3 - size))).toNat % 64 = 8 * (3 - size) := by
      rw [UInt64.toNat_ofNat_of_lt' (by rw [UInt64.size]; omega), Nat.mod_eq_of_lt (by omega)]
    have none : size - 3 = 0 := by omega
    rw [none, Nat.pow_zero, Nat.div_one] at leading ⊢
    rw [if_pos short, UInt64.toNat_toUInt32, UInt64.toNat_shiftLeft, amount,
      toNat_getLow64 (by omega), Nat.shiftLeft_eq, Nat.pow_mul]
    refine ⟨rfl, ?_⟩
    rw [show (2 : Nat) ^ 8 = 256 from rfl]
    omega
  · have none : 3 - size = 0 := by omega
    have shifted : (num.shiftRight (8 * (size - 3))).toNat = num.toNat / 256 ^ (size - 3) := by
      rw [toNat_shiftRight, Nat.pow_mul]
    rw [none, Nat.pow_zero, Nat.mul_one] at leading ⊢
    rw [if_neg short, UInt64.toNat_toUInt32, toNat_getLow64 (by omega), shifted]
    exact ⟨rfl, Nat.mod_eq_of_lt (by omega)⟩

variable (num : Words 8)

theorem leadingBytes_eq : leadingBytes num =
      (PowNumber.byteSize num, PowNumber.leadingBytes num) := by
  obtain ⟨size, bytes⟩ := leadingBytes_core num
  apply Prod.ext
  · rw [size, byteSize_eq]
  · apply UInt32.toNat_inj.mp
    rw [bytes, toNat_leadingBytes_value]

theorem and_signAndSize_eq_zero {word : UInt32} (small : word.toNat < 2 ^ 23) :
    word &&& ~~~0x007fffff = 0 := by
  apply UInt32.toNat_inj.mp
  have mask : (~~~0x007fffff : UInt32).toNat = 511 * 2 ^ 23 := by decide
  rw [UInt32.toNat_and, mask]
  apply Nat.eq_of_testBit_eq
  intro bit
  rw [Nat.testBit_and, Nat.testBit_mul_two_pow]
  by_cases inMantissa : 23 ≤ bit
  · have clear : word.toNat.testBit bit = false := Nat.testBit_lt_two_pow
      (Nat.lt_of_lt_of_le small (Nat.pow_le_pow_right (by decide) inMantissa))
    simp [clear]
  · simp [inMantissa]

theorem lt_of_signBit_clear {word : UInt32} (small : word.toNat < 2 ^ 24)
    (clear : ¬ word &&& 0x00800000 ≠ 0) : word.toNat < 2 ^ 23 := by
  have signBit : (0x00800000 : UInt32) = 1 <<< UInt32.ofNat 23 := by decide
  rw [signBit, word_and_bit_ne_zero (by decide), Bool.not_eq_true] at clear
  apply Nat.lt_pow_two_of_testBit
  intro bit above
  rcases Nat.eq_or_lt_of_le above with same | further
  · rw [← same, clear]
  · exact Nat.testBit_lt_two_pow
      (Nat.lt_of_lt_of_le small (Nat.pow_le_pow_right (by decide) further))

theorem getCompact_eq : getCompact num false = .ok (PowNumber.compact num) := by
  have small : (PowNumber.leadingBytes num).toNat < 2 ^ 24 := by
    rw [toNat_leadingBytes_value]
    exact leadingThreeBytes_lt num.toNat
  have size : PowNumber.byteSize num ≤ 32 := by
    rw [byteSize_eq, byteLength_le]
    exact num.toNat_lt
  simp only [getCompact, leadingBytes_eq, PowNumber.compact]
  by_cases sign : PowNumber.leadingBytes num &&& 0x00800000 ≠ 0
  · have shifted : (PowNumber.leadingBytes num >>> 8).toNat < 2 ^ 23 := by
      have amount : (8 : UInt32).toNat % 32 = 8 := rfl
      rw [UInt32.toNat_shiftRight, amount, Nat.shiftRight_eq_div_pow]
      omega
    have room : PowNumber.byteSize num + 1 < 256 := by omega
    rw [if_pos sign, if_pos sign]
    simp [Exec.assertThat, and_signAndSize_eq_zero shifted, room]
  · have room : PowNumber.byteSize num < 256 := by omega
    rw [if_neg sign, if_neg sign]
    simp [Exec.assertThat, and_signAndSize_eq_zero (lt_of_signBit_clear small sign), room]

/-! ## Targets -/

theorem wordsToNat_eq_zero (words : List UInt32) :
    wordsToNat words = 0 ↔ words.all (· == 0) = true := by
  induction words with
  | nil => simp [wordsToNat]
  | cons word words ih =>
    have zero : word = 0 ↔ word.toNat = 0 := UInt32.toNat_inj.symm
    rw [wordsToNat, all_cons, Bool.and_eq_true, ← ih, beq_iff_eq, zero]
    omega

theorem toNat_ofUInt64_zero : (ofUInt64 0).toNat = 0 := by
  decide

theorem compare_zero : (num.compare (ofUInt64 0) == .eq) = PowNumber.zero num := by
  rw [Bool.eq_iff_iff, beq_iff_eq, Words.compare_eq, toNat_ofUInt64_zero, Nat.compare_eq_eq,
    PowNumber.zero, Words.toNat, wordsToNat_eq_zero]

/-- The flags are computed from the mantissa before and after a short one is shifted, which
makes no difference while something of it is left. -/
theorem flags_eq {compact : UInt32} (nonzero : (setCompact compact).value.toNat ≠ 0) :
    compactNegative compact = (setCompact compact).negative ∧
      compactOverflows compact = (setCompact compact).overflow := by
  have over34 : compact >>> 24 > 34 ↔ (compact >>> 24).toNat > 34 := lt_iff_toNat_lt
  have over33 : compact >>> 24 > 33 ↔ (compact >>> 24).toNat > 33 := lt_iff_toNat_lt
  have over32 : compact >>> 24 > 32 ↔ (compact >>> 24).toNat > 32 := lt_iff_toNat_lt
  simp only [compactNegative, compactOverflows, setCompact, over34, over33, over32] at nonzero ⊢
  by_cases short : (compact >>> 24).toNat ≤ 3
  · rw [if_pos short, if_pos short] at nonzero
    have shifted : (compact &&& 0x007fffff) >>> UInt32.ofNat (8 * (3 - (compact >>> 24).toNat)) ≠
        0 := by
      intro zero
      rw [zero] at nonzero
      exact nonzero toNat_ofUInt64_zero
    have mantissa : compact &&& 0x007fffff ≠ 0 := by
      intro zero
      rw [zero] at shifted
      exact shifted zero_shiftRight
    have fits34 : ¬ (compact >>> 24).toNat > 34 := by omega
    have fits33 : ¬ (compact >>> 24).toNat > 33 := by omega
    have fits32 : ¬ (compact >>> 24).toNat > 32 := by omega
    rw [if_pos short]
    simp only [fits34, fits33, fits32, decide_false, Bool.and_false, Bool.or_false,
      bne_iff_ne.mpr shifted, bne_iff_ne.mpr mantissa, Bool.and_true, Bool.true_and, and_self]
  · rw [if_neg short]
    exact ⟨Bool.and_comm _ _, rfl⟩

theorem deriveTarget_eq (limit : Uint256) :
    deriveTarget compact limit = deriveProofOfWorkTarget compact limit := by
  simp only [deriveTarget, deriveProofOfWorkTarget, fromCompact_eq, fromBytes_eq, compare_zero]
  by_cases zero : PowNumber.zero (setCompact compact).value = true
  · simp [zero]
  · have nonzero : (setCompact compact).value.toNat ≠ 0 := by
      rw [Words.toNat, ne_eq, wordsToNat_eq_zero]
      exact zero
    obtain ⟨negative, overflow⟩ := flags_eq nonzero
    rw [Bool.not_eq_true] at zero
    rw [negative, overflow]
    cases (setCompact compact).negative <;> cases (setCompact compact).overflow <;> simp [zero]

end Champy
