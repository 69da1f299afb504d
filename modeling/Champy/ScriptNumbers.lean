import Champy.ScriptValues

/-!
# Minimal script numbers

The bytes of a script number are those of its magnitude, with the sign in the top bit of the
last byte or, where that bit is taken, in a byte of its own.  The minimal encodings are exactly
the strings of this form whose magnitude has no leading zero byte, so a number has one minimal
encoding and `serialize` writes it.
-/

namespace Champy

open List

/-! ## The sign bit -/

theorem signBit_set (byte : UInt8) : (byte &&& 0x80 != 0) = true ↔ 128 ≤ byte.toNat := by
  have all : ∀ value : Fin 256,
      (UInt8.ofNat value.val &&& 0x80 != 0) = true ↔ 128 ≤ value.val := by decide +kernel
  simpa using all ⟨byte.toNat, byte.toNat_lt⟩

theorem magnitudeBits_set (byte : UInt8) : (byte &&& 0x7f != 0) = true ↔ byte.toNat % 128 ≠ 0 := by
  have all : ∀ value : Fin 256,
      (UInt8.ofNat value.val &&& 0x7f != 0) = true ↔ value.val % 128 ≠ 0 := by decide +kernel
  simpa using all ⟨byte.toNat, byte.toNat_lt⟩

theorem toNat_or_signBit {byte : UInt8} (free : byte.toNat < 128) :
    (byte ||| 0x80).toNat = byte.toNat + 128 := by
  have all : ∀ value : Fin 256,
      value.val < 128 → (UInt8.ofNat value.val ||| 0x80).toNat = value.val + 128 := by
    decide +kernel
  simpa using all ⟨byte.toNat, byte.toNat_lt⟩ free

/-! ## The magnitude -/

theorem readLE_scriptNumMagnitude (absvalue : Nat) :
    readLE (scriptNumMagnitude absvalue) = absvalue := by
  induction absvalue using Nat.strong_induction_on with
  | _ absvalue ih =>
    rw [scriptNumMagnitude]
    split
    · next pos =>
        rw [readLE_cons, ih _ (Nat.div_lt_self pos (by decide)), UInt8.toNat_ofNat']
        omega
    · next zero =>
        rw [readLE_nil]
        omega

/-- The bytes of a magnitude, without a leading zero. -/
def Trimmed (magnitude : List UInt8) : Prop :=
  magnitude.getLast? ≠ some 0

theorem trimmed_cons {byte : UInt8} {bytes : List UInt8} :
    Trimmed (byte :: bytes) ↔ Trimmed bytes ∧ (bytes = [] → byte ≠ 0) := by
  cases bytes with
  | nil => simp [Trimmed]
  | cons next rest => simp [Trimmed, getLast?_cons_cons]

variable {magnitude init vch : List UInt8} {last : UInt8}

theorem readLE_pos_of_trimmed (trimmed : Trimmed magnitude) (ne : magnitude ≠ []) :
    0 < readLE magnitude := by
  induction magnitude with
  | nil => exact absurd rfl ne
  | cons byte bytes ih =>
    obtain ⟨trimmedRest, nonzero⟩ := trimmed_cons.mp trimmed
    rw [readLE_cons]
    by_cases empty : bytes = []
    · have pos : byte.toNat ≠ 0 := fun zero =>
        nonzero empty (UInt8.toNat_inj.mp zero)
      omega
    · have := ih trimmedRest empty
      omega

theorem trimmed_scriptNumMagnitude (absvalue : Nat) : Trimmed (scriptNumMagnitude absvalue) := by
  induction absvalue using Nat.strong_induction_on with
  | _ absvalue ih =>
    rw [scriptNumMagnitude]
    split
    · next pos =>
        refine trimmed_cons.mpr ⟨ih _ (Nat.div_lt_self pos (by decide)), ?_⟩
        intro rest isZero
        -- Without further bytes the number is this byte.
        have value := readLE_scriptNumMagnitude (absvalue / 256)
        rw [rest, readLE_nil] at value
        have low := congrArg UInt8.toNat isZero
        rw [UInt8.toNat_ofNat', UInt8.toNat_zero] at low
        omega
    · exact nofun

theorem scriptNumMagnitude_readLE (trimmed : Trimmed magnitude) :
    scriptNumMagnitude (readLE magnitude) = magnitude := by
  induction magnitude with
  | nil => rw [readLE_nil, scriptNumMagnitude, if_neg (Nat.lt_irrefl 0)]
  | cons byte bytes ih =>
    have pos := readLE_pos_of_trimmed trimmed (cons_ne_nil _ _)
    have small := byte.toNat_lt
    rw [scriptNumMagnitude, if_pos pos, readLE_cons]
    have low : (byte.toNat + 256 * readLE bytes) % 256 = byte.toNat := by omega
    have high : (byte.toNat + 256 * readLE bytes) / 256 = readLE bytes := by omega
    rw [low, high, UInt8.ofNat_toNat, ih (trimmed_cons.mp trimmed).1]

theorem readLE_concat (bytes : List UInt8) (last : UInt8) :
    readLE (bytes ++ [last]) = readLE bytes + 256 ^ bytes.length * last.toNat := by
  induction bytes with
  | nil => simp
  | cons byte bytes ih =>
    rw [cons_append, readLE_cons, ih, readLE_cons, length_cons, Nat.pow_succ]
    ring

/-! ## The sign -/

theorem withSign_of_taken (taken : 128 ≤ last.toNat) (negative : Bool) :
    withSign negative (init ++ [last]) = init ++ [last] ++ [if negative then 0x80 else 0] := by
  unfold withSign
  rw [getLast?_concat]
  exact if_pos ((signBit_set last).mpr taken)

theorem withSign_of_free (free : last.toNat < 128) (negative : Bool) :
    withSign negative (init ++ [last]) = init ++ [if negative then last ||| 0x80 else last] := by
  unfold withSign
  rw [getLast?_concat, dropLast_concat]
  refine (if_neg (mt (signBit_set last).mp (by omega))).trans ?_
  cases negative <;> rfl

theorem setVch_concat (init : List UInt8) (last : UInt8) : setVch (init ++ [last]) =
      if 128 ≤ last.toNat then
        -((readLE init + 256 ^ init.length * (last.toNat - 128) : Nat) : Int)
      else ((readLE init + 256 ^ init.length * last.toNat : Nat) : Int) := by
  have lower := readLE_lt init
  have small := last.toNat_lt
  unfold setVch
  rw [getLast?_concat]
  simp only [signBit_set, readLE_concat, length_append, length_singleton, Nat.add_sub_cancel]
  split
  · next taken =>
      -- The sign bit is worth 128 times the weight of the last byte.
      obtain ⟨rest, split⟩ := Nat.exists_eq_add_of_le taken
      have below : readLE init + 256 ^ init.length * rest < 0x80 * 256 ^ init.length := by
        have room : 256 ^ init.length * (rest + 1) ≤ 256 ^ init.length * 128 :=
          Nat.mul_le_mul_left _ (by omega)
        rw [Nat.mul_add, Nat.mul_one] at room
        omega
      have value : readLE init + 256 ^ init.length * last.toNat =
          readLE init + 256 ^ init.length * rest + 0x80 * 256 ^ init.length := by
        rw [split]
        ring
      rw [value, Nat.add_mod_right, Nat.mod_eq_of_lt below, split, Nat.add_sub_cancel_left]
  · rfl

/-- What the sign can be put on: zero has no negative. -/
structure Signed (negative : Bool) (magnitude : List UInt8) : Prop where
  trimmed : Trimmed magnitude
  zero : magnitude = [] → negative = false

theorem setVch_withSign {negative : Bool} (signed : Signed negative magnitude) :
    setVch (withSign negative magnitude) =
      if negative then -(readLE magnitude : Int) else readLE magnitude := by
  rcases eq_nil_or_concat' magnitude with rfl | ⟨init, last, rfl⟩
  · rw [signed.zero rfl]
    rfl
  · by_cases taken : 128 ≤ last.toNat
    · rw [withSign_of_taken taken, setVch_concat]
      cases negative <;> simp
    · have free : last.toNat < 128 := by omega
      rw [withSign_of_free free, setVch_concat, readLE_concat]
      cases negative
      · rw [if_neg Bool.false_ne_true, if_neg taken, if_neg Bool.false_ne_true]
      · rw [if_pos rfl, toNat_or_signBit free, if_pos (by omega), if_pos rfl, Nat.add_sub_cancel]

theorem isMinimallyEncoded_concat (init : List UInt8) (last : UInt8) :
    isMinimallyEncoded (init ++ [last]) = true ↔
      last.toNat % 128 ≠ 0 ∨ ∃ front second, init = front ++ [second] ∧ 128 ≤ second.toNat := by
  unfold isMinimallyEncoded
  rcases eq_nil_or_concat' init with rfl | ⟨front, second, rfl⟩
  · simpa using magnitudeBits_set last
  · simp only [reverse_append, reverse_singleton,
      cons_append, nil_append, Bool.or_eq_true, magnitudeBits_set, signBit_set]
    refine or_congr_right ⟨fun taken => ⟨front, second, rfl, taken⟩, ?_⟩
    intro split
    obtain ⟨front', second', same, taken⟩ := split
    rwa [(append_singleton_inj.mp same).2]

theorem Trimmed.last_ne_zero (trimmed : Trimmed (init ++ [last])) : last.toNat ≠ 0 := by
  intro zero
  apply trimmed
  rw [getLast?_concat, UInt8.toNat_inj.mp (zero.trans UInt8.toNat_zero.symm)]

theorem isMinimallyEncoded_withSign {negative : Bool} (trimmed : Trimmed magnitude) :
    isMinimallyEncoded (withSign negative magnitude) = true := by
  rcases eq_nil_or_concat' magnitude with rfl | ⟨init, last, rfl⟩
  · rfl
  · have nonzero := trimmed.last_ne_zero
    by_cases taken : 128 ≤ last.toNat
    · rw [withSign_of_taken taken, isMinimallyEncoded_concat]
      exact Or.inr ⟨init, last, rfl, taken⟩
    · have free : last.toNat < 128 := by omega
      rw [withSign_of_free free, isMinimallyEncoded_concat]
      left
      cases negative
      · rw [if_neg Bool.false_ne_true]
        omega
      · rw [if_pos rfl, toNat_or_signBit free]
        omega

theorem signed_concat (nonzero : last.toNat ≠ 0) (negative : Bool) :
    Signed negative (init ++ [last]) := by
  constructor
  · unfold Trimmed
    rw [getLast?_concat]
    intro zero
    rw [Option.some.inj zero] at nonzero
    exact nonzero rfl
  · intro empty
    exact absurd empty (append_ne_nil_of_right_ne_nil _ (cons_ne_nil _ _))

theorem exists_withSign (minimal : isMinimallyEncoded vch = true) :
    ∃ negative magnitude, Signed negative magnitude ∧ vch = withSign negative magnitude := by
  rcases eq_nil_or_concat' vch with rfl | ⟨init, last, rfl⟩
  · exact ⟨false, [], ⟨nofun, fun _ => rfl⟩, rfl⟩
  have small := last.toNat_lt
  refine ⟨decide (128 ≤ last.toNat), ?_⟩
  by_cases bits : last.toNat % 128 = 0
  · -- The last byte holds the sign only.
    obtain ⟨front, second, rfl, taken⟩ :=
      ((isMinimallyEncoded_concat init last).mp minimal).resolve_left (not_not_intro bits)
    refine ⟨front ++ [second], signed_concat (by omega) _, ?_⟩
    rw [withSign_of_taken taken, append_cancel_left_eq, singleton_inj]
    apply UInt8.toNat_inj.mp
    by_cases sign : 128 ≤ last.toNat
    · rw [decide_eq_true sign]
      show last.toNat = 128
      omega
    · rw [decide_eq_false sign]
      show last.toNat = 0
      omega
  · -- The last byte holds the sign and the top of the magnitude.
    have top : (UInt8.ofNat (last.toNat % 128)).toNat = last.toNat % 128 := by
      rw [UInt8.toNat_ofNat']
      omega
    refine ⟨init ++ [UInt8.ofNat (last.toNat % 128)], signed_concat (by omega) _, ?_⟩
    rw [withSign_of_free (by omega), append_cancel_left_eq, singleton_inj]
    apply UInt8.toNat_inj.mp
    by_cases sign : 128 ≤ last.toNat
    · rw [decide_eq_true sign, if_pos rfl, toNat_or_signBit (by omega)]
      omega
    · rw [decide_eq_false sign, if_neg Bool.false_ne_true]
      omega

/-! ## Reading and writing -/

variable (value : Int64)

theorem toNat_magnitude :
    (if value.toInt < 0 then -value else value).toUInt64.toNat = value.toInt.natAbs := by
  have wide := value.toBitVec.isLt
  have signed : value.toInt = if 2 * value.toBitVec.toNat < 2 ^ 64 then
      (value.toBitVec.toNat : Int) else value.toBitVec.toNat - (2 ^ 64 : Nat) :=
    BitVec.toInt_eq_toNat_cond value.toBitVec
  split
  · next negative =>
      have negated : (-value).toUInt64.toNat = (2 ^ 64 - value.toBitVec.toNat) % 2 ^ 64 :=
        BitVec.toNat_neg value.toBitVec
      rw [negated]
      split at signed <;> omega
  · next pos =>
      show value.toBitVec.toNat = _
      split at signed <;> omega

theorem scriptNumSerialize_eq : scriptNumSerialize value =
      withSign (decide (value.toInt < 0)) (scriptNumMagnitude value.toInt.natAbs) := by
  have sign : decide (value < 0) = decide (value.toInt < 0) :=
    decide_eq_decide.mpr (by rw [Int64.lt_iff_toInt_lt, Int64.toInt_zero])
  have unfolded : scriptNumSerialize value = withSign (decide (value < 0))
      (scriptNumMagnitude (if decide (value < 0) = true then -value else value).toUInt64.toNat) :=
    rfl
  have magnitude := toNat_magnitude value
  rw [unfolded, sign]
  simp only [decide_eq_true_eq]
  rw [magnitude]

theorem signed_of_value (value : Int) :
    Signed (decide (value < 0)) (scriptNumMagnitude value.natAbs) := by
  refine ⟨trimmed_scriptNumMagnitude _, ?_⟩
  intro empty
  have zero := readLE_scriptNumMagnitude value.natAbs
  rw [empty, readLE_nil] at zero
  exact decide_eq_false (by omega)

theorem setVch_scriptNumSerialize : setVch (scriptNumSerialize value) = value.toInt := by
  rw [scriptNumSerialize_eq, setVch_withSign (signed_of_value value.toInt),
    readLE_scriptNumMagnitude]
  simp only [decide_eq_true_eq]
  split <;> omega

theorem scriptNum_of_minimal (size : vch.length ≤ 8) (minimal : isMinimallyEncoded vch = true)
    (requireMinimal : Bool) :
    scriptNum requireMinimal vch 8 = .ok (setVch vch) := by
  have fits : decide (vch.length ≤ 8) = true := decide_eq_true size
  rw [scriptNum, fits, minimal, Bool.or_true]
  rfl

theorem minimal_of_scriptNum {maxNumSize : Nat} {value : Int}
    (constructed : scriptNum true vch maxNumSize = .ok value) :
    isMinimallyEncoded vch = true := by
  obtain ⟨_, -, rest⟩ := Exec.bind_eq_ok.mp constructed
  obtain ⟨_, required, -⟩ := Exec.bind_eq_ok.mp rest
  exact Exec.ensure_eq_ok.mp required

/-- A string of at most eight bytes gives a number of 64 bits. -/
theorem toInt_ofInt_setVch (size : vch.length ≤ 8) :
    (Int64.ofInt (setVch vch)).toInt = setVch vch := by
  apply Int64.toInt_ofInt_of_le
  all_goals
    rcases eq_nil_or_concat' vch with rfl | ⟨init, last, rfl⟩
    · decide
    · rw [length_append, length_singleton] at size
      have lower := readLE_lt init
      have small := last.toNat_lt
      have weight : 256 ^ init.length ≤ 256 ^ 7 := Nat.pow_le_pow_right (by decide) (by omega)
      have top : ∀ digit < 128, readLE init + 256 ^ init.length * digit < 2 ^ 63 := by
        intro digit bound
        have room : 256 ^ init.length * (digit + 1) ≤ 256 ^ 7 * 128 := Nat.mul_le_mul weight bound
        rw [Nat.mul_add, Nat.mul_one] at room
        omega
      rw [setVch_concat]
      split
      · have := top (last.toNat - 128) (by omega)
        omega
      · have := top last.toNat (by omega)
        omega

theorem scriptNum_minimal_iff_canonical : (∀ vch : List UInt8, vch.length ≤ 8 →
      ((∃ value, scriptNum true vch 8 = .ok value) ↔
        scriptNumSerialize (Int64.ofInt (setVch vch)) = vch)) ∧
    ∀ value : Int64, (scriptNumSerialize value).length ≤ 8 →
      ∀ requireMinimal, scriptNum requireMinimal (scriptNumSerialize value) 8 = .ok value.toInt := by
  have minimal : ∀ value, isMinimallyEncoded (scriptNumSerialize value) = true := by
    intro value
    rw [scriptNumSerialize_eq]
    exact isMinimallyEncoded_withSign (trimmed_scriptNumMagnitude _)
  constructor
  · intro vch size
    constructor
    · intro constructed
      obtain ⟨value, constructed⟩ := constructed
      obtain ⟨negative, magnitude, signed, written⟩ :=
        exists_withSign (minimal_of_scriptNum constructed)
      have value64 := toInt_ofInt_setVch size
      have decoded := setVch_withSign signed
      rw [← written] at decoded
      have absolute : (setVch vch).natAbs = readLE magnitude := by
        rw [decoded]
        split <;> omega
      have sign : decide (setVch vch < 0) = negative := by
        rw [decoded]
        cases negative with
        | false => exact decide_eq_false (by simp)
        | true =>
          have nonempty : magnitude ≠ [] := fun empty => Bool.noConfusion (signed.zero empty)
          have positive := readLE_pos_of_trimmed signed.trimmed nonempty
          exact decide_eq_true (by rw [if_pos rfl]; omega)
      rw [scriptNumSerialize_eq, value64, absolute, sign, scriptNumMagnitude_readLE signed.trimmed]
      exact written.symm
    · intro canonical
      have encoded := minimal (Int64.ofInt (setVch vch))
      rw [canonical] at encoded
      exact ⟨_, scriptNum_of_minimal size encoded true⟩
  · intro value size requireMinimal
    rw [scriptNum_of_minimal size (minimal value), setVch_scriptNumSerialize]

/-- The encoding of 255, and the number with the longest encoding that can be read. -/
theorem scriptNum_minimal_iff_canonical_255 : (∃ value, scriptNum true [0xff, 0] 8 = .ok value) ∧
    scriptNum true (scriptNumSerialize (-9223372036854775807)) 8 = .ok (-9223372036854775807) := by
  constructor
  · apply (scriptNum_minimal_iff_canonical.1 [0xff, 0] (by decide)).mpr
    have value : setVch [0xff, 0] = 255 := by decide +kernel
    rw [value, scriptNumSerialize_eq]
    simp [scriptNumMagnitude, withSign]
    decide
  · apply scriptNum_minimal_iff_canonical.2
    rw [scriptNumSerialize_eq]
    simp [scriptNumMagnitude, withSign]
    decide

end Champy
