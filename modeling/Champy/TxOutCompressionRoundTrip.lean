import Champy.CodecAgreement
import Champy.TxOutCompression
import Mathlib.Tactic.Ring

/-!
# Compressed outputs are read back

An amount is a number without trailing zeros, or with more than nine, and a power of ten up to the
ninth, in one way.  So amounts survive the compression in both directions as long as the arithmetic
of 64 bits is exact.  The variable-length integers are a canonical code.  With their round trip and
that of the six special scripts, a stored output is read back as it was.
-/

namespace Champy

open List Opcode Reader Nat UInt64

namespace Compression

open Consensus

/-! ## Amounts as numbers -/

/-- The number that stands for `m * 10 ^ e`. -/
def encodedAmount (m e : Nat) : Nat :=
  if e < 9 then 1 + (m / 10 * 9 + m % 10 - 1) * 10 + e else 1 + (m - 1) * 10 + 9

/-- The digits left of the zeros in the amount that a positive number stands for. -/
def decodedDigits (x : Nat) : Nat :=
  if (x - 1) % 10 < 9 then (x - 1) / 10 / 9 * 10 + ((x - 1) / 10 % 9 + 1) else (x - 1) / 10 + 1

/-- The amount that a number stands for, of any size. -/
def decodedAmount (x : Nat) : Nat :=
  if x = 0 then 0 else decodedDigits x * 10 ^ ((x - 1) % 10)

/-- The pairs of digits and zeros that the compression makes of positive amounts. -/
structure Stripped (m e : Nat) : Prop where
  positive : 0 < m
  few : e ≤ 9
  stripped : e < 9 → m % 10 ≠ 0

theorem stripped_unique {m e m' e' : Nat} (first : Stripped m e) (second : Stripped m' e')
    (same : m * 10 ^ e = m' * 10 ^ e') : e' ≤ e := by
  by_contra more
  obtain ⟨extra, extraEq⟩ : ∃ extra, e' = e + (extra + 1) := ⟨e' - e - 1, by omega⟩
  have power : 0 < 10 ^ e := Nat.pow_pos (by decide)
  have digits : m = m' * 10 ^ extra * 10 := by
    apply eq_of_mul_eq_mul_right power
    rw [same, extraEq, pow_add, Nat.pow_succ]
    ring
  have few := second.few
  apply first.stripped (by omega)
  rw [digits, mul_mod_left]

variable {m e : Nat}

theorem decodedAmount_encodedAmount (amount : Stripped m e) :
    decodedAmount (encodedAmount m e) = m * 10 ^ e := by
  have pos := amount.positive
  have few := amount.few
  by_cases short : e < 9
  · have lastDigit := amount.stripped short
    have encoded : encodedAmount m e = 1 + (m / 10 * 9 + m % 10 - 1) * 10 + e := if_pos short
    have exponent : (encodedAmount m e - 1) % 10 = e := by omega
    have quot : (encodedAmount m e - 1) / 10 = m / 10 * 9 + m % 10 - 1 := by omega
    have digits : decodedDigits (encodedAmount m e) = m := by
      rw [decodedDigits, exponent, if_pos short, quot]
      omega
    rw [decodedAmount, if_neg (by omega), digits, exponent]
  · have encoded : encodedAmount m e = 1 + (m - 1) * 10 + 9 := if_neg short
    have exponent : (encodedAmount m e - 1) % 10 = 9 := by omega
    have digits : decodedDigits (encodedAmount m e) = m := by
      rw [decodedDigits, exponent, if_neg (by decide)]
      omega
    rw [decodedAmount, if_neg (by omega), digits, exponent, show e = 9 by omega]

/-- A positive number stands for stripped digits and zeros, and is what those are encoded as. -/
theorem encodedAmount_decodedDigits {x : Nat} (pos : 0 < x) :
    Stripped (decodedDigits x) ((x - 1) % 10) ∧
      encodedAmount (decodedDigits x) ((x - 1) % 10) = x := by
  by_cases short : (x - 1) % 10 < 9
  · have digits : decodedDigits x = (x - 1) / 10 / 9 * 10 + ((x - 1) / 10 % 9 + 1) := if_pos short
    refine ⟨⟨by omega, by omega, fun _ => by omega⟩, ?_⟩
    rw [encodedAmount, if_pos short]
    omega
  · have digits : decodedDigits x = (x - 1) / 10 + 1 := if_neg short
    refine ⟨⟨by omega, by omega, fun less => absurd less short⟩, ?_⟩
    rw [encodedAmount, if_neg short]
    omega

/-! ## Amounts in 64 bits -/

theorem stripZeros_spec (left : Nat) (n : UInt64) (e : Nat) :
    ∃ more ≤ left, (stripZeros left n e).2 = e + more ∧
      n.toNat = (stripZeros left n e).1.toNat * 10 ^ more ∧
      (more < left → (stripZeros left n e).1.toNat % 10 ≠ 0) := by
  induction left generalizing n e with
  | zero => exact ⟨0, le_refl 0, rfl, by simp [stripZeros], fun less => absurd less (by decide)⟩
  | succ left ih =>
    rw [stripZeros]
    split
    next zero =>
      have divides : n.toNat % 10 = 0 := congrArg UInt64.toNat zero
      have quot : (n / 10).toNat = n.toNat / 10 := UInt64.toNat_div n 10
      obtain ⟨more, moreLe, exponent, value, stripped⟩ := ih (n / 10) (e + 1)
      refine ⟨more + 1, succ_le_succ moreLe, by omega, ?_, fun less => stripped (by omega)⟩
      rw [Nat.pow_succ, ← Nat.mul_assoc, ← value]
      omega
    next nonzero =>
      refine ⟨0, zero_le _, rfl, by simp, ?_⟩
      intro _ divides
      apply nonzero
      apply UInt64.toNat_inj.mp
      rw [UInt64.toNat_mod]
      exact divides

variable {script : List UInt8} {keys : PubKeys} {bytes : List UInt8} {n : UInt64}

theorem stripZeros_eq (amount : Stripped m e) (value : n.toNat = m * 10 ^ e) :
    stripZeros 9 n 0 = (UInt64.ofNat m, e) := by
  obtain ⟨more, moreLe, exponent, found, stripped⟩ := stripZeros_spec 9 n 0
  rw [Nat.zero_add] at exponent
  have power : 0 < 10 ^ e := Nat.pow_pos (by decide)
  have nonzero : 0 < n.toNat := by
    rw [value]
    exact mul_pos amount.positive power
  have foundStripped : Stripped (stripZeros 9 n 0).1.toNat more := by
    refine ⟨?_, moreLe, stripped⟩
    rw [found] at nonzero
    exact Nat.pos_of_mul_pos_right nonzero
  have same : m * 10 ^ e = (stripZeros 9 n 0).1.toNat * 10 ^ more := by rw [← value, ← found]
  have exponents : more = e := le_antisymm (stripped_unique amount foundStripped same)
      (stripped_unique foundStripped amount same.symm)
  rw [exponents] at same exponent
  have digits : m = (stripZeros 9 n 0).1.toNat := eq_of_mul_eq_mul_right power same
  rw [digits, UInt64.ofNat_toNat, ← exponent]

theorem compressAmount_eq (amount : Stripped m e) (value : n.toNat = m * 10 ^ e) :
    compressAmount n = .ok (UInt64.ofNat (encodedAmount m e)) := by
  have power : 0 < 10 ^ e := Nat.pow_pos (by decide)
  have digitsSmall : m < 2 ^ 64 := by
    have bound := UInt64.toNat_lt n
    have le : m ≤ m * 10 ^ e := Nat.le_mul_of_pos_right m power
    omega
  have nonzero : n ≠ 0 := by
    intro zero
    rw [zero] at value
    exact absurd value.symm (ne_of_gt (mul_pos amount.positive power))
  have pos := amount.positive
  have small (k : Nat) (bound : k ≤ m) : (UInt64.ofNat k).toNat = k :=
    toNat_ofNat_of_lt' (lt_of_le_of_lt bound digitsSmall)
  rw [compressAmount, if_neg nonzero, stripZeros_eq amount value, encodedAmount]
  dsimp only
  split
  next short =>
    have lastDigit := amount.stripped short
    have remainder : UInt64.ofNat m % 10 = UInt64.ofNat (m % 10) := by
      apply UInt64.toNat_inj.mp
      rw [UInt64.toNat_mod, small m (le_refl m), small (m % 10) (mod_le m 10)]
      rfl
    have quot : UInt64.ofNat m / 10 = UInt64.ofNat (m / 10) := by
      apply UInt64.toNat_inj.mp
      rw [UInt64.toNat_div, small m (le_refl m), small (m / 10) (div_le_self m 10)]
      rfl
    have digit : (1 ≤ UInt64.ofNat (m % 10) && UInt64.ofNat (m % 10) ≤ 9) = true := by
      rw [Bool.and_eq_true, decide_eq_true_iff, decide_eq_true_iff, le_iff_toNat_le,
        le_iff_toNat_le, small (m % 10) (mod_le m 10)]
      exact ⟨one_le_iff_ne_zero.mpr lastDigit, le_of_lt_succ (mod_lt m (by decide))⟩
    obtain ⟨code, codeEq⟩ : ∃ code, m / 10 * 9 + m % 10 = code + 1 :=
      ⟨m / 10 * 9 + m % 10 - 1, by omega⟩
    have middle : UInt64.ofNat (m / 10) * 9 + UInt64.ofNat (m % 10) - 1 = UInt64.ofNat code := by
      have sum : UInt64.ofNat (m / 10) * 9 + UInt64.ofNat (m % 10) = UInt64.ofNat code + 1 := by
        change UInt64.ofNat (m / 10) * UInt64.ofNat 9 + UInt64.ofNat (m % 10) =
          UInt64.ofNat code + UInt64.ofNat 1
        rw [← ofNat_mul, ← ofNat_add, ← ofNat_add, codeEq]
      rw [sum, UInt64.add_sub_cancel]
    rw [quot, remainder, digit, middle, codeEq, Nat.add_sub_cancel, ofNat_add, ofNat_add, ofNat_mul]
    rfl
  next long =>
    obtain ⟨code, rfl⟩ : ∃ code, m = code + 1 := ⟨m - 1, by omega⟩
    rw [Nat.add_sub_cancel, ofNat_add code, ofNat_add (1 + code * 10), ofNat_add 1, ofNat_mul]
    change Except.ok (1 + (UInt64.ofNat code + 1 - 1) * 10 + 9) = _
    rw [UInt64.add_sub_cancel]
    rfl

theorem toNat_appendZeros {e : Nat} (exact : n.toNat * 10 ^ e < 2 ^ 64) :
    (appendZeros e n).toNat = n.toNat * 10 ^ e := by
  induction e generalizing n with
  | zero => simp [appendZeros]
  | succ e ih =>
    have power : 0 < 10 ^ e := Nat.pow_pos (by decide)
    rw [Nat.pow_succ, Nat.mul_comm (10 ^ e), ← Nat.mul_assoc] at exact ⊢
    have product : (n * 10).toNat = n.toNat * 10 := by
      rw [UInt64.toNat_mul]
      exact mod_eq_of_lt (lt_of_le_of_lt (Nat.le_mul_of_pos_right _ power) exact)
    rw [← product] at exact ⊢
    exact ih exact

theorem toNat_decompressAmount {x : UInt64} (exact : decodedAmount x.toNat < 2 ^ 64) :
    (decompressAmount x).toNat = decodedAmount x.toNat := by
  rw [decompressAmount]
  by_cases zero : x = 0
  · rw [if_pos zero, zero]
    rfl
  · have nonzero : x.toNat ≠ 0 := fun isZero => zero (UInt64.toNat_inj.mp isZero)
    have oneLe : (1 : UInt64) ≤ x := le_iff_toNat_le.mpr (one_le_iff_ne_zero.mpr nonzero)
    have less : (x - 1).toNat = x.toNat - 1 := UInt64.toNat_sub_of_le x 1 oneLe
    have exponent : ((x - 1) % 10).toNat = (x.toNat - 1) % 10 := by
      rw [UInt64.toNat_mod, less]
      rfl
    have quot : ((x - 1) / 10).toNat = (x.toNat - 1) / 10 := by
      rw [UInt64.toNat_div, less]
      rfl
    rw [decodedAmount, if_neg nonzero] at exact ⊢
    have digitsSmall : decodedDigits x.toNat < 2 ^ 64 :=
      lt_of_le_of_lt (Nat.le_mul_of_pos_right _ (Nat.pow_pos (by decide))) exact
    have digits : (if (x - 1) % 10 < 9 then (x - 1) / 10 / 9 * 10 + ((x - 1) / 10 % 9 + 1)
        else (x - 1) / 10 + 1).toNat = decodedDigits x.toNat := by
      have shortIff : (x - 1) % 10 < 9 ↔ (x.toNat - 1) % 10 < 9 := by
        rw [lt_iff_toNat_lt, exponent]
        rfl
      rw [decodedDigits] at digitsSmall ⊢
      by_cases short : (x.toNat - 1) % 10 < 9
      · rw [if_pos (shortIff.mpr short)]
        rw [if_pos short] at digitsSmall ⊢
        simp only [UInt64.toNat_add, UInt64.toNat_mul, UInt64.toNat_div, UInt64.toNat_mod, less,
          UInt64.reduceToNat]
        omega
      · rw [if_neg (fun less => short (shortIff.mp less))]
        rw [if_neg short] at digitsSmall ⊢
        rw [UInt64.toNat_add, quot]
        exact mod_eq_of_lt digitsSmall
    rw [if_neg zero]
    dsimp only
    rw [exponent, toNat_appendZeros (by rw [digits]; exact exact), digits]

/-- Decompressing an amount and compressing it again gives the number back, unless the amount
does not fit. -/
theorem compressAmount_decompressAmount {x : UInt64} (exact : decodedAmount x.toNat < 2 ^ 64) :
    compressAmount (decompressAmount x) = .ok x := by
  have value := toNat_decompressAmount exact
  by_cases zero : x = 0
  · rw [zero]
    rfl
  · have nonzero : x.toNat ≠ 0 := fun isZero => zero (UInt64.toNat_inj.mp isZero)
    obtain ⟨stripped, encoded⟩ := encodedAmount_decodedDigits (pos_of_ne_zero nonzero)
    rw [decodedAmount, if_neg nonzero] at value
    rw [compressAmount_eq stripped value, encoded, UInt64.ofNat_toNat]

theorem decompressAmount_compressAmount (limit : n.toNat ≤ 2100000000000000) :
    ∃ x, compressAmount n = .ok x ∧ decompressAmount x = n := by
  by_cases zero : n = 0
  · exact ⟨0, by rw [zero]; rfl, by rw [zero]; rfl⟩
  · obtain ⟨more, moreLe, exponent, value, stripped⟩ := stripZeros_spec 9 n 0
    have nonzero : 0 < n.toNat := pos_of_ne_zero fun isZero => zero (UInt64.toNat_inj.mp isZero)
    generalize (stripZeros 9 n 0).1.toNat = m at value stripped
    have amount : Stripped m more := by
      refine ⟨?_, moreLe, stripped⟩
      rw [value] at nonzero
      exact Nat.pos_of_mul_pos_right nonzero
    have digitsLimit : m ≤ n.toNat := by
      rw [value]
      exact Nat.le_mul_of_pos_right m (Nat.pow_pos (by decide))
    have small : encodedAmount m more < 2 ^ 64 := by
      rw [encodedAmount]
      split
      · omega
      · omega
    have encodedNat : (UInt64.ofNat (encodedAmount m more)).toNat = encodedAmount m more :=
      toNat_ofNat_of_lt' small
    have decoded := decodedAmount_encodedAmount amount
    refine ⟨_, compressAmount_eq amount value, UInt64.toNat_inj.mp ?_⟩
    rw [toNat_decompressAmount, encodedNat, decoded, value]
    rw [encodedNat, decoded, ← value]
    omega

/-! ## Variable-length integers -/

/-- The flagged groups after which the loop of `ReadVarInt` stands at a number. -/
def groupsRead (n : Nat) : List UInt8 :=
  if n = 0 then [] else varIntGroups (n - 1) 0x80

theorem varIntGroups_eq (n : Nat) (flag : UInt8) :
    varIntGroups n flag = groupsRead (n / 128) ++ [(n % 128).toUInt8 ||| flag] := by
  rw [varIntGroups, groupsRead]
  by_cases small : n ≤ 0x7f
  · have one : n / 128 = 0 := by omega
    rw [if_pos small, if_pos one, mod_eq_of_lt (by omega), nil_append]
  · rw [if_neg small, if_neg (by omega)]

theorem readUInt8_cons (byte : UInt8) (rest : List UInt8) :
    (readUInt8 : Stream UInt8) ⟨byte :: rest⟩ = .ok (byte, ⟨rest⟩) :=
  (recognizes_readUInt8 _ _ _).mpr ⟨[byte], ⟨rfl, trivial⟩, prefix_append [byte] rest, rfl⟩

variable {group : Nat}

theorem flaggedGroup (bound : group < 128) :
    (group.toUInt8 ||| 0x80) &&& 0x80 ≠ 0 ∧ ((group.toUInt8 ||| 0x80) &&& 0x7f).toNat = group := by
  have all : ∀ group : Fin 128, (group.val.toUInt8 ||| 0x80) &&& 0x80 ≠ 0 ∧
      ((group.val.toUInt8 ||| 0x80) &&& 0x7f).toNat = group.val := by decide +kernel
  exact all ⟨group, bound⟩

theorem lastGroup (bound : group < 128) :
    (group.toUInt8 ||| 0) &&& 0x80 = 0 ∧ ((group.toUInt8 ||| 0) &&& 0x7f).toNat = group := by
  have all : ∀ group : Fin 128, (group.val.toUInt8 ||| 0) &&& 0x80 = 0 ∧
      ((group.val.toUInt8 ||| 0) &&& 0x7f).toNat = group.val := by decide +kernel
  exact all ⟨group, bound⟩

theorem readVarIntFrom_flagged {bits n group : Nat} (bound : group < 128)
    (fits : n * 128 + group < 2 ^ bits - 1) (rest : List UInt8) :
    readVarIntFrom bits n ⟨(group.toUInt8 ||| 0x80) :: rest⟩ =
      readVarIntFrom bits (n * 128 + group + 1) ⟨rest⟩ := by
  obtain ⟨flagged, value⟩ := flaggedGroup bound
  have notLarge : ¬(2 ^ bits - 1) / 128 < n := by omega
  rw [readVarIntFrom, bind_of_ok (readUInt8_cons _ rest), if_neg notLarge, if_pos flagged,
    value, if_neg (Nat.ne_of_lt fits)]

theorem readVarIntFrom_last {bits n group : Nat} (bound : group < 128)
    (fits : n * 128 + group < 2 ^ bits) (rest : List UInt8) :
    readVarIntFrom bits n ⟨(group.toUInt8 ||| 0) :: rest⟩ = .ok (n * 128 + group, ⟨rest⟩) := by
  obtain ⟨last, value⟩ := lastGroup bound
  have notLarge : ¬(2 ^ bits - 1) / 128 < n := by omega
  rw [readVarIntFrom, bind_of_ok (readUInt8_cons _ rest), if_neg notLarge,
    if_neg (fun flagged => flagged last), value]
  rfl

theorem readVarIntFrom_groupsRead {bits n : Nat} (fits : n < 2 ^ bits) (rest : List UInt8) :
    readVarIntFrom bits 0 ⟨groupsRead n ++ rest⟩ = readVarIntFrom bits n ⟨rest⟩ := by
  induction n using Nat.strongRecOn generalizing rest with
  | ind n ih =>
    by_cases first : n = 0
    · rw [first]
      rfl
    · have whole : (n - 1) / 128 * 128 + (n - 1) % 128 = n - 1 := div_add_mod' (n - 1) 128
      rw [groupsRead, if_neg first, varIntGroups_eq, append_assoc, ih _ (by omega) (by omega),
        singleton_append, readVarIntFrom_flagged (mod_lt _ (by decide)) (by omega), whole,
        Nat.sub_add_cancel (by omega)]

theorem readVarInt_writeVarInt {bits n : Nat} (fits : n < 2 ^ bits) (rest : List UInt8) :
    readVarInt bits ⟨writeVarInt n ++ rest⟩ = .ok (n, ⟨rest⟩) := by
  have whole : n / 128 * 128 + n % 128 = n := div_add_mod' n 128
  rw [readVarInt, writeVarInt, varIntGroups_eq, append_assoc,
    readVarIntFrom_groupsRead (by omega), singleton_append,
    readVarIntFrom_last (mod_lt n (by decide)) (by omega), whole]

theorem eq_group_or_flag (byte : UInt8) :
    byte = (byte &&& 0x7f).toNat.toUInt8 ||| (if byte &&& 0x80 ≠ 0 then 0x80 else 0) ∧
      (byte &&& 0x7f).toNat < 128 := by
  have all : ∀ byte : Fin 256, UInt8.ofFin byte = (UInt8.ofFin byte &&& 0x7f).toNat.toUInt8 |||
      (if UInt8.ofFin byte &&& 0x80 ≠ 0 then 0x80 else 0) ∧
        (UInt8.ofFin byte &&& 0x7f).toNat < 128 := by decide +kernel
  exact all byte.toFin

theorem groupsRead_append (n : Nat) (bound : group < 128) (flag : UInt8) :
    groupsRead n ++ [group.toUInt8 ||| flag] = varIntGroups (n * 128 + group) flag := by
  have quot : (n * 128 + group) / 128 = n := by omega
  have remainder : (n * 128 + group) % 128 = group := by omega
  rw [varIntGroups_eq, quot, remainder]

/-- Whatever the loop accepts, the bytes before and the bytes it takes are those that
`WriteVarInt` writes for the result. -/
theorem readVarIntFrom_eq_ok {bits n value : Nat} (wide : 7 ≤ bits) {bytes rest : List UInt8}
    (read : readVarIntFrom bits n ⟨bytes⟩ = .ok (value, ⟨rest⟩)) :
    value < 2 ^ bits ∧ groupsRead n ++ bytes = writeVarInt value ++ rest := by
  induction bytes generalizing n with
  | nil =>
    rw [readVarIntFrom] at read
    cases read
  | cons byte bytes ih =>
    obtain ⟨group, bound⟩ := eq_group_or_flag byte
    have pos := Nat.two_pow_pos bits
    obtain ⟨high, power⟩ := pow_dvd_pow 2 wide
    rw [readVarIntFrom, bind_of_ok (readUInt8_cons byte bytes)] at read
    rw [append_cons]
    nth_rewrite 1 [group]
    split at read
    · cases read
    · split at read
      next flagged =>
        split at read
        · cases read
        · rw [if_pos flagged, groupsRead_append n bound]
          exact ih read
      next last =>
        cases read
        rw [if_neg last, groupsRead_append n bound]
        exact ⟨by omega, rfl⟩

/-- `VarInt` is a canonical code: what is written is read back, what is read was written so, and
what would be written for a larger number is rejected. -/
structure CanonicalVarInt (bits : Nat) : Prop where
  roundTrip : ∀ n < 2 ^ bits, ∀ rest, readVarInt bits ⟨writeVarInt n ++ rest⟩ = .ok (n, ⟨rest⟩)
  canonical : ∀ bytes n rest, readVarInt bits ⟨bytes⟩ = .ok (n, ⟨rest⟩) →
    n < 2 ^ bits ∧ bytes = writeVarInt n ++ rest
  rejects : ∀ n, 2 ^ bits ≤ n → ∀ rest,
    ∃ failure, readVarInt bits ⟨writeVarInt n ++ rest⟩ = .error failure

theorem canonicalVarInt {bits : Nat} (wide : 7 ≤ bits) : CanonicalVarInt bits := by
  refine ⟨fun n fits => readVarInt_writeVarInt fits, fun _ _ _ => readVarIntFrom_eq_ok wide, ?_⟩
  intro n large rest
  cases read : readVarInt bits ⟨writeVarInt n ++ rest⟩ with
  | error failure => exact ⟨failure, rfl⟩
  | ok result =>
    obtain ⟨fits, same⟩ := readVarIntFrom_eq_ok wide read
    -- The same bytes, read at a width that holds both numbers, stand for both.
    have below : n < 2 ^ n := Nat.lt_two_pow_self
    have again := readVarInt_writeVarInt (Nat.lt_trans (Nat.lt_of_lt_of_le fits large) below)
      result.2.bytes
    rw [groupsRead, if_pos rfl, nil_append] at same
    rw [← same, readVarInt_writeVarInt below, Except.ok.injEq, Prod.mk.injEq] at again
    omega

theorem canonicalVarInt_uint64_uint32 : CanonicalVarInt 64 ∧ CanonicalVarInt 32 :=
  ⟨canonicalVarInt (by decide), canonicalVarInt (by decide)⟩

/-! ## Scripts -/

/-- Decompression gives back every fully valid uncompressed key from its compressed form. -/
def PubKeys.DecompressInverts (keys : PubKeys) : Prop :=
  ∀ key : List UInt8, key.length = 65 → key.getD 0 0 = 4 → keys.isFullyValid key = true →
    keys.decompress ((2 ||| (key.getD 64 0 &&& 1)) :: (key.drop 1).take 32) = some key

theorem take_drop_of_getElem? {part : List UInt8} {start : Nat}
    (found : ∀ entry ∈ part.zipIdx start, bytes[entry.2]? = some entry.1) :
    (bytes.drop start).take part.length = part := by
  induction part generalizing start with
  | nil => rw [length_nil, take_zero]
  | cons first part ih =>
    rw [zipIdx_cons, forall_mem_cons] at found
    obtain ⟨inside, here⟩ := List.getElem?_eq_some_iff.mp found.1
    rw [drop_eq_getElem_cons inside, here, length_cons, take_succ_cons, ih found.2]

theorem eq_front_middle_back {front back : List UInt8} {middle : Nat}
    (length : script.length = front.length + middle + back.length)
    (isFront : ∀ entry ∈ front.zipIdx, script[entry.2]? = some entry.1)
    (isBack : ∀ entry ∈ back.zipIdx (front.length + middle), script[entry.2]? = some entry.1) :
    script = front ++ (script.drop front.length).take middle ++ back := by
  have first := take_drop_of_getElem? isFront
  have last := take_drop_of_getElem? isBack
  rw [take_of_length_le (by rw [length_drop]; omega), ← drop_drop] at last
  have later := take_append_drop middle (script.drop front.length)
  have whole := take_append_drop front.length script
  rw [drop_zero] at first
  rw [last] at later
  rw [← later, first] at whole
  rw [append_assoc, whole]

theorem writeVarInt_small {n : Nat} (small : n ≤ 0x7f) : writeVarInt n = [n.toUInt8] := by
  rw [writeVarInt, varIntGroups, if_pos small, UInt8.or_zero]

/-- What a compressed script says: a number below six and bytes that give the script back. -/
def Restores (keys : PubKeys) (script compr : List UInt8) : Prop :=
  ∃ nSize < nSpecialScripts, ∃ body, compr = writeVarInt nSize ++ body ∧
    body.length = getSpecialScriptSize nSize ∧ decompressScript keys nSize body = some script

/-- A script that is stored by the bytes in its middle. -/
theorem restores_of_shape {nSize : Nat} (middle : Nat) (front back : List UInt8)
    (special : nSize < nSpecialScripts) (size : getSpecialScriptSize nSize = middle)
    (length : script.length = front.length + middle + back.length)
    (isFront : ∀ entry ∈ front.zipIdx, script[entry.2]? = some entry.1)
    (isBack : ∀ entry ∈ back.zipIdx (front.length + middle), script[entry.2]? = some entry.1)
    (decompressed : ∀ body, decompressScript keys nSize body =
      some (front ++ body.take middle ++ back)) :
    Restores keys script (nSize.toUInt8 :: (script.drop front.length).take middle) := by
  refine ⟨nSize, special, (script.drop front.length).take middle, ?_, ?_, ?_⟩
  · rw [writeVarInt_small (le_of_lt (Nat.lt_trans special (by decide)))]
    rfl
  · rw [length_take, length_drop, size]
    omega
  · rw [decompressed, take_take, min_self, ← eq_front_middle_back length isFront isBack]

theorem restores_keyID {keyID : List UInt8} (found : isToKeyID script = some keyID) :
    Restores keys script (0 :: keyID) := by
  rw [isToKeyID] at found
  split at found
  next shape =>
    obtain ⟨length, dup, hash, push, verify, check⟩ := shape
    cases found
    apply restores_of_shape 20 [Opcode.opDup, opHash160, 20]
      [opEqualVerify, opCheckSig] (by decide) rfl length
    · simp [dup, hash, push]
    · simp [verify, check]
    · exact fun _ => rfl
  next => cases found

theorem restores_scriptID {scriptID : List UInt8} (found : isToScriptID script = some scriptID) :
    Restores keys script (1 :: scriptID) := by
  rw [isToScriptID] at found
  split at found
  next shape =>
    obtain ⟨length, hash, push, eq⟩ := shape
    cases found
    apply restores_of_shape 20 [opHash160, 20] [Opcode.opEqual] (by decide) rfl length
    · simp [hash, push]
    · simp [eq]
    · exact fun _ => rfl
  next => cases found

theorem restores_compressedKey {sign : Nat} (isSign : sign = 2 ∨ sign = 3)
    (length : script.length = 35) (push : script[0]? = some 33)
    (check : script[34]? = some opCheckSig) (first : script[1]? = some sign.toUInt8) :
    Restores keys script (sign.toUInt8 :: (script.drop 2).take 32) := by
  have isFront : ∀ entry ∈ [33, sign.toUInt8].zipIdx, script[entry.2]? = some entry.1 := by
    simp [push, first]
  have isBack : ∀ entry ∈ [opCheckSig].zipIdx 34, script[entry.2]? = some entry.1 := by
    simp [check]
  rcases isSign with rfl | rfl
  · exact restores_of_shape 32 _ _ (by decide) rfl length isFront isBack fun _ => rfl
  · exact restores_of_shape 32 _ _ (by decide) rfl length isFront isBack fun _ => rfl

/-- A full key is stored by its abscissa and the parity of its ordinate. -/
theorem restores_fullKey (inverts : keys.DecompressInverts) (length : script.length = 67)
    (push : script[0]? = some 65) (check : script[66]? = some opCheckSig)
    (first : script[1]? = some 4) (valid : keys.isFullyValid ((script.drop 1).take 65) = true) :
    Restores keys script ((4 ||| (((script.drop 1).take 65).getD 64 0 &&& 1)) ::
      (((script.drop 1).take 65).drop 1).take 32) := by
  have whole : script = [65] ++ (script.drop 1).take 65 ++ [opCheckSig] :=
    eq_front_middle_back length (by simp [push]) (by simp [check])
  have keyLength : ((script.drop 1).take 65).length = 65 := by
    rw [length_take, length_drop, length]
    rfl
  have keyFirst : ((script.drop 1).take 65).getD 0 0 = 4 := by
    rw [getD_eq_getElem?_getD, getElem?_take_of_lt (by decide), getElem?_drop, first]
    rfl
  generalize (script.drop 1).take 65 = key at valid whole keyLength keyFirst ⊢
  have decompressed := inverts key keyLength keyFirst valid
  have size : ((key.drop 1).take 32).length = 32 := by
    rw [length_take, length_drop, keyLength]
    rfl
  have parity : key.getD 64 0 &&& 1 = 0 ∨ key.getD 64 0 &&& 1 = 1 := by
    have all : ∀ byte : Fin 256, UInt8.ofFin byte &&& 1 = 0 ∨ UInt8.ofFin byte &&& 1 = 1 := by
      decide +kernel
    exact all (key.getD 64 0).toFin
  have stored (nSize : Nat) (special : nSize = 4 ∨ nSize = 5)
      (restored : decompressScript keys nSize ((key.drop 1).take 32) =
        (some key).map fun full => [65] ++ full ++ [opCheckSig]) :
      Restores keys script (nSize.toUInt8 :: (key.drop 1).take 32) := by
    rw [whole]
    refine ⟨nSize, ?_, _, ?_, ?_, restored⟩
    · rw [nSpecialScripts]
      omega
    · rw [writeVarInt_small (by omega)]
      rfl
    · rw [size]
      rcases special with rfl | rfl <;> rfl
  rcases parity with even | odd
  · rw [even] at decompressed ⊢
    apply stored 4 (Or.inl rfl)
    rw [decompressScript, take_take, min_self, ← decompressed]
    rfl
  · rw [odd] at decompressed ⊢
    apply stored 5 (Or.inr rfl)
    rw [decompressScript, take_take, min_self, ← decompressed]
    rfl

theorem restores_pubKey (inverts : keys.DecompressInverts) {pubkey compr : List UInt8}
    (found : isToPubKey keys script = some pubkey) (compressed : compressKey pubkey = some compr) :
    Restores keys script compr := by
  rw [isToPubKey] at found
  split at found
  next shape =>
    obtain ⟨length, push, check, sign⟩ := shape
    cases found
    have key : ((script.drop 1).take 33).getD 0 0 = (script[1]?).getD 0 := by
      rw [getD_eq_getElem?_getD, getElem?_take_of_lt (by decide), getElem?_drop]
    have abscissa : (((script.drop 1).take 33).drop 1).take 32 = (script.drop 2).take 32 := by
      rw [drop_take, drop_drop, take_take]
      rfl
    rw [compressKey, key, abscissa] at compressed
    rcases sign with two | three
    · rw [two, Option.getD_some, if_pos (Or.inl rfl)] at compressed
      cases compressed
      exact restores_compressedKey (Or.inl rfl) length push check two
    · rw [three, Option.getD_some, if_pos (Or.inr rfl)] at compressed
      cases compressed
      exact restores_compressedKey (Or.inr rfl) length push check three
  next =>
    split at found
    next shape =>
      obtain ⟨length, push, check, four, valid⟩ := shape
      cases found
      have key : ((script.drop 1).take 65).getD 0 0 = 4 := by
        rw [getD_eq_getElem?_getD, getElem?_take_of_lt (by decide), getElem?_drop, four]
        rfl
      rw [compressKey, key, if_neg (by decide), if_pos rfl] at compressed
      cases compressed
      exact restores_fullKey inverts length push check four valid
    next => cases found

theorem restores_compressScript (inverts : keys.DecompressInverts) {compr : List UInt8}
    (compressed : compressScript keys script = some compr) :
    Restores keys script compr := by
  rw [compressScript] at compressed
  split at compressed
  next keyID found =>
    cases compressed
    exact restores_keyID found
  next =>
    split at compressed
    next scriptID found =>
      cases compressed
      exact restores_scriptID found
    next =>
      obtain ⟨pubkey, found, compressedKey⟩ := Option.bind_eq_some_iff.mp compressed
      exact restores_pubKey inverts found compressedKey

theorem read_append (bytes rest : List UInt8) :
    ByteReader.read bytes.length ⟨bytes ++ rest⟩ = .ok (bytes, ⟨rest⟩) := by
  simp [ByteReader.read]

theorem unserializeScript_serializeScript (inverts : keys.DecompressInverts) {script : CScript}
    (limit : script.length ≤ maxScriptSize) (before : CScript) (rest : List UInt8) :
    unserializeScript keys before ⟨serializeScript keys script ++ rest⟩ = .ok (script, ⟨rest⟩) := by
  rw [serializeScript, unserializeScript]
  split
  next compr compressed =>
    obtain ⟨nSize, special, body, rfl, size, restored⟩ := restores_compressScript inverts compressed
    rw [append_assoc, bind_of_ok (readVarInt_writeVarInt _ _), if_pos special, ← size,
      bind_of_ok (read_append _ _), restored]
    · rfl
    · have few : nSpecialScripts < 2 ^ 32 := by decide
      omega
  next =>
    have length : (script.length + nSpecialScripts) % 2 ^ 32 = script.length + nSpecialScripts := by
      apply mod_eq_of_lt
      rw [nSpecialScripts]
      rw [maxScriptSize] at limit
      omega
    rw [length, append_assoc, bind_of_ok (readVarInt_writeVarInt _ _), if_neg,
      Nat.add_sub_cancel, if_neg (Nat.not_lt.mpr limit), read_append]
    · exact Nat.not_lt.mpr (Nat.le_add_left _ _)
    · rw [← length]
      exact mod_lt _ (by decide)

/-! ## Outputs -/

theorem unserializeTxOut_serializeTxOut (inverts : keys.DecompressInverts) {txout : CTxOut}
    (range : moneyRange txout.nValue = true) (limit : txout.scriptPubKey.length ≤ maxScriptSize)
    (before : CScript) (rest : List UInt8) :
    ∃ bytes, serializeTxOut keys txout = .ok bytes ∧
      unserializeTxOut keys before ⟨bytes ++ rest⟩ = .ok (txout, ⟨rest⟩) := by
  obtain ⟨nonneg, maximum⟩ := moneyRange_iff.mp range
  have amountLimit : txout.nValue.toUInt64.toNat ≤ 2100000000000000 := by
    have signed : txout.nValue.toInt =
        if 2 * txout.nValue.toUInt64.toNat < 2 ^ 64 then (txout.nValue.toUInt64.toNat : Int)
        else (txout.nValue.toUInt64.toNat : Int) - (2 ^ 64 : Nat) :=
      BitVec.toInt_eq_toNat_cond txout.nValue.toBitVec
    have small := UInt64.toNat_lt txout.nValue.toUInt64
    split at signed
    · omega
    · omega
  obtain ⟨amount, compressed, decompressed⟩ := decompressAmount_compressAmount amountLimit
  refine ⟨writeVarInt amount.toNat ++ serializeScript keys txout.scriptPubKey, ?_, ?_⟩
  · rw [serializeTxOut, compressed]
    rfl
  · rw [unserializeTxOut, append_assoc,
      bind_of_ok (readVarInt_writeVarInt (UInt64.toNat_lt amount) _),
      bind_of_ok (unserializeScript_serializeScript inverts limit before rest),
      UInt64.ofNat_toNat, decompressed]
    rfl

/-- Outputs survive the compression, and so do the numbers that stand for amounts of 64 bits. -/
theorem txOutCompression_roundTrip : (∀ keys : PubKeys, keys.DecompressInverts → ∀ txout : CTxOut,
      moneyRange txout.nValue = true → txout.scriptPubKey.length ≤ maxScriptSize →
      ∀ (before : CScript) (rest : List UInt8), ∃ bytes, serializeTxOut keys txout = .ok bytes ∧
        unserializeTxOut keys before ⟨bytes ++ rest⟩ = .ok (txout, ⟨rest⟩)) ∧
    ∀ x : UInt64, decodedAmount x.toNat < 2 ^ 64 → compressAmount (decompressAmount x) = .ok x := by
  constructor
  · intro keys inverts txout range limit before rest
    exact unserializeTxOut_serializeTxOut inverts range limit before rest
  · intro x exact
    exact compressAmount_decompressAmount exact

/-- The point of secp256k1 whose coordinate `x` has the bytes 01, with even `y`. -/
def fullKey : List UInt8 :=
  4 :: replicate 32 1 ++
    [0x4d, 0x1f, 0xd6, 0xa5, 0xf1, 0xa2, 0xcb, 0xd8, 0x53, 0x6c, 0xf7, 0x02, 0x61, 0x1b,
      0x75, 0x35, 0x57, 0xb0, 0x84, 0x1c, 0xa6, 0xb3, 0x27, 0xf3, 0x3c, 0x53, 0x19, 0x03,
      0xca, 0x1a, 0x94, 0x28]

/-- The keys restricted to that point. -/
def singleKey : PubKeys where
  isFullyValid key := key == fullKey
  decompress key := if key = 2 :: replicate 32 1 then some fullKey else none
  decompress_length := by
    intro key full found
    split at found
    · cases found
      rfl
    · cases found

theorem decompressInverts_singleKey : singleKey.DecompressInverts := by
  intro key length first valid
  obtain rfl : key = fullKey := eq_of_beq valid
  decide +kernel

/-- Fifty coins paid to the full key, and the number that stands for them. -/
theorem txOutCompression_roundTrip_fullKey :
    (∃ bytes, serializeTxOut singleKey ⟨5000000000, 65 :: fullKey ++ [0xac]⟩ = .ok bytes ∧
      unserializeTxOut singleKey [] ⟨bytes ++ [7]⟩ =
        .ok (⟨5000000000, 65 :: fullKey ++ [0xac]⟩, ⟨[7]⟩)) ∧
      compressAmount (decompressAmount 50) = .ok 50 := by
  refine ⟨txOutCompression_roundTrip.1 singleKey decompressInverts_singleKey
    ⟨5000000000, 65 :: fullKey ++ [0xac]⟩ (by decide) (by decide) [] [7],
    txOutCompression_roundTrip.2 50 (by decide)⟩

end Compression

end Champy
