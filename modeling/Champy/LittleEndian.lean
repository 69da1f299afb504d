import Mathlib.Tactic.Common
import Mathlib.Tactic.Ring

/-!
# Numbers written least significant byte first

The two directions of the little-endian form, for any width.  Words of a fixed
width and strings of that many bytes correspond one to one.

The file names nothing of any particular program.
-/

namespace Champy

/-- The number written in the given bytes, least significant byte first. -/
def readLE (bytes : List UInt8) : Nat :=
  bytes.foldr (fun byte rest => byte.toNat + 256 * rest) 0

/-- The low bytes of a number, least significant byte first. -/
def writeLE : Nat → Nat → List UInt8
  | 0, _ => []
  | width + 1, value => UInt8.ofNat value :: writeLE width (value / 256)

@[simp]
theorem readLE_nil : readLE [] = 0 :=
  rfl

@[simp]
theorem readLE_cons (byte : UInt8) (bytes : List UInt8) :
    readLE (byte :: bytes) = byte.toNat + 256 * readLE bytes :=
  rfl

@[simp]
theorem length_writeLE (width value : Nat) : (writeLE width value).length = width := by
  induction width generalizing value with
  | zero => rfl
  | succ width ih => rw [writeLE, List.length_cons, ih]

theorem readLE_lt (bytes : List UInt8) : readLE bytes < 256 ^ bytes.length := by
  induction bytes with
  | nil => decide
  | cons byte bytes ih =>
    have small := byte.toNat_lt
    rw [readLE_cons, List.length_cons, Nat.pow_succ]
    omega

theorem readLE_writeLE {width value : Nat} (bound : value < 256 ^ width) :
    readLE (writeLE width value) = value := by
  induction width generalizing value with
  | zero =>
    rw [Nat.pow_zero] at bound
    rw [writeLE, readLE_nil]
    omega
  | succ width ih =>
    rw [Nat.pow_succ] at bound
    have quot : value / 256 < 256 ^ width := by omega
    rw [writeLE, readLE_cons, ih quot, UInt8.toNat_ofNat']
    omega

theorem writeLE_readLE (bytes : List UInt8) : writeLE bytes.length (readLE bytes) = bytes := by
  induction bytes with
  | nil => rfl
  | cons byte bytes ih =>
    have small := byte.toNat_lt
    have quot : (byte.toNat + 256 * readLE bytes) / 256 = readLE bytes := by omega
    have low : UInt8.ofNat (byte.toNat + 256 * readLE bytes) = byte := by
      apply UInt8.toNat_inj.mp
      rw [UInt8.toNat_ofNat']
      omega
    rw [List.length_cons, readLE_cons, writeLE, quot, ih, low]

end Champy
