import Champy.ByteFormats
import Champy.Primitives

/-!
# Words, hashes and compact sizes on the wire

The fixed-width integers and the variable-length sizes that both codecs of the
repository read and write.  A size is written in the shortest of four forms, the
longer three behind a marker byte.  The two codecs check the shortest form in their
own ways; `recognizes_compactSize` needs only that each long form refuses what a shorter
one could hold.
-/

namespace Champy

/-! ## Writing -/

def writeUInt32 (value : UInt32) : List UInt8 :=
  writeLE 4 value.toNat

def writeInt32 (value : Int32) : List UInt8 :=
  writeLE 4 value.toUInt32.toNat

def writeInt64 (value : Int64) : List UInt8 :=
  writeLE 8 value.toUInt64.toNat

/-- The 32 bytes of a hash. -/
def hashBytes (hash : Uint256) : List UInt8 :=
  writeLE 32 hash.toNat

def writeCompactSize (value : Nat) : List UInt8 :=
  if value < 253 then [UInt8.ofNat value]
  else if value ≤ 0xffff then 253 :: writeLE 2 value
  else if value ≤ 0xffffffff then 254 :: writeLE 4 value
  else 255 :: writeLE 8 value

/-- A size and that many bytes: a script, or one item of a witness. -/
def writeSizedBytes (bytes : List UInt8) : List UInt8 :=
  writeCompactSize bytes.length ++ bytes

theorem writeCompactSize_ne_nil (value : Nat) : writeCompactSize value ≠ [] := by
  rw [writeCompactSize]
  split
  · exact List.cons_ne_nil _ _
  · split
    · exact List.cons_ne_nil _ _
    · split <;> exact List.cons_ne_nil _ _

theorem length_writeCompactSize_pos (value : Nat) : 1 ≤ (writeCompactSize value).length :=
  List.length_pos_of_ne_nil (writeCompactSize_ne_nil value)

theorem length_writeSizedBytes_pos (bytes : List UInt8) : 1 ≤ (writeSizedBytes bytes).length := by
  have size := length_writeCompactSize_pos bytes.length
  rw [writeSizedBytes, List.length_append]
  omega

/-! ## Reading -/

section Readers

variable {σ ε : Type} [ByteSource σ ε]

/-- A little-endian number, converted to the integer type that the caller asks for. -/
def readLittle {α : Type} (width : Nat) (ofNat : Nat → α) : Reader σ ε α := do
  let bytes ← ByteSource.read width
  pure (ofNat (readLE bytes))

def readUInt8 : Reader σ ε UInt8 :=
  readLittle 1 UInt8.ofNat

def readUInt32 : Reader σ ε UInt32 :=
  readLittle 4 UInt32.ofNat

def readInt32 : Reader σ ε Int32 :=
  readLittle 4 fun number => (UInt32.ofNat number).toInt32

def readInt64 : Reader σ ε Int64 :=
  readLittle 8 fun number => (UInt64.ofNat number).toInt64

def readHash : Reader σ ε Uint256 :=
  readLittle 32 (BitVec.ofNat 256)

open Reader

theorem recognizes_readLittle {α : Type} {width : Nat} {ofNat : Nat → α} {toNat : α → Nat}
    (bound : ∀ value, toNat value < 256 ^ width) (ofNat_toNat : ∀ value, ofNat (toNat value) = value)
    (toNat_ofNat : ∀ num, num < 256 ^ width → toNat (ofNat num) = num) :
    Recognizes (readLittle width ofNat : Reader σ ε α)
      (Encoded (fun value => writeLE width (toNat value)) fun _ => True) :=
  recognizes_fixedWidth (fixedWidth_littleEndian bound ofNat_toNat toNat_ofNat)

theorem recognizes_readNat (width : Nat) : Recognizes (readLittle width id : Reader σ ε Nat)
      (Encoded (writeLE width) fun value => value < 256 ^ width) := by
  apply ((recognizes_read width).map readLE).congr
  intro value bytes
  constructor
  · rintro ⟨read, ⟨rfl, rfl⟩, rfl⟩
    exact ⟨(writeLE_readLE bytes).symm, readLE_lt bytes⟩
  · rintro ⟨rfl, bound⟩
    exact ⟨writeLE width value, ⟨rfl, length_writeLE width value⟩, (readLE_writeLE bound).symm⟩

theorem recognizes_readUInt8 :
    Recognizes (readUInt8 : Reader σ ε UInt8) (Encoded (fun byte => [byte]) fun _ => True) := by
  have little : Recognizes (readUInt8 : Reader σ ε UInt8)
      (Encoded (fun byte => writeLE 1 byte.toNat) fun _ => True) :=
    recognizes_readLittle UInt8.toNat_lt (fun _ => UInt8.ofNat_toNat)
      fun _ => UInt8.toNat_ofNat_of_lt'
  apply little.congr
  intro byte bytes
  simp [Encoded, writeLE]

theorem recognizes_readUInt32 :
    Recognizes (readUInt32 : Reader σ ε UInt32) (Encoded writeUInt32 fun _ => True) :=
  recognizes_readLittle UInt32.toNat_lt (fun _ => UInt32.ofNat_toNat)
    fun _ => UInt32.toNat_ofNat_of_lt'

theorem recognizes_readInt32 :
    Recognizes (readInt32 : Reader σ ε Int32) (Encoded writeInt32 fun _ => True) :=
  recognizes_readLittle (fun value => UInt32.toNat_lt value.toUInt32)
    (fun _ => by rw [UInt32.ofNat_toNat, Int32.toInt32_toUInt32])
    fun _ bound => by rw [UInt32.toUInt32_toInt32, UInt32.toNat_ofNat_of_lt' bound]

theorem recognizes_readInt64 :
    Recognizes (readInt64 : Reader σ ε Int64) (Encoded writeInt64 fun _ => True) :=
  recognizes_readLittle (fun value => UInt64.toNat_lt value.toUInt64)
    (fun _ => by rw [UInt64.ofNat_toNat, Int64.toInt64_toUInt64])
    fun _ bound => by rw [UInt64.toUInt64_toInt64, UInt64.toNat_ofNat_of_lt' bound]

theorem recognizes_readHash :
    Recognizes (readHash : Reader σ ε Uint256) (Encoded hashBytes fun _ => True) :=
  recognizes_readLittle (fun hash => by exact hash.isLt) (fun hash => BitVec.ofNat_toNat 256 hash)
    fun num bound => by
      rw [BitVec.toNat_ofNat]
      exact Nat.mod_eq_of_lt bound

/-- A long form of a compact size, which refuses what a shorter form could hold. -/
theorem recognizes_longCompactSize {fail : Reader σ ε Nat}
    (fails : ∀ start, ∃ error, fail start = .error error) (width minimum : Nat) :
    Recognizes (readLittle width id >>= fun value =>
        if minimum ≤ value then pure value else fail)
      (Encoded (writeLE width) fun value => minimum ≤ value ∧ value < 256 ^ width) := by
  apply ((recognizes_readNat width).bindEncoded fun value _ =>
    (recognizes_pure value).guarded fails).congr
  intro value bytes
  constructor
  · rintro ⟨value', after, bound, ⟨large, rfl, rfl⟩, rfl⟩
    exact ⟨List.append_nil _, large, bound⟩
  · rintro ⟨rfl, large, bound⟩
    exact ⟨value, [], bound, ⟨large, rfl, rfl⟩, (List.append_nil _).symm⟩

/-- The marker byte chooses the form, whatever the long forms do with what they refuse. -/
theorem recognizes_compactSize {two four eight : Reader σ ε Nat} (recognizesTwo : Recognizes two
      (Encoded (writeLE 2) fun value => 253 ≤ value ∧ value < 256 ^ 2))
    (recognizesFour : Recognizes four
      (Encoded (writeLE 4) fun value => 0x10000 ≤ value ∧ value < 256 ^ 4))
    (recognizesEight : Recognizes eight
      (Encoded (writeLE 8) fun value => 0x100000000 ≤ value ∧ value < 256 ^ 8)) :
    Recognizes (readUInt8 >>= fun first =>
        if first < 253 then pure first.toNat
        else if first = 253 then two else if first = 254 then four else eight)
      (Encoded writeCompactSize fun value => value < 2 ^ 64) := by
  apply (recognizes_readUInt8.bindEncoded fun first _ =>
    Recognizes.ite (fun _ => recognizes_pure first.toNat) fun _ =>
      Recognizes.ite (fun _ => recognizesTwo) fun _ =>
        Recognizes.ite (fun _ => recognizesFour) fun _ => recognizesEight).congr
  intro value bytes
  constructor
  · rintro ⟨first, after, -, ⟨small, rfl, rfl⟩ | ⟨notSmall, ⟨rfl, rfl, low, high⟩ |
      ⟨notTwo, ⟨rfl, rfl, low, high⟩ | ⟨notFour, rfl, low, high⟩⟩⟩, rfl⟩
    · have bound : first.toNat < 253 := small
      rw [Encoded, writeCompactSize, if_pos bound, UInt8.ofNat_toNat]
      exact ⟨rfl, by omega⟩
    · rw [Encoded, writeCompactSize, if_neg (by omega), if_pos (by omega)]
      exact ⟨rfl, by omega⟩
    · rw [Encoded, writeCompactSize, if_neg (by omega), if_neg (by omega), if_pos (by omega)]
      exact ⟨rfl, by omega⟩
    · have last : first = 255 := by
        have large : ¬first.toNat < 253 := notSmall
        have notThree : first.toNat ≠ 253 := fun same => notTwo (UInt8.toNat_inj.mp same)
        have notFive : first.toNat ≠ 254 := fun same => notFour (UInt8.toNat_inj.mp same)
        have bound := first.toNat_lt
        apply UInt8.toNat_inj.mp
        change first.toNat = 255
        omega
      rw [Encoded, writeCompactSize, if_neg (by omega), if_neg (by omega), if_neg (by omega), last]
      exact ⟨rfl, high⟩
  · rintro ⟨rfl, bound⟩
    rw [writeCompactSize]
    split
    next small =>
      have sizeEq : (UInt8.ofNat value).toNat = value :=
        UInt8.toNat_ofNat_of_lt' (Nat.lt_trans small (by decide))
      have short : UInt8.ofNat value < 253 := by
        change (UInt8.ofNat value).toNat < 253
        omega
      exact ⟨UInt8.ofNat value, [], trivial, Or.inl ⟨short, sizeEq.symm, rfl⟩, rfl⟩
    next notSmall =>
      split
      next two =>
        exact ⟨253, writeLE 2 value, trivial,
          Or.inr ⟨by decide, Or.inl ⟨rfl, rfl, by omega, by omega⟩⟩, rfl⟩
      next notTwo =>
        split
        next four =>
          exact ⟨254, writeLE 4 value, trivial, Or.inr ⟨by decide, Or.inr ⟨by decide,
            Or.inl ⟨rfl, rfl, by omega, by omega⟩⟩⟩, rfl⟩
        next notFour =>
          exact ⟨255, writeLE 8 value, trivial, Or.inr ⟨by decide, Or.inr ⟨by decide,
            Or.inr ⟨by decide, rfl, by omega, by omega⟩⟩⟩, rfl⟩

end Readers

end Champy
