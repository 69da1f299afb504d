import Champy.CoreSerialization
import Champy.Scripts

/-!
# Compressed outputs

The coin database stores an output as a compressed amount and a compressed script.  The amount
loses its trailing zeros, up to nine of them, and its last digit.  Scripts that pay to a key hash,
to a script hash or to a public key are stored as a number below six and the bytes that differ;
for all other scripts the length is stored, raised by six.  Both numbers are variable-length
integers of seven bits per byte, the highest group first.

Parsing and decompressing points of the curve is a parameter.
-/

namespace Champy

namespace Opcode

def opDup : UInt8 := 0x76

def opEqualVerify : UInt8 := 0x88

end Opcode

namespace Compression

open Consensus Opcode ByteReader

/-! ## Amounts -/

/-- `while (((n % 10) == 0) && e < 9)`, where `left` is `9 - e`. -/
def stripZeros : (left : Nat) → UInt64 → Nat → UInt64 × Nat
  | 0, n, e => (n, e)
  | left + 1, n, e => if n % 10 = 0 then stripZeros left (n / 10) (e + 1) else (n, e)

def compressAmount (n : UInt64) : Exec Empty UInt64 :=
  if n = 0 then pure 0
  else
    let stripped := stripZeros 9 n 0
    if stripped.2 < 9 then do
      let d := stripped.1 % 10
      Exec.assertThat (1 ≤ d && d ≤ 9)
      pure (1 + (stripped.1 / 10 * 9 + d - 1) * 10 + stripped.2.toUInt64)
    else pure (1 + (stripped.1 - 1) * 10 + 9)

/-- `while (e) n *= 10`. -/
def appendZeros : (e : Nat) → UInt64 → UInt64
  | 0, n => n
  | e + 1, n => appendZeros e (n * 10)

def decompressAmount (x : UInt64) : UInt64 :=
  if x = 0 then 0
  else
    let x := x - 1
    let e := x % 10
    let x := x / 10
    let n := if e < 9 then x / 9 * 10 + (x % 9 + 1) else x + 1
    appendZeros e.toNat n

/-! ## Variable-length integers -/

/-- The groups of seven bits, the highest first.  All but the last one carry the flag. -/
def varIntGroups (n : Nat) (flag : UInt8) : List UInt8 :=
  if n ≤ 0x7f then [n.toUInt8 ||| flag]
  else varIntGroups (n / 128 - 1) 0x80 ++ [(n % 128).toUInt8 ||| flag]
  termination_by n
  decreasing_by omega

def writeVarInt (n : Nat) : List UInt8 :=
  varIntGroups n 0

/-- The loop of `ReadVarInt` for an unsigned type of the given width. -/
def readVarIntFrom (bits : Nat) (n : Nat) : Stream Nat := do
  let chData ← readUInt8
  if (2 ^ bits - 1) / 128 < n then fail "ReadVarInt(): size too large"
  else if chData &&& 0x80 ≠ 0 then
    if n * 128 + (chData &&& 0x7f).toNat = 2 ^ bits - 1 then
      fail "ReadVarInt(): size too large"
    else readVarIntFrom bits (n * 128 + (chData &&& 0x7f).toNat + 1)
  else pure (n * 128 + (chData &&& 0x7f).toNat)
  termination_by 2 ^ bits - n
  decreasing_by
    have positive := Nat.two_pow_pos bits
    omega

def readVarInt (bits : Nat) : Stream Nat :=
  readVarIntFrom bits 0

/-! ## Scripts -/

/-- What the compression asks of public keys. -/
structure PubKeys where
  isFullyValid : List UInt8 → Bool
  decompress : List UInt8 → Option (List UInt8)
  decompress_length : ∀ key full, decompress key = some full → full.length = 65

variable (keys : PubKeys) (script : CScript)

def isToKeyID : Option (List UInt8) :=
  if script.length = 25 ∧ script[0]? = some Opcode.opDup ∧ script[1]? = some opHash160 ∧
      script[2]? = some 20 ∧ script[23]? = some Opcode.opEqualVerify ∧
      script[24]? = some opCheckSig then
    some ((script.drop 3).take 20)
  else none

def isToScriptID : Option (List UInt8) :=
  if script.length = 23 ∧ script[0]? = some opHash160 ∧ script[1]? = some 20 ∧
      script[22]? = some opEqual then
    some ((script.drop 2).take 20)
  else none

/-- The key of a script that pays to a compressed key, or to a fully valid uncompressed one. -/
def isToPubKey : Option (List UInt8) :=
  if script.length = 35 ∧ script[0]? = some 33 ∧ script[34]? = some opCheckSig ∧
      (script[1]? = some 2 ∨ script[1]? = some 3) then
    some ((script.drop 1).take 33)
  else if script.length = 67 ∧ script[0]? = some 65 ∧ script[66]? = some opCheckSig ∧
      script[1]? = some 4 ∧ keys.isFullyValid ((script.drop 1).take 65) then
    some ((script.drop 1).take 65)
  else none

/-- The type byte and the abscissa of a key. -/
def compressKey (pubkey : List UInt8) : Option (List UInt8) :=
  let first := pubkey.getD 0 0
  if first = 2 ∨ first = 3 then some (first :: (pubkey.drop 1).take 32)
  else if first = 4 then some ((4 ||| (pubkey.getD 64 0 &&& 1)) :: (pubkey.drop 1).take 32)
  else none

def compressScript : Option (List UInt8) :=
  match isToKeyID script with
  | some keyID => some (0 :: keyID)
  | none =>
    match isToScriptID script with
    | some scriptID => some (1 :: scriptID)
    | none => (isToPubKey keys script).bind compressKey

def getSpecialScriptSize (nSize : Nat) : Nat :=
  if nSize = 0 ∨ nSize = 1 then 20
  else if nSize = 2 ∨ nSize = 3 ∨ nSize = 4 ∨ nSize = 5 then 32
  else 0

def decompressScript (nSize : Nat) (bytes : List UInt8) : Option CScript :=
  match nSize with
  | 0 =>
    some ([Opcode.opDup, opHash160, 20] ++ bytes.take 20 ++ [Opcode.opEqualVerify, opCheckSig])
  | 1 => some ([opHash160, 20] ++ bytes.take 20 ++ [opEqual])
  | 2 => some ([33, 2] ++ bytes.take 32 ++ [opCheckSig])
  | 3 => some ([33, 3] ++ bytes.take 32 ++ [opCheckSig])
  | 4 =>
    (keys.decompress (2 :: bytes.take 32)).map fun full => [65] ++ full ++ [opCheckSig]
  | 5 =>
    (keys.decompress (3 :: bytes.take 32)).map fun full => [65] ++ full ++ [opCheckSig]
  | _ => none

def nSpecialScripts : Nat := 6

def serializeScript : List UInt8 :=
  match compressScript keys script with
  | some compr => compr
  | none => writeVarInt ((script.length + nSpecialScripts) % 2 ^ 32) ++ script

/-- Reads over the script that is there, which stays when a key cannot be decompressed. -/
def unserializeScript : Stream CScript := do
  let nSize ← readVarInt 32
  if nSize < nSpecialScripts then
    let vch ← read (getSpecialScriptSize nSize)
    pure ((decompressScript keys nSize vch).getD script)
  else if maxScriptSize < nSize - nSpecialScripts then
    let _ ← read (nSize - nSpecialScripts)
    pure (script ++ [opReturn])
  else read (nSize - nSpecialScripts)

/-! ## Outputs -/

def serializeTxOut (txout : CTxOut) : Exec Empty (List UInt8) := do
  let amount ← compressAmount txout.nValue.toUInt64
  pure (writeVarInt amount.toNat ++ serializeScript keys txout.scriptPubKey)

def unserializeTxOut : Stream CTxOut := do
  let amount ← readVarInt 64
  let scriptPubKey ← unserializeScript keys script
  pure ⟨(decompressAmount (UInt64.ofNat amount)).toInt64, scriptPubKey⟩

end Compression

end Champy
