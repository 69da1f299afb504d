import Champy.ScriptValues

/-!
# Encodings of signatures and public keys

The checks that `EvalScript` makes on a signature and a public key before it calls the
signature checker, and the removal of a signature from the script that it signs.  Whether an
`S` value is low is decided by the elliptic curve library and is a parameter.
-/

namespace Champy

/-! ## Verification flags -/

def hasFlag (flags flag : ScriptVerifyFlags) : Bool :=
  flags &&& flag != 0

def scriptVerifyStrictEnc : ScriptVerifyFlags := (1 : UInt64) <<< 1

def scriptVerifyDerSig : ScriptVerifyFlags := (1 : UInt64) <<< 2

def scriptVerifyLowS : ScriptVerifyFlags := (1 : UInt64) <<< 3

def scriptVerifyNullDummy : ScriptVerifyFlags := (1 : UInt64) <<< 4

def scriptVerifySigPushOnly : ScriptVerifyFlags := (1 : UInt64) <<< 5

def scriptVerifyMinimalData : ScriptVerifyFlags := (1 : UInt64) <<< 6

def scriptVerifyDiscourageUpgradableNops : ScriptVerifyFlags := (1 : UInt64) <<< 7

def scriptVerifyCleanStack : ScriptVerifyFlags := (1 : UInt64) <<< 8

def scriptVerifyCheckLockTimeVerify : ScriptVerifyFlags := (1 : UInt64) <<< 9

def scriptVerifyCheckSequenceVerify : ScriptVerifyFlags := (1 : UInt64) <<< 10

def scriptVerifyDiscourageUpgradableWitnessProgram : ScriptVerifyFlags := (1 : UInt64) <<< 12

def scriptVerifyMinimalIf : ScriptVerifyFlags := (1 : UInt64) <<< 13

def scriptVerifyNullFail : ScriptVerifyFlags := (1 : UInt64) <<< 14

def scriptVerifyWitnessPubkeyType : ScriptVerifyFlags := (1 : UInt64) <<< 15

def scriptVerifyConstScriptCode : ScriptVerifyFlags := (1 : UInt64) <<< 16

def scriptVerifyTaproot : ScriptVerifyFlags := (1 : UInt64) <<< 17

def scriptVerifyDiscourageUpgradableTaprootVersion : ScriptVerifyFlags := (1 : UInt64) <<< 18

def scriptVerifyDiscourageOpSuccess : ScriptVerifyFlags := (1 : UInt64) <<< 19

def scriptVerifyDiscourageUpgradablePubkeyType : ScriptVerifyFlags := (1 : UInt64) <<< 20

inductive SigVersion
  | base
  | witnessV0
  | taproot
  | tapscript
  deriving DecidableEq, Repr

/-! ## Public keys -/

def compressedPubkeySize : Nat := 33

def pubkeySize : Nat := 65

def isCompressedOrUncompressedPubKey (vchPubKey : List UInt8) : Bool :=
  if vchPubKey.length < compressedPubkeySize then false
  else if vchPubKey.head? == some 0x04 then vchPubKey.length == pubkeySize
  else if vchPubKey.head? == some 0x02 || vchPubKey.head? == some 0x03 then
    vchPubKey.length == compressedPubkeySize
  else false

def isCompressedPubKey (vchPubKey : List UInt8) : Bool :=
  vchPubKey.length == compressedPubkeySize &&
    (vchPubKey.head? == some 0x02 || vchPubKey.head? == some 0x03)

def checkPubKeyEncoding (vchPubKey : List UInt8) (flags : ScriptVerifyFlags)
    (sigversion : SigVersion) : Exec ScriptError Unit := do
  Exec.ensure (!(hasFlag flags scriptVerifyStrictEnc &&
    !isCompressedOrUncompressedPubKey vchPubKey)) .pubkeyType
  Exec.ensure (!(hasFlag flags scriptVerifyWitnessPubkeyType && sigversion == .witnessV0 &&
    !isCompressedPubKey vchPubKey)) .witnessPubkeyType

/-! ## Signatures -/

/-- Every byte that is read exists: the sizes are compared before. -/
def isValidSignatureEncoding (sig : List UInt8) : Bool :=
  let byte (index : Nat) : UInt8 := sig.getD index 0
  let lenR := (byte 3).toNat
  let lenS := (byte (5 + lenR)).toNat
  if sig.length < 9 then false
  else if sig.length > 73 then false
  else if byte 0 != 0x30 then false
  else if (byte 1).toNat != sig.length - 3 then false
  else if 5 + lenR ≥ sig.length then false
  else if lenR + lenS + 7 != sig.length then false
  else if byte 2 != 0x02 then false
  else if lenR == 0 then false
  else if byte 4 &&& 0x80 != 0 then false
  else if lenR > 1 && byte 4 == 0x00 && byte 5 &&& 0x80 == 0 then false
  else if byte (lenR + 4) != 0x02 then false
  else if lenS == 0 then false
  else if byte (lenR + 6) &&& 0x80 != 0 then false
  else if lenS > 1 && byte (lenR + 6) == 0x00 && byte (lenR + 7) &&& 0x80 == 0 then false
  else true

/-- `IsLowDERSignature`, on the signature without its hash type. -/
def isLowDERSignature (checkLowS : List UInt8 → Bool) (vchSig : List UInt8) :
    Exec ScriptError Unit := do
  Exec.ensure (isValidSignatureEncoding vchSig) .sigDer
  Exec.ensure (checkLowS vchSig.dropLast) .sigHighS

def isDefinedHashtypeSignature (vchSig : List UInt8) : Bool :=
  match vchSig.getLast? with
  | none => false
  | some last =>
    let nHashType := last &&& 0x7f
    1 ≤ nHashType && nHashType ≤ 3

def checkLowSEncoding (checkLowS : List UInt8 → Bool) (vchSig : List UInt8)
    (flags : ScriptVerifyFlags) : Exec ScriptError Unit :=
  if hasFlag flags scriptVerifyLowS then isLowDERSignature checkLowS vchSig else pure ()

def checkSignatureEncoding (checkLowS : List UInt8 → Bool) (vchSig : List UInt8)
    (flags : ScriptVerifyFlags) : Exec ScriptError Unit :=
  if vchSig.isEmpty then pure ()
  else do
    Exec.ensure (!(hasFlag flags (scriptVerifyDerSig ||| scriptVerifyLowS ||| scriptVerifyStrictEnc) &&
      !isValidSignatureEncoding vchSig)) .sigDer
    checkLowSEncoding checkLowS vchSig flags
    Exec.ensure (!(hasFlag flags scriptVerifyStrictEnc && !isDefinedHashtypeSignature vchSig))
      .sigHashtype

/-! ## Removal of signatures -/

/-- The inner loop of `FindAndDelete`: how often a script starts with another, and the rest. -/
def skipRepeated (b : CScript) (script : CScript) : Nat × CScript :=
  if found : b ≠ [] ∧ b <+: script then
    let rest := skipRepeated b (script.drop b.length)
    (rest.1 + 1, rest.2)
  else (0, script)
  termination_by script.length
  decreasing_by
    have positive := List.length_pos_iff.mpr found.1
    have bound := found.2.length_le
    rw [List.length_drop]
    omega

theorem length_skipRepeated_le (b script : CScript) :
    (skipRepeated b script).2.length ≤ script.length := by
  fun_induction skipRepeated b script with
  | case1 script found rest ih =>
    rw [List.length_drop] at ih
    exact Nat.le_trans ih (Nat.sub_le _ _)
  | case2 script missing => exact Nat.le_refl _

theorem length_getOperandSize_le {opcode : UInt8} {rest after : CScript} {size : Nat}
    (read : getOperandSize opcode rest = some (size, after)) : after.length ≤ rest.length := by
  rw [getOperandSize] at read
  split at read
  · cases read
    exact Nat.le_refl _
  · dsimp only at read
    generalize (if opcode = Opcode.opPushData1 then 1
      else if opcode = Opcode.opPushData2 then 2 else 4) = width at read
    rcases Nat.lt_or_ge rest.length width with short | long
    · rw [if_pos short] at read
      cases read
    · rw [if_neg (Nat.not_lt.mpr long)] at read
      cases read
      rw [List.length_drop]
      exact Nat.sub_le _ _

theorem length_getScriptOp_lt {script rest : CScript} {opcode : UInt8} {data : List UInt8}
    (read : getScriptOp script = some (opcode, data, rest)) : rest.length < script.length := by
  cases script with
  | nil => cases read
  | cons byte bytes =>
    rw [getScriptOp] at read
    split at read
    · cases operand : getOperandSize byte bytes with
      | none =>
        rw [operand] at read
        cases read
      | some sized =>
        rw [operand] at read
        dsimp only at read
        split at read
        · cases read
        · cases read
          have shorter := length_getOperandSize_le operand
          rw [List.length_drop, List.length_cons]
          omega
    · cases read
      exact Nat.lt_succ_self _

/-- The outer loop of `FindAndDelete`: the number of removals and what stays. -/
def findAndDeleteFrom (b : CScript) (script : CScript) : Nat × CScript :=
  let skipped := skipRepeated b script
  match _read : getScriptOp skipped.2 with
  | none => skipped
  | some (_, _, rest) =>
    let later := findAndDeleteFrom b rest
    (skipped.1 + later.1, skipped.2.take (skipped.2.length - rest.length) ++ later.2)
  termination_by script.length
  decreasing_by
    exact Nat.lt_of_lt_of_le (length_getScriptOp_lt _read) (length_skipRepeated_le b script)

def findAndDelete (script b : CScript) : Nat × CScript :=
  if b.isEmpty then (0, script)
  else
    let found := findAndDeleteFrom b script
    if found.1 > 0 then found else (0, script)

end Champy
