import Champy.LittleEndian
import Champy.Primitives

/-!
# Script inspection and signature operation counts

The parts of the script interpreter that block validation needs without
executing a script: reading one operation, counting signature operations, and
recognising unspendable, pay-to-script-hash and witness programs.
-/

namespace Champy

namespace Opcode

def op0 : UInt8 := 0x00

def opPushData1 : UInt8 := 0x4c

def opPushData2 : UInt8 := 0x4d

def opPushData4 : UInt8 := 0x4e

def op1 : UInt8 := 0x51

def op16 : UInt8 := 0x60

def opReturn : UInt8 := 0x6a

def opEqual : UInt8 := 0x87

def opHash160 : UInt8 := 0xa9

def opCheckSig : UInt8 := 0xac

def opCheckSigVerify : UInt8 := 0xad

def opCheckMultiSig : UInt8 := 0xae

def opCheckMultiSigVerify : UInt8 := 0xaf

def opInvalidOpcode : UInt8 := 0xff

end Opcode

def maxScriptSize : Nat := 10000

def maxPubkeysPerMultisig : UInt32 := 20

def scriptVerifyP2SH : ScriptVerifyFlags := (1 : UInt64) <<< 0

def scriptVerifyWitness : ScriptVerifyFlags := (1 : UInt64) <<< 11

/-- The size of the immediate operand of an opcode and the bytes after the
size field, or nothing when the size field is cut off. -/
def getOperandSize (opcode : UInt8) (rest : CScript) : Option (Nat × CScript) :=
  if opcode < Opcode.opPushData1 then some (opcode.toNat, rest)
  else
    let width := if opcode = Opcode.opPushData1 then 1
      else if opcode = Opcode.opPushData2 then 2 else 4
    if rest.length < width then none else some (readLE (rest.take width), rest.drop width)

/-- `GetScriptOp`: the next opcode, the data it pushes and the remaining
bytes. -/
def getScriptOp : CScript → Option (UInt8 × List UInt8 × CScript)
  | [] => none
  | opcode :: rest =>
    if opcode ≤ Opcode.opPushData4 then
      match getOperandSize opcode rest with
      | none => none
      | some (size, rest) =>
        if rest.length < size then none else some (opcode, rest.take size, rest.drop size)
    else some (opcode, [], rest)

/-- The operations read by repeated `GetOp` calls, and whether the whole script
was read.  One step consumes at least one byte. -/
def readScriptOps : Nat → CScript → List (UInt8 × List UInt8) × Bool
  | _, [] => ([], true)
  | 0, _ :: _ => ([], false)
  | fuel + 1, script =>
    match getScriptOp script with
    | none => ([], false)
    | some (opcode, data, rest) =>
      let tail := readScriptOps fuel rest
      ((opcode, data) :: tail.1, tail.2)

def scriptOps (script : CScript) : List (UInt8 × List UInt8) × Bool :=
  readScriptOps script.length script

/-- `DecodeOP_N` on an opcode between `OP_1` and `OP_16`. -/
def decodeOpN (opcode : UInt8) : UInt32 :=
  opcode.toUInt32 - (Opcode.op1.toUInt32 - 1)

def isSmallMultisigCount (opcode : UInt8) : Bool :=
  Opcode.op1 ≤ opcode && opcode ≤ Opcode.op16

/-- The loop of `GetSigOpCount(fAccurate)` over the operations of a script. -/
def countSigOps (accurate : Bool) : List (UInt8 × List UInt8) → UInt8 → UInt32 → UInt32
  | [], _, count => count
  | (opcode, _) :: ops, lastOpcode, count =>
    let added : UInt32 :=
      if opcode = Opcode.opCheckSig || opcode = Opcode.opCheckSigVerify then 1
      else if opcode = Opcode.opCheckMultiSig || opcode = Opcode.opCheckMultiSigVerify then
        if accurate && isSmallMultisigCount lastOpcode then decodeOpN lastOpcode
        else maxPubkeysPerMultisig
      else 0
    countSigOps accurate ops opcode (count + added)

def getSigOpCount (script : CScript) (accurate : Bool) : UInt32 :=
  countSigOps accurate (scriptOps script).1 Opcode.opInvalidOpcode 0

def isUnspendable (script : CScript) : Bool :=
  script.head? == some Opcode.opReturn || maxScriptSize < script.length

def isPayToScriptHash (script : CScript) : Bool :=
  script.length == 23 && script[0]? == some Opcode.opHash160 && script[1]? == some 0x14 &&
    script[22]? == some Opcode.opEqual

def isPushOnly (script : CScript) : Bool :=
  let ops := scriptOps script
  ops.2 && ops.1.all fun op => op.1 ≤ Opcode.op16

/-- The data pushed by the last operation of a script. -/
def lastPushedData (script : CScript) : List UInt8 :=
  ((scriptOps script).1.getLast?.map Prod.snd).getD []

/-- `GetSigOpCount(scriptSig)`: the signature operations of the redeem script
of a pay-to-script-hash output. -/
def getScriptHashSigOpCount (scriptPubKey scriptSig : CScript) : UInt32 :=
  if isPayToScriptHash scriptPubKey then
    if isPushOnly scriptSig then getSigOpCount (lastPushedData scriptSig) true else 0
  else getSigOpCount scriptPubKey true

structure WitnessProgram where
  version : Nat
  program : List UInt8
  deriving DecidableEq, Repr

def isWitnessProgram (script : CScript) : Option WitnessProgram :=
  match script with
  | first :: size :: program =>
    if script.length < 4 || 42 < script.length then none
    else if first != Opcode.op0 && (first < Opcode.op1 || Opcode.op16 < first) then none
    else if size.toNat + 2 = script.length then
      some ⟨if first = Opcode.op0 then 0 else (decodeOpN first).toNat, program⟩
    else none
  | _ => none

def witnessSigOps (program : WitnessProgram) (witness : List (List UInt8)) : Nat :=
  if program.version = 0 then
    if program.program.length = 20 then 1
    else if program.program.length = 32 then
      match witness.getLast? with
      | some script => (getSigOpCount script true).toNat
      | none => 0
    else 0
  else 0

def countWitnessSigOps {ε : Type} (scriptSig scriptPubKey : CScript)
    (witness : List (List UInt8)) (flags : ScriptVerifyFlags) : Exec ε Nat :=
  if (flags &&& scriptVerifyWitness) = 0 then pure 0
  else do
    Exec.assertThat ((flags &&& scriptVerifyP2SH) != 0)
    match isWitnessProgram scriptPubKey with
    | some program => pure (witnessSigOps program witness)
    | none =>
      if isPayToScriptHash scriptPubKey && isPushOnly scriptSig then
        match isWitnessProgram (lastPushedData scriptSig) with
        | some program => pure (witnessSigOps program witness)
        | none => pure 0
      else pure 0

/-- `Consensus::GetLegacySigOpCount`, with the wrapping additions of an
`unsigned int`. -/
def getLegacySigOpCount (tx : CTransaction) : UInt32 :=
  let inputs := tx.vin.foldl (fun count txin => count + getSigOpCount txin.scriptSig false) 0
  tx.vout.foldl (fun count txout => count + getSigOpCount txout.scriptPubKey false) inputs

end Champy
