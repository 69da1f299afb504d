import Champy.Scripts

/-!
# Values on the script stack

What the interpreter knows about the byte strings it works on: their truth value, the numbers
they encode, and how a push of them is written.
-/

namespace Champy

/-- `ScriptError`, without the value for success. -/
inductive ScriptError
  | unknownError
  | evalFalse
  | opReturn
  | scriptNum
  | scriptSize
  | pushSize
  | opCount
  | stackSize
  | sigCount
  | pubkeyCount
  | verify
  | equalVerify
  | checkMultiSigVerify
  | checkSigVerify
  | numEqualVerify
  | badOpcode
  | disabledOpcode
  | invalidStackOperation
  | invalidAltstackOperation
  | unbalancedConditional
  | negativeLocktime
  | unsatisfiedLocktime
  | sigHashtype
  | sigDer
  | minimalData
  | sigPushOnly
  | sigHighS
  | sigNullDummy
  | pubkeyType
  | cleanStack
  | minimalIf
  | sigNullFail
  | discourageUpgradableNops
  | discourageUpgradableWitnessProgram
  | discourageUpgradableTaprootVersion
  | discourageOpSuccess
  | discourageUpgradablePubkeyType
  | witnessProgramWrongLength
  | witnessProgramWitnessEmpty
  | witnessProgramMismatch
  | witnessMalleated
  | witnessMalleatedP2SH
  | witnessUnexpected
  | witnessPubkeyType
  | schnorrSigSize
  | schnorrSigHashtype
  | schnorrSig
  | taprootWrongControlSize
  | tapscriptValidationWeight
  | tapscriptCheckMultiSig
  | tapscriptMinimalIf
  | tapscriptEmptyPubkey
  | opCodeSeparator
  | sigFindAndDelete
  deriving DecidableEq, Repr

def maxScriptElementSize : Nat := 520

def maxOpsPerScript : Nat := 201

def maxStackSize : Nat := 1000

def castToBool : List UInt8 → Bool
  | [] => false
  | byte :: bytes =>
    -- the sign bit alone is a negative zero
    if byte != 0 then !(bytes.isEmpty && byte == 0x80) else castToBool bytes

def vchFalse : List UInt8 := []

def vchTrue : List UInt8 := [1]

def ofBool (value : Bool) : List UInt8 :=
  if value then vchTrue else vchFalse

/-! ## Numbers -/

/-- `CScriptNum::set_vch`, for at most eight bytes. -/
def setVch (vch : List UInt8) : Int :=
  match vch.getLast? with
  | none => 0
  | some last =>
    if last &&& 0x80 != 0 then -((readLE vch % (0x80 * 256 ^ (vch.length - 1)) : Nat) : Int)
    else readLE vch

def isMinimallyEncoded (vch : List UInt8) : Bool :=
  match vch.reverse with
  | [] => true
  | [last] => last &&& 0x7f != 0
  | last :: second :: _ => last &&& 0x7f != 0 || second &&& 0x80 != 0

/-- The constructor of `CScriptNum` from bytes.  The exception it throws is caught at the end
of `EvalScript`. -/
def scriptNum (requireMinimal : Bool) (vch : List UInt8) (maxNumSize : Nat) :
    Exec ScriptError Int := do
  Exec.ensure (vch.length ≤ maxNumSize) .scriptNum
  Exec.ensure (!requireMinimal || isMinimallyEncoded vch) .scriptNum
  pure (setVch vch)

def defaultMaxNumSize : Nat := 4

def getInt (value : Int) : Int :=
  max (-2 ^ 31) (min value (2 ^ 31 - 1))

/-- The loop of `CScriptNum::serialize` over the magnitude that is left. -/
def scriptNumMagnitude (absvalue : Nat) : List UInt8 :=
  if 0 < absvalue then UInt8.ofNat (absvalue % 256) :: scriptNumMagnitude (absvalue / 256) else []

/-- The end of `serialize`: the sign of a number that is not zero. -/
def withSign (negative : Bool) (magnitude : List UInt8) : List UInt8 :=
  match magnitude.getLast? with
  | none => []
  | some last =>
    if last &&& 0x80 != 0 then magnitude ++ [if negative then 0x80 else 0]
    else if negative then magnitude.dropLast ++ [last ||| 0x80]
    else magnitude

def scriptNumSerialize (value : Int64) : List UInt8 :=
  let negative : Bool := value < 0
  withSign negative (scriptNumMagnitude (if negative then -value else value).toUInt64.toNat)

/-- A number that fits in 64 bits, as every result of an opcode does. -/
def serializeNum (value : Int) : List UInt8 :=
  scriptNumSerialize (Int64.ofInt value)

/-! ## Pushes -/

def appendDataSize (size : Nat) : CScript :=
  if size < Opcode.opPushData1.toNat then [UInt8.ofNat size]
  else if size ≤ 0xff then [Opcode.opPushData1, UInt8.ofNat size]
  else if size ≤ 0xffff then Opcode.opPushData2 :: writeLE 2 size
  else Opcode.opPushData4 :: writeLE 4 size

/-- A script that pushes some bytes.  The size is converted to an `uint32_t`. -/
def pushScript (data : List UInt8) : CScript :=
  appendDataSize (data.length % 2 ^ 32) ++ data

def checkMinimalPush (data : List UInt8) (opcode : UInt8) : Bool :=
  match data with
  | [] => opcode == Opcode.op0
  | [byte] =>
    if 1 ≤ byte && byte ≤ 16 then false
    else if byte == 0x81 then false
    else opcode.toNat == 1
  | _ =>
    if data.length ≤ 75 then opcode.toNat == data.length
    else if data.length ≤ 255 then opcode == Opcode.opPushData1
    else if data.length ≤ 65535 then opcode == Opcode.opPushData2
    else true

end Champy
