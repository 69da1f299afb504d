import Champy.SignatureEncodings
import Champy.TracedExecution

/-!
# The script interpreter

`EvalScript` with all of its opcodes.  Stacks have their top first.  A failed call returns
`false` and sets an error; here it rejects with that error.  The call also leaves its stack
argument changed when it fails, which no caller looks at.

The hash functions and the signature checker are parameters.  A run records each call of
`CheckECDSASignature`.
-/

namespace Champy

open Exec

structure ScriptExecutionData where
  tapleafHashInit : Bool := false
  tapleafHash : List UInt8 := []
  codeseparatorPosInit : Bool := false
  codeseparatorPos : UInt32 := 0
  annexInit : Bool := false
  annexPresent : Bool := false
  annexHash : List UInt8 := []
  validationWeightLeftInit : Bool := false
  validationWeightLeft : Int := 0
  outputHash : Option (List UInt8) := none
  deriving DecidableEq, Repr

/-- `BaseSignatureChecker`.  A Schnorr check that fails says with which error, and one that
passes may change the execution data. -/
structure SignatureChecker where
  checkECDSASignature : List UInt8 → List UInt8 → CScript → SigVersion → Bool
  checkSchnorrSignature : List UInt8 → List UInt8 → SigVersion → ScriptExecutionData →
    Except ScriptError ScriptExecutionData
  checkLockTime : Int → Bool
  checkSequence : Int → Bool

structure ScriptCrypto where
  ripemd160 : List UInt8 → List UInt8
  sha1 : List UInt8 → List UInt8
  sha256 : List UInt8 → List UInt8
  tapleafHasher : List UInt8 → List UInt8
  tapbranchHasher : List UInt8 → List UInt8
  checkLowS : List UInt8 → Bool
  checkTapTweak : List UInt8 → List UInt8 → List UInt8 → Bool → Bool

/-- The arguments of a call of `CheckECDSASignature`. -/
structure SignatureQuery where
  sig : List UInt8
  pubkey : List UInt8
  scriptCode : CScript
  sigversion : SigVersion

abbrev ScriptRun : Type → Type := Traced SignatureQuery ScriptError

/-! ## The stack of conditions -/

/-- `ConditionStack`: the size of the stack and where its first `false` is. -/
structure ConditionStack where
  stackSize : UInt32 := 0
  firstFalsePos : UInt32 := 0xffffffff
  deriving DecidableEq, Repr

namespace ConditionStack

def noFalse : UInt32 := 0xffffffff

variable (conditions : ConditionStack)

def isEmpty : Bool :=
  conditions.stackSize == 0

def allTrue : Bool :=
  conditions.firstFalsePos == noFalse

def pushBack (value : Bool) : ConditionStack where
  stackSize := conditions.stackSize + 1
  firstFalsePos :=
    if conditions.firstFalsePos == noFalse && !value then conditions.stackSize
    else conditions.firstFalsePos

def popBack : Exec ScriptError ConditionStack := do
  assertThat (conditions.stackSize > 0)
  let stackSize := conditions.stackSize - 1
  pure ⟨stackSize,
    if conditions.firstFalsePos == stackSize then noFalse else conditions.firstFalsePos⟩

def toggleTop : Exec ScriptError ConditionStack := do
  assertThat (conditions.stackSize > 0)
  pure { conditions with
    firstFalsePos :=
      if conditions.firstFalsePos == noFalse then conditions.stackSize - 1
      else if conditions.firstFalsePos == conditions.stackSize - 1 then noFalse
      else conditions.firstFalsePos }

end ConditionStack

/-! ## Opcodes -/

/-- Opcodes that only move stack elements. -/
inductive StackOpcode
  | opToAltStack | opFromAltStack | op2Drop | op2Dup | op3Dup | op2Over | op2Rot | op2Swap
  | opIfDup | opDepth | opDrop | opDup | opNip | opOver | opRot | opSwap | opTuck | opSize
  deriving DecidableEq, Repr

inductive UnaryOpcode
  | op1Add | op1Sub | opNegate | opAbs | opNot | op0NotEqual
  deriving DecidableEq, Repr

inductive BinaryOpcode
  | opAdd | opSub | opBoolAnd | opBoolOr | opNumEqual | opNumEqualVerify | opNumNotEqual
  | opLessThan | opGreaterThan | opLessThanOrEqual | opGreaterThanOrEqual | opMin | opMax
  deriving DecidableEq, Repr

inductive HashOpcode
  | opRipemd160 | opSha1 | opSha256 | opHash160 | opHash256
  deriving DecidableEq, Repr

/-- The cases of the `switch` in `EvalScript`. -/
inductive Operation
  | pushNumber
  | opNop
  | opCheckLockTimeVerify
  | opCheckSequenceVerify
  | upgradableNop
  | opIf
  | opNotIf
  | opElse
  | opEndIf
  | opVerify
  | opReturn
  | stack (opcode : StackOpcode)
  | opPick
  | opRoll
  | opEqual
  | opEqualVerify
  | unary (opcode : UnaryOpcode)
  | binary (opcode : BinaryOpcode)
  | opWithin
  | hash (opcode : HashOpcode)
  | opCodeSeparator
  | opCheckSig
  | opCheckSigVerify
  | opCheckSigAdd
  | opCheckMultiSig
  | opCheckMultiSigVerify
  | default
  deriving DecidableEq, Repr

/-- The opcodes from `OP_NOP` on that have a case of their own. -/
def operationTable : List (UInt8 × Operation) :=
  [(0x61, .opNop), (0x63, .opIf), (0x64, .opNotIf), (0x67, .opElse), (0x68, .opEndIf),
    (0x69, .opVerify), (0x6a, .opReturn), (0x6b, .stack .opToAltStack),
    (0x6c, .stack .opFromAltStack), (0x6d, .stack .op2Drop), (0x6e, .stack .op2Dup),
    (0x6f, .stack .op3Dup), (0x70, .stack .op2Over), (0x71, .stack .op2Rot),
    (0x72, .stack .op2Swap), (0x73, .stack .opIfDup), (0x74, .stack .opDepth),
    (0x75, .stack .opDrop), (0x76, .stack .opDup), (0x77, .stack .opNip), (0x78, .stack .opOver),
    (0x79, .opPick), (0x7a, .opRoll), (0x7b, .stack .opRot), (0x7c, .stack .opSwap),
    (0x7d, .stack .opTuck), (0x82, .stack .opSize), (0x87, .opEqual), (0x88, .opEqualVerify),
    (0x8b, .unary .op1Add), (0x8c, .unary .op1Sub), (0x8f, .unary .opNegate),
    (0x90, .unary .opAbs), (0x91, .unary .opNot), (0x92, .unary .op0NotEqual),
    (0x93, .binary .opAdd), (0x94, .binary .opSub), (0x9a, .binary .opBoolAnd),
    (0x9b, .binary .opBoolOr), (0x9c, .binary .opNumEqual), (0x9d, .binary .opNumEqualVerify),
    (0x9e, .binary .opNumNotEqual), (0x9f, .binary .opLessThan), (0xa0, .binary .opGreaterThan),
    (0xa1, .binary .opLessThanOrEqual), (0xa2, .binary .opGreaterThanOrEqual),
    (0xa3, .binary .opMin), (0xa4, .binary .opMax), (0xa5, .opWithin),
    (0xa6, .hash .opRipemd160), (0xa7, .hash .opSha1), (0xa8, .hash .opSha256),
    (0xa9, .hash .opHash160), (0xaa, .hash .opHash256), (0xab, .opCodeSeparator),
    (0xac, .opCheckSig), (0xad, .opCheckSigVerify), (0xae, .opCheckMultiSig),
    (0xaf, .opCheckMultiSigVerify), (0xb0, .upgradableNop), (0xb1, .opCheckLockTimeVerify),
    (0xb2, .opCheckSequenceVerify), (0xb3, .upgradableNop), (0xb4, .upgradableNop),
    (0xb5, .upgradableNop), (0xb6, .upgradableNop), (0xb7, .upgradableNop),
    (0xb8, .upgradableNop), (0xb9, .upgradableNop), (0xba, .opCheckSigAdd)]

/-- The case that an opcode selects: `OP_1NEGATE` and `OP_1` to `OP_16` share one. -/
def Operation.ofOpcode (opcode : UInt8) : Operation :=
  if opcode == 0x4f || (Opcode.op1 ≤ opcode && opcode ≤ Opcode.op16) then .pushNumber
  else (operationTable.lookup opcode).getD .default

/-- Opcodes that fail wherever they stand: `OP_CAT`, `OP_SUBSTR`, `OP_LEFT`, `OP_RIGHT`,
`OP_INVERT`, `OP_AND`, `OP_OR`, `OP_XOR`, `OP_2MUL`, `OP_2DIV`, `OP_MUL`, `OP_DIV`, `OP_MOD`,
`OP_LSHIFT` and `OP_RSHIFT`. -/
def isDisabledOpcode (opcode : UInt8) : Bool :=
  [0x7e, 0x7f, 0x80, 0x81, 0x83, 0x84, 0x85, 0x86, 0x8d, 0x8e, 0x95, 0x96, 0x97, 0x98,
    0x99].contains opcode

/-! ## Opcodes on the stack alone -/

abbrev Stack : Type := List (List UInt8)

/-- `(int)stack.size()`. -/
def intSize (stack : Stack) : Int :=
  (Int32.ofNat stack.length).toInt

/-- `stacktop(-i)`.  The exception of `std::vector::at` is caught at the end of `EvalScript`. -/
def stackTop (stack : Stack) (i : Nat) : Exec ScriptError (List UInt8) :=
  match stack[i - 1]? with
  | none => reject .unknownError
  | some vch => pure vch

def evalStackOpcode : StackOpcode → Stack → Stack → Exec ScriptError (Stack × Stack)
  | .opToAltStack, vch :: stack, altstack => pure (stack, vch :: altstack)
  | .opFromAltStack, stack, vch :: altstack => pure (vch :: stack, altstack)
  | .opFromAltStack, _, [] => reject .invalidAltstackOperation
  | .op2Drop, _ :: _ :: stack, altstack => pure (stack, altstack)
  | .op2Dup, x2 :: x1 :: stack, altstack => pure (x2 :: x1 :: x2 :: x1 :: stack, altstack)
  | .op3Dup, x3 :: x2 :: x1 :: stack, altstack =>
    pure (x3 :: x2 :: x1 :: x3 :: x2 :: x1 :: stack, altstack)
  | .op2Over, x4 :: x3 :: x2 :: x1 :: stack, altstack =>
    pure (x2 :: x1 :: x4 :: x3 :: x2 :: x1 :: stack, altstack)
  | .op2Rot, x6 :: x5 :: x4 :: x3 :: x2 :: x1 :: stack, altstack =>
    pure (x2 :: x1 :: x6 :: x5 :: x4 :: x3 :: stack, altstack)
  | .op2Swap, x4 :: x3 :: x2 :: x1 :: stack, altstack =>
    pure (x2 :: x1 :: x4 :: x3 :: stack, altstack)
  | .opIfDup, vch :: stack, altstack =>
    pure (if castToBool vch then vch :: vch :: stack else vch :: stack, altstack)
  | .opDepth, stack, altstack => pure (serializeNum stack.length :: stack, altstack)
  | .opDrop, _ :: stack, altstack => pure (stack, altstack)
  | .opDup, vch :: stack, altstack => pure (vch :: vch :: stack, altstack)
  | .opNip, x2 :: _ :: stack, altstack => pure (x2 :: stack, altstack)
  | .opOver, x2 :: x1 :: stack, altstack => pure (x1 :: x2 :: x1 :: stack, altstack)
  | .opRot, x3 :: x2 :: x1 :: stack, altstack => pure (x1 :: x3 :: x2 :: stack, altstack)
  | .opSwap, x2 :: x1 :: stack, altstack => pure (x1 :: x2 :: stack, altstack)
  | .opTuck, x2 :: x1 :: stack, altstack => pure (x2 :: x1 :: x2 :: stack, altstack)
  | .opSize, vch :: stack, altstack => pure (serializeNum vch.length :: vch :: stack, altstack)
  | _, _, _ => reject .invalidStackOperation

/-- The result of a test: it is pushed, or with a `VERIFY` opcode only has to be true. -/
def pushOrVerify (verify : Bool) (error : ScriptError) (success : Bool) (stack : Stack) :
    Exec ScriptError Stack :=
  if verify then if success then pure stack else reject error
  else pure (ofBool success :: stack)

def evalVerify : Stack → Exec ScriptError Stack
  | vch :: stack => if castToBool vch then pure stack else reject .verify
  | [] => reject .invalidStackOperation

def evalEqual (verify : Bool) : Stack → Exec ScriptError Stack
  | vch2 :: vch1 :: stack => pushOrVerify verify .equalVerify (vch1 == vch2) stack
  | _ => reject .invalidStackOperation

def HashOpcode.apply (crypto : ScriptCrypto) : HashOpcode → List UInt8 → List UInt8
  | .opRipemd160, vch => crypto.ripemd160 vch
  | .opSha1, vch => crypto.sha1 vch
  | .opSha256, vch => crypto.sha256 vch
  | .opHash160, vch => crypto.ripemd160 (crypto.sha256 vch)
  | .opHash256, vch => crypto.sha256 (crypto.sha256 vch)

def evalHash (crypto : ScriptCrypto) (opcode : HashOpcode) : Stack → Exec ScriptError Stack
  | vch :: stack => pure (opcode.apply crypto vch :: stack)
  | [] => reject .invalidStackOperation

/-! ## Opcodes on numbers -/

variable (flags : ScriptVerifyFlags)

def requireMinimal : Bool :=
  hasFlag flags scriptVerifyMinimalData

/-- A number operand of at most four bytes. -/
def operand (vch : List UInt8) : Exec ScriptError Int :=
  scriptNum (requireMinimal flags) vch defaultMaxNumSize

def UnaryOpcode.apply : UnaryOpcode → Int → Int
  | .op1Add, bn => bn + 1
  | .op1Sub, bn => bn - 1
  | .opNegate, bn => -bn
  | .opAbs, bn => if bn < 0 then -bn else bn
  | .opNot, bn => if bn = 0 then 1 else 0
  | .op0NotEqual, bn => if bn ≠ 0 then 1 else 0

def BinaryOpcode.apply : BinaryOpcode → Int → Int → Int
  | .opAdd, bn1, bn2 => bn1 + bn2
  | .opSub, bn1, bn2 => bn1 - bn2
  | .opBoolAnd, bn1, bn2 => if bn1 ≠ 0 ∧ bn2 ≠ 0 then 1 else 0
  | .opBoolOr, bn1, bn2 => if bn1 ≠ 0 ∨ bn2 ≠ 0 then 1 else 0
  | .opNumEqual, bn1, bn2 => if bn1 = bn2 then 1 else 0
  | .opNumEqualVerify, bn1, bn2 => if bn1 = bn2 then 1 else 0
  | .opNumNotEqual, bn1, bn2 => if bn1 ≠ bn2 then 1 else 0
  | .opLessThan, bn1, bn2 => if bn1 < bn2 then 1 else 0
  | .opGreaterThan, bn1, bn2 => if bn1 > bn2 then 1 else 0
  | .opLessThanOrEqual, bn1, bn2 => if bn1 ≤ bn2 then 1 else 0
  | .opGreaterThanOrEqual, bn1, bn2 => if bn1 ≥ bn2 then 1 else 0
  | .opMin, bn1, bn2 => if bn1 < bn2 then bn1 else bn2
  | .opMax, bn1, bn2 => if bn1 > bn2 then bn1 else bn2

def evalUnary (opcode : UnaryOpcode) : Stack → Exec ScriptError Stack
  | vch :: stack => do
      let bn ← operand flags vch
      pure (serializeNum (opcode.apply bn) :: stack)
  | [] => reject .invalidStackOperation

/-- The last part of the numeric opcodes with two operands. -/
def numEqualVerify (opcode : BinaryOpcode) (vch : List UInt8) (stack : Stack) :
    Exec ScriptError Stack :=
  if opcode = .opNumEqualVerify then
    if castToBool vch then pure stack else reject .numEqualVerify
  else pure (vch :: stack)

def evalBinary (opcode : BinaryOpcode) : Stack → Exec ScriptError Stack
  | vch2 :: vch1 :: stack => do
      let bn1 ← operand flags vch1
      let bn2 ← operand flags vch2
      numEqualVerify opcode (serializeNum (opcode.apply bn1 bn2)) stack
  | _ => reject .invalidStackOperation

def evalWithin : Stack → Exec ScriptError Stack
  | vch3 :: vch2 :: vch1 :: stack => do
      let bn1 ← operand flags vch1
      let bn2 ← operand flags vch2
      let bn3 ← operand flags vch3
      pure (ofBool (bn2 ≤ bn1 && bn1 < bn3) :: stack)
  | _ => reject .invalidStackOperation

/-- `OP_PICK` and `OP_ROLL`. -/
def evalPick (roll : Bool) : Stack → Exec ScriptError Stack
  | vch :: below :: stack => do
      let bn ← operand flags vch
      let n := getInt bn
      ensure (!(n < 0 || n ≥ intSize (below :: stack))) .invalidStackOperation
      let picked ← stackTop (below :: stack) (n.toNat + 1)
      pure (picked :: if roll then (below :: stack).eraseIdx n.toNat else below :: stack)
  | _ => reject .invalidStackOperation

/-! ## Lock times -/

/-- Numbers that are compared with lock times have up to five bytes. -/
def lockTimeOperand : Stack → Exec ScriptError Int
  | [] => reject .invalidStackOperation
  | vch :: _ => do
      let value ← scriptNum (requireMinimal flags) vch 5
      ensure (!(value < 0)) .negativeLocktime
      pure value

def evalCheckLockTimeVerify (checker : SignatureChecker) (flags : ScriptVerifyFlags)
    (stack : Stack) : Exec ScriptError Unit :=
  if !hasFlag flags scriptVerifyCheckLockTimeVerify then pure ()
  else do
    let nLockTime ← lockTimeOperand flags stack
    ensure (checker.checkLockTime nLockTime) .unsatisfiedLocktime

def evalCheckSequenceVerify (checker : SignatureChecker) (flags : ScriptVerifyFlags)
    (stack : Stack) : Exec ScriptError Unit :=
  if !hasFlag flags scriptVerifyCheckSequenceVerify then pure ()
  else do
    let nSequence ← lockTimeOperand flags stack
    -- the operand is not negative here
    ensure (nSequence.toNat &&& CTxIn.sequenceLocktimeDisableFlag.toNat != 0 ||
      checker.checkSequence nSequence) .unsatisfiedLocktime

/-! ## Signatures -/

/-- Drop a signature from the script it signs, in scripts without a witness. -/
def removeSignature (sigversion : SigVersion) (scriptCode : CScript) (vchSig : List UInt8) :
    Exec ScriptError CScript :=
  if sigversion = .base then do
    let found := findAndDelete scriptCode (pushScript vchSig)
    ensure (!(found.1 > 0 && hasFlag flags scriptVerifyConstScriptCode)) .sigFindAndDelete
    pure found.2
  else pure scriptCode

variable (crypto : ScriptCrypto) (checker : SignatureChecker) (flags : ScriptVerifyFlags)
  (sigversion : SigVersion)

/-- A call of `CheckECDSASignature`, after the checks of both encodings. -/
def checkEncodedSignature (vchSig vchPubKey : List UInt8) (scriptCode : CScript) :
    ScriptRun Bool := do
  .lift (checkSignatureEncoding crypto.checkLowS vchSig flags)
  .lift (checkPubKeyEncoding vchPubKey flags sigversion)
  .emit ⟨vchSig, vchPubKey, scriptCode, sigversion⟩
    (checker.checkECDSASignature vchSig vchPubKey scriptCode sigversion)

def evalChecksigPreTapscript (vchSig vchPubKey : List UInt8) (codeHash : CScript) :
    ScriptRun Bool := do
  .lift (assertThat (sigversion == .base || sigversion == .witnessV0))
  let scriptCode ← .lift (removeSignature flags sigversion codeHash vchSig)
  let success ← checkEncodedSignature crypto checker flags sigversion vchSig vchPubKey scriptCode
  .lift (ensure (!(!success && hasFlag flags scriptVerifyNullFail && !vchSig.isEmpty)) .sigNullFail)
  pure success

def validationWeightPerSigopPassed : Int := 50

variable (opcode : UInt8) (sig : List UInt8)

/-- The ratio of signature checks to witness size, where a signature is there. -/
def spendValidationWeight (execdata : ScriptExecutionData) : Exec ScriptError ScriptExecutionData :=
  if sig.isEmpty then pure execdata
  else do
    assertThat execdata.validationWeightLeftInit
    let left := execdata.validationWeightLeft - validationWeightPerSigopPassed
    ensure (!(left < 0)) .tapscriptValidationWeight
    pure { execdata with validationWeightLeft := left }

def checkSchnorr (pubkey : List UInt8) (execdata : ScriptExecutionData) :
    Exec ScriptError ScriptExecutionData :=
  match checker.checkSchnorrSignature sig pubkey sigversion execdata with
  | .ok execdata => pure execdata
  | .error error => reject error

def checkTapscriptPubKey (pubkey : List UInt8) (execdata : ScriptExecutionData) :
    Exec ScriptError ScriptExecutionData :=
  if pubkey.length = 0 then reject .tapscriptEmptyPubkey
  else if pubkey.length = 32 then
    if sig.isEmpty then pure execdata else checkSchnorr checker sigversion sig pubkey execdata
  else do
    ensure (!hasFlag flags scriptVerifyDiscourageUpgradablePubkeyType)
      .discourageUpgradablePubkeyType
    pure execdata

def evalChecksigTapscript (pubkey : List UInt8) (execdata : ScriptExecutionData) :
    Exec ScriptError (Bool × ScriptExecutionData) := do
  assertThat (sigversion == .tapscript)
  let execdata ← spendValidationWeight sig execdata
  let execdata ← checkTapscriptPubKey checker flags sigversion sig pubkey execdata
  pure (!sig.isEmpty, execdata)

def evalChecksig (pubkey : List UInt8) (codeHash : CScript) (execdata : ScriptExecutionData) :
    ScriptRun (Bool × ScriptExecutionData) :=
  match sigversion with
  | .base | .witnessV0 => do
      let success ← evalChecksigPreTapscript crypto checker flags sigversion sig pubkey codeHash
      pure (success, execdata)
  | .tapscript => .lift (evalChecksigTapscript checker flags sigversion sig pubkey execdata)
  | .taproot => .lift (abort .assertion)

/-- The loop of `OP_CHECKMULTISIG`: each key is tried for the first signature that is left, until
there are more signatures than keys. -/
def checkSignatures (scriptCode : CScript) : List (List UInt8) → List (List UInt8) → ScriptRun Bool
  | _, [] => pure true
  | [], _ :: _ => pure false
  | key :: keys, sig :: sigs => do
      let ok ← checkEncodedSignature crypto checker flags sigversion sig key scriptCode
      let left := if ok then sigs else sig :: sigs
      if left.length > keys.length then pure false else checkSignatures scriptCode keys left

/-- What `OP_CHECKMULTISIG` takes from the stack, without the element below it. -/
structure MultisigArguments where
  keys : Stack
  sigs : Stack
  below : Stack
  nOpCount : Nat

def maxMultisigKeys : Int := 20

def readMultisigArguments (stack : Stack) (nOpCount : Nat) :
    Exec ScriptError MultisigArguments := do
  ensure (!(intSize stack < 1)) .invalidStackOperation
  let keysTop ← stackTop stack 1
  let keysNum ← operand flags keysTop
  ensure (!(getInt keysNum < 0 || getInt keysNum > maxMultisigKeys)) .pubkeyCount
  let nKeysCount := (getInt keysNum).toNat
  ensure (nOpCount + nKeysCount ≤ maxOpsPerScript) .opCount
  ensure (!(intSize stack < nKeysCount + 2)) .invalidStackOperation
  let sigsTop ← stackTop stack (nKeysCount + 2)
  let sigsNum ← operand flags sigsTop
  ensure (!(getInt sigsNum < 0 || getInt sigsNum > nKeysCount)) .sigCount
  let nSigsCount := (getInt sigsNum).toNat
  ensure (!(intSize stack < nKeysCount + nSigsCount + 3)) .invalidStackOperation
  pure {
    keys := (stack.drop 1).take nKeysCount
    sigs := (stack.drop (nKeysCount + 2)).take nSigsCount
    below := stack.drop (nKeysCount + nSigsCount + 2)
    nOpCount := nOpCount + nKeysCount }

/-- The end of `OP_CHECKMULTISIG`: the arguments are removed, then one more element. -/
def dropMultisigArguments (success : Bool) (arguments : MultisigArguments) :
    Exec ScriptError Stack := do
  ensure (!(!success && hasFlag flags scriptVerifyNullFail &&
    arguments.sigs.any (!·.isEmpty))) .sigNullFail
  match arguments.below with
  | [] => reject .invalidStackOperation
  | dummy :: stack => do
      ensure (!(hasFlag flags scriptVerifyNullDummy && !dummy.isEmpty)) .sigNullDummy
      pure stack

/-! ## One instruction -/

/-- The variables of `EvalScript`. -/
structure EvalState where
  stack : Stack
  altstack : Stack := []
  vfExec : ConditionStack := {}
  nOpCount : Nat := 0
  /-- The script from the last code separator on. -/
  codeHash : CScript
  execdata : ScriptExecutionData

def EvalState.onStack (state : EvalState) (change : Stack → Exec ScriptError Stack) :
    Exec ScriptError EvalState := do
  let stack ← change state.stack
  pure { state with stack := stack }

/-- Whether the argument of a conditional is allowed. -/
def checkMinimalIf (vch : List UInt8) : Exec ScriptError Unit := do
  ensure (!(sigversion == .tapscript && (vch.length > 1 || (vch.length == 1 && vch != [1]))))
    .tapscriptMinimalIf
  ensure (!(sigversion == .witnessV0 && hasFlag flags scriptVerifyMinimalIf &&
    (vch.length > 1 || (vch.length == 1 && vch != [1])))) .minimalIf

/-- `OP_IF` and `OP_NOTIF`, which are also counted where they are not executed. -/
def evalIf (negate fExec : Bool) (state : EvalState) : Exec ScriptError EvalState :=
  if fExec then
    match state.stack with
    | [] => reject .invalidStackOperation
    | vch :: stack => do
        checkMinimalIf flags sigversion vch
        pure { state with
          stack := stack
          vfExec := state.vfExec.pushBack (castToBool vch != negate) }
  else pure { state with vfExec := state.vfExec.pushBack false }

/-- `OP_ELSE` and `OP_ENDIF`. -/
def evalConditional (change : ConditionStack → Exec ScriptError ConditionStack)
    (state : EvalState) : Exec ScriptError EvalState := do
  ensure (!state.vfExec.isEmpty) .unbalancedConditional
  let vfExec ← change state.vfExec
  pure { state with vfExec := vfExec }

def evalCheckSig (verify : Bool) (state : EvalState) : ScriptRun EvalState :=
  match state.stack with
  | vchPubKey :: vchSig :: stack => do
      let checked ← evalChecksig crypto checker flags sigversion vchSig vchPubKey state.codeHash
        state.execdata
      let stack ← .lift (pushOrVerify verify .checkSigVerify checked.1 stack)
      pure { state with stack := stack, execdata := checked.2 }
  | _ => .lift (reject .invalidStackOperation)

def evalCheckSigAdd (state : EvalState) : ScriptRun EvalState := do
  .lift (ensure (!(sigversion == .base || sigversion == .witnessV0)) .badOpcode)
  match state.stack with
  | pubkey :: vchNum :: sig :: stack => do
      let num ← .lift (operand flags vchNum)
      let checked ← evalChecksig crypto checker flags sigversion sig pubkey state.codeHash
        state.execdata
      pure { state with
        stack := serializeNum (num + if checked.1 then 1 else 0) :: stack
        execdata := checked.2 }
  | _ => .lift (reject .invalidStackOperation)

def evalCheckMultiSig (verify : Bool) (state : EvalState) : ScriptRun EvalState := do
  .lift (ensure (sigversion != .tapscript) .tapscriptCheckMultiSig)
  let arguments ← .lift (readMultisigArguments flags state.stack state.nOpCount)
  let scriptCode ← .lift (arguments.sigs.foldlM (removeSignature flags sigversion) state.codeHash)
  let success ← checkSignatures crypto checker flags sigversion scriptCode arguments.keys
    arguments.sigs
  let stack ← .lift (dropMultisigArguments flags success arguments)
  let stack ← .lift (pushOrVerify verify .checkMultiSigVerify success stack)
  pure { state with stack := stack, nOpCount := arguments.nOpCount }

/-- The `switch` of `EvalScript`, for an opcode at some position with the bytes after it. -/
def evalOperation (position : UInt32) (rest : CScript) (fExec : Bool) (state : EvalState) :
    Operation → ScriptRun EvalState
  | .pushNumber => pure { state with stack := serializeNum (opcode.toNat - 0x50) :: state.stack }
  | .opNop => pure state
  | .opCheckLockTimeVerify =>
    .lift ((evalCheckLockTimeVerify checker flags state.stack).map fun _ => state)
  | .opCheckSequenceVerify =>
    .lift ((evalCheckSequenceVerify checker flags state.stack).map fun _ => state)
  | .upgradableNop =>
    .lift ((ensure (!hasFlag flags scriptVerifyDiscourageUpgradableNops)
      .discourageUpgradableNops).map fun _ => state)
  | .opIf => .lift (evalIf flags sigversion false fExec state)
  | .opNotIf => .lift (evalIf flags sigversion true fExec state)
  | .opElse => .lift (evalConditional ConditionStack.toggleTop state)
  | .opEndIf => .lift (evalConditional ConditionStack.popBack state)
  | .opVerify => .lift (state.onStack evalVerify)
  | .opReturn => .lift (reject .opReturn)
  | .stack opcode =>
    .lift ((evalStackOpcode opcode state.stack state.altstack).map fun both =>
      { state with stack := both.1, altstack := both.2 })
  | .opPick => .lift (state.onStack (evalPick flags false))
  | .opRoll => .lift (state.onStack (evalPick flags true))
  | .opEqual => .lift (state.onStack (evalEqual false))
  | .opEqualVerify => .lift (state.onStack (evalEqual true))
  | .unary opcode => .lift (state.onStack (evalUnary flags opcode))
  | .binary opcode => .lift (state.onStack (evalBinary flags opcode))
  | .opWithin => .lift (state.onStack (evalWithin flags))
  | .hash opcode => .lift (state.onStack (evalHash crypto opcode))
  | .opCodeSeparator =>
    pure { state with
      codeHash := rest
      execdata := { state.execdata with codeseparatorPos := position } }
  | .opCheckSig => evalCheckSig crypto checker flags sigversion false state
  | .opCheckSigVerify => evalCheckSig crypto checker flags sigversion true state
  | .opCheckSigAdd => evalCheckSigAdd crypto checker flags sigversion state
  | .opCheckMultiSig => evalCheckMultiSig crypto checker flags sigversion false state
  | .opCheckMultiSigVerify => evalCheckMultiSig crypto checker flags sigversion true state
  | .default => .lift (reject .badOpcode)

def opCodeSeparator : UInt8 := 0xab

/-- The operation limit of scripts before tapscript.  `OP_RESERVED` does not count. -/
def countOperation (state : EvalState) : Exec ScriptError EvalState :=
  if (sigversion = .base ∨ sigversion = .witnessV0) ∧ opcode > Opcode.op16 then do
    ensure (state.nOpCount + 1 ≤ maxOpsPerScript) .opCount
    pure { state with nOpCount := state.nOpCount + 1 }
  else pure state

def evalPush (data : List UInt8) (state : EvalState) : Exec ScriptError EvalState := do
  ensure (!(requireMinimal flags && !checkMinimalPush data opcode)) .minimalData
  pure { state with stack := data :: state.stack }

def isConditional : Bool :=
  0x63 ≤ opcode && opcode ≤ 0x68

/-- Push, execute or skip an opcode. -/
def dispatch (data : List UInt8) (position : UInt32) (rest : CScript) (state : EvalState) :
    ScriptRun EvalState :=
  if state.vfExec.allTrue && opcode ≤ Opcode.opPushData4 then
    .lift (evalPush flags opcode data state)
  else if state.vfExec.allTrue || isConditional opcode then
    evalOperation crypto checker flags sigversion opcode position rest state.vfExec.allTrue state
      (Operation.ofOpcode opcode)
  else pure state

/-- A round of the loop in `EvalScript`, after the opcode has been read. -/
def evalInstruction (data : List UInt8) (position : UInt32) (rest : CScript) (state : EvalState) :
    ScriptRun EvalState := do
  .lift (ensure (data.length ≤ maxScriptElementSize) .pushSize)
  let state ← .lift (countOperation sigversion opcode state)
  .lift (ensure (!isDisabledOpcode opcode) .disabledOpcode)
  .lift (ensure (!(opcode == opCodeSeparator && sigversion == .base &&
    hasFlag flags scriptVerifyConstScriptCode)) .opCodeSeparator)
  let state ← dispatch crypto checker flags sigversion opcode data position rest state
  .lift (ensure (state.stack.length + state.altstack.length ≤ maxStackSize) .stackSize)
  pure state

/-! ## Scripts -/

def evalFrom (position : UInt32) (state : EvalState) (script : CScript) : ScriptRun EvalState :=
  if script.isEmpty then pure state
  else
    match _read : getScriptOp script with
    | none => .lift (reject .badOpcode)
    | some (opcode, data, rest) => do
        let state ← evalInstruction crypto checker flags sigversion opcode data position rest state
        evalFrom (position + 1) state rest
  termination_by script.length
  decreasing_by exact length_getScriptOp_lt _read

def evalScript (stack : Stack) (script : CScript) (execdata : ScriptExecutionData) :
    ScriptRun (Stack × ScriptExecutionData) := do
  .lift (assertThat (sigversion != .taproot))
  .lift (ensure (!((sigversion == .base || sigversion == .witnessV0) &&
    script.length > maxScriptSize)) .scriptSize)
  let execdata := { execdata with codeseparatorPos := 0xffffffff, codeseparatorPosInit := true }
  let state ← evalFrom crypto checker flags sigversion 0
    { stack := stack, codeHash := script, execdata := execdata } script
  .lift (ensure state.vfExec.isEmpty .unbalancedConditional)
  pure (state.stack, state.execdata)

end Champy
