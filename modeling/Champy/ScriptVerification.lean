import Champy.CoreSerialization
import Champy.ScriptInterpreter

/-!
# Verification of a spend

`VerifyScript` runs the two scripts of a spend, then the script that a pay-to-script-hash
output names, and the witness program of either.  A witness holds its last element last; the
stack it becomes has that element first.
-/

namespace Champy

open Exec

variable (crypto : ScriptCrypto) (checker : SignatureChecker) (flags : ScriptVerifyFlags)

/-! ## Scripts inside witnesses -/

def isOpSuccess (opcode : UInt8) : Bool :=
  opcode == 80 || opcode == 98 || (126 ≤ opcode && opcode ≤ 129) ||
    (131 ≤ opcode && opcode ≤ 134) || (137 ≤ opcode && opcode ≤ 138) ||
    (141 ≤ opcode && opcode ≤ 142) || (149 ≤ opcode && opcode ≤ 153) ||
    (187 ≤ opcode && opcode ≤ 254)

/-- The search for an opcode that makes any tapscript succeed. -/
def findOpSuccess (script : CScript) : Exec ScriptError Bool :=
  if script.isEmpty then pure false
  else
    match _read : getScriptOp script with
    | none => reject .badOpcode
    | some (opcode, _, rest) =>
      if isOpSuccess opcode then do
        ensure (!hasFlag flags scriptVerifyDiscourageOpSuccess) .discourageOpSuccess
        pure true
      else findOpSuccess rest
  termination_by script.length
  decreasing_by exact length_getScriptOp_lt _read

/-- The part of `ExecuteWitnessScript` for tapscripts: whether the spend already succeeds. -/
def checkTapscript (sigversion : SigVersion) (stack : Stack) (script : CScript) :
    Exec ScriptError Bool :=
  if sigversion = .tapscript then do
    let found ← findOpSuccess flags script
    ensure (found || stack.length ≤ maxStackSize) .stackSize
    pure found
  else pure false

/-- A script inside a witness leaves one element, which is true. -/
def checkCleanResult : Stack → Exec ScriptError Unit
  | [vch] => ensure (castToBool vch) .evalFalse
  | _ => reject .cleanStack

def runWitnessScript (sigversion : SigVersion) (stack : Stack) (script : CScript)
    (execdata : ScriptExecutionData) : ScriptRun Unit := do
  .lift (ensure (stack.all fun vch => vch.length ≤ maxScriptElementSize) .pushSize)
  let result ← evalScript crypto checker flags sigversion stack script execdata
  .lift (checkCleanResult result.1)

def executeWitnessScript (sigversion : SigVersion) (stack : Stack) (script : CScript)
    (execdata : ScriptExecutionData) : ScriptRun Unit := do
  let succeeds ← .lift (checkTapscript flags sigversion stack script)
  if succeeds then pure () else runWitnessScript crypto checker flags sigversion stack script execdata

/-! ## Taproot -/

def annexTag : UInt8 := 0x50

def taprootLeafMask : UInt8 := 0xfe

def taprootLeafTapscript : UInt8 := 0xc0

def taprootControlBaseSize : Nat := 33

def taprootControlNodeSize : Nat := 32

def taprootControlMaxSize : Nat := taprootControlBaseSize + taprootControlNodeSize * 128

def validationWeightOffset : Nat := 50

def computeTapleafHash (leafVersion : UInt8) (script : List UInt8) : List UInt8 :=
  crypto.tapleafHasher (leafVersion :: (writeCompactSize script.length ++ script))

def computeTapbranchHash (a b : List UInt8) : List UInt8 :=
  if List.lex a b (· < ·) then crypto.tapbranchHasher (a ++ b) else crypto.tapbranchHasher (b ++ a)

def computeTaprootMerkleRoot (control tapleafHash : List UInt8) : List UInt8 :=
  let pathLen := (control.length - taprootControlBaseSize) / taprootControlNodeSize
  (List.range pathLen).foldl (fun k i =>
    computeTapbranchHash crypto k
      ((control.drop (taprootControlBaseSize + taprootControlNodeSize * i)).take
        taprootControlNodeSize)) tapleafHash

def isControlSize (size : Nat) : Bool :=
  taprootControlBaseSize ≤ size && size ≤ taprootControlMaxSize &&
    (size - taprootControlBaseSize) % taprootControlNodeSize == 0

/-- The assertions on the sizes follow from the check before the call. -/
def verifyTaprootCommitment (control program tapleafHash : List UInt8) : Exec ScriptError Bool := do
  assertThat (isControlSize control.length && 32 ≤ program.length)
  pure (crypto.checkTapTweak program ((control.drop 1).take (taprootControlBaseSize - 1))
    (computeTaprootMerkleRoot crypto control tapleafHash) (control.headD 0 &&& 1 != 0))

/-- The annex, when there is one, and the elements without it. -/
def takeAnnex (stack : Stack) : Stack × ScriptExecutionData :=
  match stack with
  | annex :: below :: rest =>
    if annex.head? = some annexTag then
      (below :: rest,
        { annexInit := true, annexPresent := true, annexHash := crypto.sha256 (writeSizedBytes annex) })
    else (stack, { annexInit := true })
  | _ => (stack, { annexInit := true })

/-- Spending with a script: the control block and the script are on top. -/
def verifyScriptPath (witness : List (List UInt8)) (program control script : List UInt8)
    (stack : Stack) (execdata : ScriptExecutionData) : ScriptRun Unit := do
  .lift (ensure (isControlSize control.length) .taprootWrongControlSize)
  let leafVersion := control.headD 0 &&& taprootLeafMask
  let tapleafHash := computeTapleafHash crypto leafVersion script
  let committed ← .lift (verifyTaprootCommitment crypto control program tapleafHash)
  .lift (ensure committed .witnessProgramMismatch)
  if leafVersion = taprootLeafTapscript then
    executeWitnessScript crypto checker flags .tapscript stack script { execdata with
      tapleafHash := tapleafHash
      tapleafHashInit := true
      validationWeightLeft :=
        (Consensus.serializeVector writeSizedBytes witness).length + validationWeightOffset
      validationWeightLeftInit := true }
  else
    .lift (ensure (!hasFlag flags scriptVerifyDiscourageUpgradableTaprootVersion)
      .discourageUpgradableTaprootVersion)

def verifyTaproot (witness : List (List UInt8)) (program : List UInt8) : ScriptRun Unit :=
  let taken := takeAnnex crypto witness.reverse
  match taken.1 with
  | [] => .lift (reject .witnessProgramWitnessEmpty)
  | [sig] => .lift ((checkSchnorr checker .taproot sig program taken.2).map fun _ => ())
  | control :: script :: stack =>
    verifyScriptPath crypto checker flags witness program control script stack taken.2

/-! ## Witness programs -/

/-- `IsPayToAnchor` on a witness program. -/
def isPayToAnchor (program : WitnessProgram) : Bool :=
  program.version == 1 && program.program == [0x4e, 0x73]

/-- The script that a key hash stands for. -/
def keyHashScript (program : List UInt8) : CScript :=
  [0x76, Opcode.opHash160] ++ pushScript program ++ [0x88, Opcode.opCheckSig]

def verifyWitnessV0 (witness : List (List UInt8)) (program : List UInt8) : ScriptRun Unit :=
  if program.length = 32 then
    match witness.reverse with
    | [] => .lift (reject .witnessProgramWitnessEmpty)
    | script :: stack => do
        .lift (ensure (crypto.sha256 script == program) .witnessProgramMismatch)
        executeWitnessScript crypto checker flags .witnessV0 stack script {}
  else if program.length = 20 then do
    .lift (ensure (witness.length == 2) .witnessProgramMismatch)
    executeWitnessScript crypto checker flags .witnessV0 witness.reverse (keyHashScript program) {}
  else .lift (reject .witnessProgramWrongLength)

def verifyWitnessProgram (witness : List (List UInt8)) (program : WitnessProgram)
    (isP2SH : Bool) : ScriptRun Unit :=
  if program.version = 0 then verifyWitnessV0 crypto checker flags witness program.program
  else if program.version = 1 ∧ program.program.length = 32 ∧ isP2SH = false then
    if !hasFlag flags scriptVerifyTaproot then pure ()
    else verifyTaproot crypto checker flags witness program.program
  else if !isP2SH && isPayToAnchor program then pure ()
  else
    .lift (ensure (!hasFlag flags scriptVerifyDiscourageUpgradableWitnessProgram)
      .discourageUpgradableWitnessProgram)

/-! ## Spends -/

/-- The stack must end in something true. -/
def checkTrueResult : Stack → Exec ScriptError Unit
  | [] => reject .evalFalse
  | vch :: _ => ensure (castToBool vch) .evalFalse

/-- `stack.resize(1)`, which keeps the lowest element. -/
def resizeToOne (stack : Stack) : Stack :=
  [stack.getLastD []]

/-- Where the verification stands: whether there was a witness program, and the stack. -/
structure SpendProgress where
  hadWitness : Bool
  stack : Stack

/-- The witness program of a script, when there is one: the spend must have the given form. -/
def verifyWitness (script : CScript) (wellFormed : Bool) (malleated : ScriptError)
    (witness : List (List UInt8)) (isP2SH : Bool) (progress : SpendProgress) :
    ScriptRun SpendProgress :=
  if !hasFlag flags scriptVerifyWitness then pure progress
  else
    match isWitnessProgram script with
    | none => pure progress
    | some program => do
        .lift (ensure wellFormed malleated)
        verifyWitnessProgram crypto checker flags witness program isP2SH
        pure ⟨true, resizeToOne progress.stack⟩

/-- The script that a pay-to-script-hash output names, on the stack of the first script. -/
def verifyRedeemScript (scriptSig : CScript) (witness : List (List UInt8)) (stackCopy : Stack)
    (hadWitness : Bool) : ScriptRun SpendProgress := do
  .lift (ensure (isPushOnly scriptSig) .sigPushOnly)
  match stackCopy with
  | [] => .lift (abort .assertion)
  | pubKey2 :: stack => do
      let result ← evalScript crypto checker flags .base stack pubKey2 {}
      .lift (checkTrueResult result.1)
      verifyWitness crypto checker flags pubKey2 (scriptSig == pushScript pubKey2)
        .witnessMalleatedP2SH witness true ⟨hadWitness, result.1⟩

def verifyPayToScriptHash (scriptSig scriptPubKey : CScript) (witness : List (List UInt8))
    (stackCopy : Stack) (progress : SpendProgress) : ScriptRun SpendProgress :=
  if hasFlag flags scriptVerifyP2SH && isPayToScriptHash scriptPubKey then
    verifyRedeemScript crypto checker flags scriptSig witness stackCopy progress.hadWitness
  else pure progress

def checkCleanStack (stack : Stack) : Exec ScriptError Unit :=
  if hasFlag flags scriptVerifyCleanStack then do
    assertThat (hasFlag flags scriptVerifyP2SH)
    assertThat (hasFlag flags scriptVerifyWitness)
    ensure (stack.length == 1) .cleanStack
  else pure ()

def checkUnexpectedWitness (hadWitness : Bool) (witness : List (List UInt8)) :
    Exec ScriptError Unit :=
  if hasFlag flags scriptVerifyWitness then do
    assertThat (hasFlag flags scriptVerifyP2SH)
    ensure (hadWitness || witness.isEmpty) .witnessUnexpected
  else pure ()

/-- The rest of `VerifyScript` after the two scripts of the spend. -/
def verifyOutputForms (scriptSig scriptPubKey : CScript) (witness : List (List UInt8))
    (stackCopy stack : Stack) : ScriptRun Unit := do
  let progress ← verifyWitness crypto checker flags scriptPubKey scriptSig.isEmpty
    .witnessMalleated witness false ⟨false, stack⟩
  let progress ← verifyPayToScriptHash crypto checker flags scriptSig scriptPubKey witness stackCopy
    progress
  .lift (checkCleanStack flags progress.stack)
  .lift (checkUnexpectedWitness flags progress.hadWitness witness)

/-- `VerifyScript`, where no witness is an empty one. -/
def verifyScript (scriptSig scriptPubKey : CScript) (witness : List (List UInt8)) :
    ScriptRun Unit := do
  .lift (ensure (!(hasFlag flags scriptVerifySigPushOnly && !isPushOnly scriptSig)) .sigPushOnly)
  let first ← evalScript crypto checker flags .base [] scriptSig {}
  let second ← evalScript crypto checker flags .base first.1 scriptPubKey {}
  .lift (checkTrueResult second.1)
  verifyOutputForms crypto checker flags scriptSig scriptPubKey witness first.1 second.1

end Champy
