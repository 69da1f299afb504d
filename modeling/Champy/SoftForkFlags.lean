import Champy.ScriptVerification

/-!
# Verification flags are soft forks

A flag only adds checks.  A run under more flags that returns a value returns the same value
under fewer, opcode by opcode, so a spend that passes under the larger set passes under the
smaller one.
-/

namespace Champy

open Traced ReturnsAs

/-- Every flag of the first set is in the second. -/
def FlagsWithin (weaker stronger : ScriptVerifyFlags) : Prop :=
  weaker &&& stronger = weaker

/-- Combinations of flags that `VerifyScript` allows. -/
structure ValidFlags (flags : ScriptVerifyFlags) : Prop where
  cleanStack : hasFlag flags scriptVerifyCleanStack = true →
    hasFlag flags scriptVerifyP2SH = true ∧ hasFlag flags scriptVerifyWitness = true
  witness : hasFlag flags scriptVerifyWitness = true → hasFlag flags scriptVerifyP2SH = true

variable {weaker stronger : ScriptVerifyFlags}

theorem FlagsWithin.hasFlag (within : FlagsWithin weaker stronger) {flag : ScriptVerifyFlags}
    (set : Champy.hasFlag weaker flag = true) : Champy.hasFlag stronger flag = true := by
  rw [Champy.hasFlag, bne_iff_ne] at set ⊢
  intro unset
  apply set
  rw [← within, UInt64.and_assoc, unset, UInt64.and_zero]

/-- A check that passes when its flag is off. -/
theorem FlagsWithin.ensure (within : FlagsWithin weaker stronger) (flag : ScriptVerifyFlags)
    (cond : Bool → Bool) (off : cond false = true) (error : ScriptError) :
    Exec.ReturnsAs (Exec.ensure (cond (Champy.hasFlag weaker flag)) error)
      (Exec.ensure (cond (Champy.hasFlag stronger flag)) error) := by
  apply Exec.returnsAs_ensure
  intro passed
  cases set : Champy.hasFlag weaker flag with
  | false => exact off
  | true =>
    rw [within.hasFlag set] at passed
    exact passed

theorem returnsAs_unit (run : Exec ScriptError Unit) : Exec.ReturnsAs (.ok ()) run := fun _ _ => rfl

section Encodings

variable (within : FlagsWithin weaker stronger)

include within

variable {check check' : Exec ScriptError Unit}

theorem FlagsWithin.whenSet (flag : ScriptVerifyFlags)
    (both : Champy.hasFlag weaker flag = true → Exec.ReturnsAs check check') :
    Exec.ReturnsAs (if Champy.hasFlag weaker flag = true then check else pure ())
      (if Champy.hasFlag stronger flag = true then check' else pure ()) := by
  by_cases set : Champy.hasFlag weaker flag = true
  · rw [if_pos set, if_pos (within.hasFlag set)]
    exact both set
  · rw [if_neg set]
    exact returnsAs_unit _

/-! ## Encodings and numbers -/

theorem checkPubKeyEncoding_returnsAs (vchPubKey : List UInt8) (version : SigVersion) :
    Exec.ReturnsAs (checkPubKeyEncoding vchPubKey weaker version)
      (checkPubKeyEncoding vchPubKey stronger version) := by
  apply Exec.ReturnsAs.bind
  · exact within.ensure scriptVerifyStrictEnc
      (fun set => !(set && !isCompressedOrUncompressedPubKey vchPubKey)) rfl _
  · intro _
    exact within.ensure scriptVerifyWitnessPubkeyType
      (fun set => !(set && version == .witnessV0 && !isCompressedPubKey vchPubKey)) rfl _

theorem checkSignatureEncoding_returnsAs (checkLowS : List UInt8 → Bool) (vchSig : List UInt8) :
    Exec.ReturnsAs (checkSignatureEncoding checkLowS vchSig weaker)
      (checkSignatureEncoding checkLowS vchSig stronger) := by
  rw [checkSignatureEncoding, checkSignatureEncoding]
  split
  · exact .refl _
  · apply Exec.ReturnsAs.bind
    · exact within.ensure _ (fun set => !(set && !isValidSignatureEncoding vchSig)) rfl _
    · intro _
      apply Exec.ReturnsAs.bind
      · exact within.whenSet scriptVerifyLowS fun _ => .refl _
      · intro _
        exact within.ensure _ (fun set => !(set && !isDefinedHashtypeSignature vchSig)) rfl _

theorem scriptNum_returnsAs (vch : List UInt8) (maxNumSize : Nat) :
    Exec.ReturnsAs (scriptNum (requireMinimal weaker) vch maxNumSize)
      (scriptNum (requireMinimal stronger) vch maxNumSize) := by
  apply Exec.ReturnsAs.bind_right
  intro _
  exact (within.ensure scriptVerifyMinimalData
    (fun set => !set || isMinimallyEncoded vch) rfl _).andThen _

theorem operand_returnsAs (vch : List UInt8) :
    Exec.ReturnsAs (operand weaker vch) (operand stronger vch) :=
  scriptNum_returnsAs within vch defaultMaxNumSize

theorem evalUnary_returnsAs (opcode : UnaryOpcode) (stack : Stack) :
    Exec.ReturnsAs (evalUnary weaker opcode stack) (evalUnary stronger opcode stack) := by
  cases stack with
  | nil => exact .refl _
  | cons vch stack => exact (operand_returnsAs within vch).andThen _

theorem evalBinary_returnsAs (opcode : BinaryOpcode) (stack : Stack) :
    Exec.ReturnsAs (evalBinary weaker opcode stack) (evalBinary stronger opcode stack) := by
  rcases stack with _ | ⟨vch2, _ | ⟨vch1, stack⟩⟩
  · exact .refl _
  · exact .refl _
  · apply (operand_returnsAs within vch1).bind
    intro bn1
    exact (operand_returnsAs within vch2).andThen _

theorem evalWithin_returnsAs (stack : Stack) :
    Exec.ReturnsAs (evalWithin weaker stack) (evalWithin stronger stack) := by
  rcases stack with _ | ⟨vch3, _ | ⟨vch2, _ | ⟨vch1, stack⟩⟩⟩
  · exact .refl _
  · exact .refl _
  · exact .refl _
  · apply (operand_returnsAs within vch1).bind
    intro bn1
    apply (operand_returnsAs within vch2).bind
    intro bn2
    exact (operand_returnsAs within vch3).andThen _

theorem evalPick_returnsAs (roll : Bool) (stack : Stack) :
    Exec.ReturnsAs (evalPick weaker roll stack) (evalPick stronger roll stack) := by
  rcases stack with _ | ⟨vch, _ | ⟨below, stack⟩⟩
  · exact .refl _
  · exact .refl _
  · exact (operand_returnsAs within vch).andThen _

/-! ## Lock times -/

theorem lockTimeOperand_returnsAs (stack : Stack) :
    Exec.ReturnsAs (lockTimeOperand weaker stack) (lockTimeOperand stronger stack) := by
  cases stack with
  | nil => exact .refl _
  | cons vch stack => exact (scriptNum_returnsAs within vch 5).andThen _

theorem FlagsWithin.unlessOff (flag : ScriptVerifyFlags) (both : Exec.ReturnsAs check check') :
    Exec.ReturnsAs (if (!Champy.hasFlag weaker flag) = true then pure () else check)
      (if (!Champy.hasFlag stronger flag) = true then pure () else check') := by
  cases set : Champy.hasFlag weaker flag with
  | false => exact returnsAs_unit _
  | true =>
    rw [within.hasFlag set]
    exact both

variable (checker : SignatureChecker)

theorem evalCheckLockTimeVerify_returnsAs (stack : Stack) :
    Exec.ReturnsAs (evalCheckLockTimeVerify checker weaker stack)
      (evalCheckLockTimeVerify checker stronger stack) :=
  within.unlessOff scriptVerifyCheckLockTimeVerify
    ((lockTimeOperand_returnsAs within stack).andThen _)

theorem evalCheckSequenceVerify_returnsAs (stack : Stack) :
    Exec.ReturnsAs (evalCheckSequenceVerify checker weaker stack)
      (evalCheckSequenceVerify checker stronger stack) :=
  within.unlessOff scriptVerifyCheckSequenceVerify
    ((lockTimeOperand_returnsAs within stack).andThen _)

/-! ## Signatures -/

theorem removeSignature_returnsAs (version : SigVersion) (code : CScript) (vchSig : List UInt8) :
    Exec.ReturnsAs (removeSignature weaker version code vchSig)
      (removeSignature stronger version code vchSig) := by
  rw [removeSignature, removeSignature]
  split
  · exact (within.ensure scriptVerifyConstScriptCode
      (fun set => !((findAndDelete code (pushScript vchSig)).1 > 0 && set))
      (by rw [Bool.and_false, Bool.not_false]) _).andThen _
  · exact .refl _

end Encodings

variable (crypto : ScriptCrypto) (checker : SignatureChecker) (version : SigVersion)

section Scripts

variable (within : FlagsWithin weaker stronger)

include within

variable (vchSig vchPubKey : List UInt8)

theorem checkEncodedSignature_returnsAs (code : CScript) : ReturnsAs
      (checkEncodedSignature crypto checker weaker version vchSig vchPubKey code)
      (checkEncodedSignature crypto checker stronger version vchSig vchPubKey code) := by
  apply ReturnsAs.bind
  · exact returnsAs_lift (checkSignatureEncoding_returnsAs within crypto.checkLowS vchSig)
  · intro _
    exact (returnsAs_lift (checkPubKeyEncoding_returnsAs within vchPubKey version)).andThen _

theorem evalChecksigPreTapscript_returnsAs (codeHash : CScript) : ReturnsAs
      (evalChecksigPreTapscript crypto checker weaker version vchSig vchPubKey codeHash)
      (evalChecksigPreTapscript crypto checker stronger version vchSig vchPubKey codeHash) := by
  apply (refl _).bind
  intro _
  apply (returnsAs_lift (removeSignature_returnsAs within version codeHash vchSig)).bind
  intro code
  apply (checkEncodedSignature_returnsAs crypto checker version within vchSig vchPubKey code).bind
  intro success
  exact (returnsAs_lift (within.ensure scriptVerifyNullFail
    (fun set => !(!success && set && !vchSig.isEmpty))
    (by rw [Bool.and_false, Bool.false_and, Bool.not_false]) _)).andThen _

theorem checkTapscriptPubKey_returnsAs (sig pubkey : List UInt8) (execdata : ScriptExecutionData) :
    Exec.ReturnsAs (checkTapscriptPubKey checker weaker version sig pubkey execdata)
      (checkTapscriptPubKey checker stronger version sig pubkey execdata) := by
  rw [checkTapscriptPubKey, checkTapscriptPubKey]
  split
  · exact .refl _
  · split
    · exact .refl _
    · exact (within.ensure scriptVerifyDiscourageUpgradablePubkeyType
        (fun set => !set) rfl _).andThen _

theorem evalChecksig_returnsAs (sig pubkey : List UInt8) (codeHash : CScript)
    (execdata : ScriptExecutionData) :
    ReturnsAs (evalChecksig crypto checker weaker version sig pubkey codeHash execdata)
      (evalChecksig crypto checker stronger version sig pubkey codeHash execdata) := by
  have preTapscript := evalChecksigPreTapscript_returnsAs crypto checker version within sig
    pubkey codeHash
  cases version with
  | base => exact preTapscript.andThen _
  | witnessV0 => exact preTapscript.andThen _
  | taproot => exact .refl _
  | tapscript =>
    apply returnsAs_lift
    apply Exec.ReturnsAs.bind_right
    intro _
    apply Exec.ReturnsAs.bind_right
    intro spent
    exact (checkTapscriptPubKey_returnsAs checker .tapscript within sig pubkey spent).andThen _

theorem checkSignatures_returnsAs (code : CScript) (keys sigs : Stack) :
    ReturnsAs (checkSignatures crypto checker weaker version code keys sigs)
      (checkSignatures crypto checker stronger version code keys sigs) := by
  induction keys generalizing sigs with
  | nil => cases sigs <;> exact .refl _
  | cons key keys ih =>
    cases sigs with
    | nil => exact .refl _
    | cons sig sigs =>
      rw [checkSignatures, checkSignatures]
      apply (checkEncodedSignature_returnsAs crypto checker version within sig key code).bind
      intro ok
      dsimp only
      generalize (if ok = true then sigs else sig :: sigs) = left
      split
      · exact .refl _
      · exact ih left

variable (stack : Stack)

theorem readMultisigArguments_returnsAs (nOpCount : Nat) :
    Exec.ReturnsAs (readMultisigArguments weaker stack nOpCount)
      (readMultisigArguments stronger stack nOpCount) := by
  apply Exec.ReturnsAs.bind_right
  intro _
  apply Exec.ReturnsAs.bind_right
  intro keysTop
  apply (operand_returnsAs within keysTop).bind
  intro keysNum
  apply Exec.ReturnsAs.bind_right
  intro _
  apply Exec.ReturnsAs.bind_right
  intro _
  apply Exec.ReturnsAs.bind_right
  intro _
  apply Exec.ReturnsAs.bind_right
  intro sigsTop
  exact (operand_returnsAs within sigsTop).andThen _

theorem dropMultisigArguments_returnsAs (success : Bool) (arguments : MultisigArguments) :
    Exec.ReturnsAs (dropMultisigArguments weaker success arguments)
      (dropMultisigArguments stronger success arguments) := by
  apply Exec.ReturnsAs.bind
  · exact within.ensure scriptVerifyNullFail
      (fun set => !(!success && set && arguments.sigs.any (!·.isEmpty)))
      (by rw [Bool.and_false, Bool.false_and, Bool.not_false]) _
  · intro _
    cases arguments.below with
    | nil => exact .refl _
    | cons dummy stack =>
      exact (within.ensure scriptVerifyNullDummy
        (fun set => !(set && !dummy.isEmpty)) rfl _).andThen _

/-! ## Opcodes -/

omit within in
theorem onStack_returnsAs (state : EvalState) {change change' : Stack → Exec ScriptError Stack}
    (changes : Exec.ReturnsAs (change state.stack) (change' state.stack)) :
    ReturnsAs (.lift (state.onStack change) : ScriptRun EvalState)
      (.lift (state.onStack change')) :=
  returnsAs_lift (changes.andThen _)

theorem checkMinimalIf_returnsAs (vch : List UInt8) :
    Exec.ReturnsAs (checkMinimalIf weaker version vch) (checkMinimalIf stronger version vch) := by
  apply Exec.ReturnsAs.bind_right
  intro _
  exact within.ensure scriptVerifyMinimalIf (fun set => !(version == .witnessV0 && set &&
      (vch.length > 1 || (vch.length == 1 && vch != [1]))))
    (by rw [Bool.and_false, Bool.false_and, Bool.not_false]) _

theorem evalIf_returnsAs (negate fExec : Bool) (state : EvalState) :
    Exec.ReturnsAs (evalIf weaker version negate fExec state)
      (evalIf stronger version negate fExec state) := by
  rw [evalIf, evalIf]
  split
  · cases state.stack with
    | nil => exact .refl _
    | cons vch stack =>
      exact (checkMinimalIf_returnsAs version within vch).andThen _
  · exact .refl _

theorem evalCheckSig_returnsAs (verify : Bool) (state : EvalState) :
    ReturnsAs (evalCheckSig crypto checker weaker version verify state)
      (evalCheckSig crypto checker stronger version verify state) := by
  rw [evalCheckSig, evalCheckSig]
  split
  · exact (evalChecksig_returnsAs crypto checker version within _ _ _ _).andThen _
  · exact .refl _

theorem evalCheckSigAdd_returnsAs (state : EvalState) :
    ReturnsAs (evalCheckSigAdd crypto checker weaker version state)
      (evalCheckSigAdd crypto checker stronger version state) := by
  apply (refl _).bind
  intro _
  split
  · apply (returnsAs_lift (operand_returnsAs within _)).bind
    intro num
    exact (evalChecksig_returnsAs crypto checker version within _ _ _ _).andThen _
  · exact .refl _

theorem evalCheckMultiSig_returnsAs (verify : Bool) (state : EvalState) :
    ReturnsAs (evalCheckMultiSig crypto checker weaker version verify state)
      (evalCheckMultiSig crypto checker stronger version verify state) := by
  apply (refl _).bind
  intro _
  apply (returnsAs_lift (readMultisigArguments_returnsAs within _ _)).bind
  intro arguments
  apply (returnsAs_lift (Exec.returnsAs_foldlM (removeSignature_returnsAs within version)
    arguments.sigs state.codeHash)).bind
  intro code
  apply (checkSignatures_returnsAs crypto checker version within code _ _).bind
  intro success
  exact (returnsAs_lift (dropMultisigArguments_returnsAs within success arguments)).andThen _

variable (opcode : UInt8)

theorem evalOperation_returnsAs (pos : UInt32) (rest : CScript) (fExec : Bool)
    (state : EvalState) (operation : Operation) :
    ReturnsAs (evalOperation crypto checker weaker version opcode pos rest fExec state operation)
      (evalOperation crypto checker stronger version opcode pos rest fExec state operation) := by
  cases operation with
  | opCheckLockTimeVerify =>
    exact returnsAs_lift ((evalCheckLockTimeVerify_returnsAs within checker state.stack).map _)
  | opCheckSequenceVerify =>
    exact returnsAs_lift ((evalCheckSequenceVerify_returnsAs within checker state.stack).map _)
  | upgradableNop =>
    exact returnsAs_lift
      ((within.ensure scriptVerifyDiscourageUpgradableNops (fun set => !set) rfl _).map _)
  | opIf => exact returnsAs_lift (evalIf_returnsAs version within false fExec state)
  | opNotIf => exact returnsAs_lift (evalIf_returnsAs version within true fExec state)
  | opPick => exact onStack_returnsAs state (evalPick_returnsAs within false state.stack)
  | opRoll => exact onStack_returnsAs state (evalPick_returnsAs within true state.stack)
  | unary opcode => exact onStack_returnsAs state (evalUnary_returnsAs within opcode state.stack)
  | binary opcode => exact onStack_returnsAs state (evalBinary_returnsAs within opcode state.stack)
  | opWithin => exact onStack_returnsAs state (evalWithin_returnsAs within state.stack)
  | opCheckSig => exact evalCheckSig_returnsAs crypto checker version within false state
  | opCheckSigVerify => exact evalCheckSig_returnsAs crypto checker version within true state
  | opCheckSigAdd => exact evalCheckSigAdd_returnsAs crypto checker version within state
  | opCheckMultiSig => exact evalCheckMultiSig_returnsAs crypto checker version within false state
  | opCheckMultiSigVerify =>
    exact evalCheckMultiSig_returnsAs crypto checker version within true state
  | _ =>
    -- no other opcode looks at the flags
    exact .refl _

theorem dispatch_returnsAs (data : List UInt8) (pos : UInt32) (rest : CScript) (state : EvalState) :
    ReturnsAs (dispatch crypto checker weaker version opcode data pos rest state)
      (dispatch crypto checker stronger version opcode data pos rest state) := by
  rw [dispatch, dispatch]
  split
  · apply returnsAs_lift
    exact (within.ensure scriptVerifyMinimalData
      (fun set => !(set && !checkMinimalPush data opcode)) rfl _).andThen _
  · split
    · exact evalOperation_returnsAs crypto checker version within _ _ _ _ _ _
    · exact .refl _

theorem evalInstruction_returnsAs (data : List UInt8) (pos : UInt32)
    (rest : CScript) (state : EvalState) :
    ReturnsAs (evalInstruction crypto checker weaker version opcode data pos rest state)
      (evalInstruction crypto checker stronger version opcode data pos rest state) := by
  apply (refl _).bind
  intro _
  apply (refl _).bind
  intro counted
  apply (refl _).bind
  intro _
  apply ReturnsAs.bind
  · exact returnsAs_lift (within.ensure scriptVerifyConstScriptCode
      (fun set => !(opcode == opCodeSeparator && version == .base && set))
      (by rw [Bool.and_false, Bool.not_false]) _)
  · intro _
    exact (dispatch_returnsAs crypto checker version within opcode data pos rest counted).andThen _

/-! ## Scripts -/

theorem evalFrom_returnsAs (pos : UInt32) (state : EvalState) (script : CScript) :
    ReturnsAs (evalFrom crypto checker weaker version pos state script)
      (evalFrom crypto checker stronger version pos state script) := by
  induction length : script.length using Nat.strongRecOn generalizing pos state script with
  | ind length' ih =>
    rw [evalFrom, evalFrom]
    split
    · exact .refl _
    · split
      next => exact .refl _
      next opcode data rest read =>
        apply (evalInstruction_returnsAs crypto checker version within opcode data pos rest
          state).bind
        intro next
        have shorter := length_getScriptOp_lt read
        exact ih rest.length (length ▸ shorter) _ next rest rfl

variable (script : CScript) (execdata : ScriptExecutionData)

theorem evalScript_returnsAs :
    ReturnsAs (evalScript crypto checker weaker version stack script execdata)
      (evalScript crypto checker stronger version stack script execdata) := by
  apply (refl _).bind
  intro _
  apply (refl _).bind
  intro _
  exact (evalFrom_returnsAs crypto checker version within _ _ _).andThen _

/-! ## Witness programs -/

theorem findOpSuccess_returnsAs :
    Exec.ReturnsAs (findOpSuccess weaker script) (findOpSuccess stronger script) := by
  induction length : script.length using Nat.strongRecOn generalizing script with
  | ind length' ih =>
    rw [findOpSuccess, findOpSuccess]
    split
    · exact .refl _
    · split
      next => exact .refl _
      next opcode data rest read =>
        split
        · exact (within.ensure scriptVerifyDiscourageOpSuccess (fun set => !set) rfl _).andThen _
        · have shorter := length_getScriptOp_lt read
          exact ih rest.length (length ▸ shorter) rest rfl

theorem executeWitnessScript_returnsAs :
    ReturnsAs (executeWitnessScript crypto checker weaker version stack script execdata)
      (executeWitnessScript crypto checker stronger version stack script execdata) := by
  have tapscript : Exec.ReturnsAs (checkTapscript weaker version stack script)
      (checkTapscript stronger version stack script) := by
    rw [checkTapscript, checkTapscript]
    split
    · exact (findOpSuccess_returnsAs within script).andThen _
    · exact .refl _
  apply (returnsAs_lift tapscript).bind
  intro succeeds
  split
  · exact .refl _
  · apply (refl _).bind
    intro _
    exact (evalScript_returnsAs crypto checker version within stack script execdata).andThen _

variable (witness : List (List UInt8))

theorem verifyScriptPath_returnsAs (program control script : List UInt8) (stack : Stack)
    (execdata : ScriptExecutionData) :
    ReturnsAs (verifyScriptPath crypto checker weaker witness program control script stack execdata)
      (verifyScriptPath crypto checker stronger witness program control script stack execdata) := by
  apply (refl _).bind
  intro _
  apply (refl _).bind
  intro committed
  apply (refl _).bind
  intro _
  split
  · exact executeWitnessScript_returnsAs crypto checker .tapscript within _ _ _
  · exact returnsAs_lift
      (within.ensure scriptVerifyDiscourageUpgradableTaprootVersion (fun set => !set) rfl _)

theorem verifyTaproot_returnsAs (program : List UInt8) :
    ReturnsAs (verifyTaproot crypto checker weaker witness program)
      (verifyTaproot crypto checker stronger witness program) := by
  rw [verifyTaproot, verifyTaproot]
  split
  · exact .refl _
  · exact .refl _
  · exact verifyScriptPath_returnsAs crypto checker within _ _ _ _ _ _

theorem verifyWitnessV0_returnsAs (program : List UInt8) :
    ReturnsAs (verifyWitnessV0 crypto checker weaker witness program)
      (verifyWitnessV0 crypto checker stronger witness program) := by
  rw [verifyWitnessV0, verifyWitnessV0]
  split
  · split
    · exact .refl _
    · apply (refl _).bind
      intro _
      exact executeWitnessScript_returnsAs crypto checker .witnessV0 within _ _ _
  · split
    · apply (refl _).bind
      intro _
      exact executeWitnessScript_returnsAs crypto checker .witnessV0 within _ _ _
    · exact .refl _

theorem verifyWitnessProgram_returnsAs (program : WitnessProgram) (isP2SH : Bool) :
    ReturnsAs (verifyWitnessProgram crypto checker weaker witness program isP2SH)
      (verifyWitnessProgram crypto checker stronger witness program isP2SH) := by
  rw [verifyWitnessProgram, verifyWitnessProgram]
  split
  · exact verifyWitnessV0_returnsAs crypto checker within witness program.program
  · split
    · cases set : hasFlag weaker scriptVerifyTaproot with
      | false => exact returnsAs_unit _
      | true =>
        rw [within.hasFlag set]
        exact verifyTaproot_returnsAs crypto checker within witness program.program
    · split
      · exact .refl _
      · exact returnsAs_lift
          (within.ensure scriptVerifyDiscourageUpgradableWitnessProgram (fun set => !set) rfl _)

/-! ## Spends -/

theorem verifyWitness_returnsAs (set : hasFlag weaker scriptVerifyWitness = true) (script : CScript)
    (wf : Bool) (malleated : ScriptError) (witness : List (List UInt8)) (isP2SH : Bool)
    (progress : SpendProgress) :
    ReturnsAs (verifyWitness crypto checker weaker script wf malleated witness isP2SH progress)
      (verifyWitness crypto checker stronger script wf malleated witness isP2SH progress) := by
  rw [verifyWitness, verifyWitness, set, within.hasFlag set]
  cases isWitnessProgram script with
  | none => exact .refl _
  | some program =>
    apply (refl _).bind
    intro _
    exact (verifyWitnessProgram_returnsAs crypto checker within witness program isP2SH).andThen _

theorem verifyRedeemScript_returnsAs (set : hasFlag weaker scriptVerifyWitness = true)
    (scriptSig : CScript) (witness : List (List UInt8)) (stackCopy : Stack) (hadWitness : Bool) :
    ReturnsAs (verifyRedeemScript crypto checker weaker scriptSig witness stackCopy hadWitness)
      (verifyRedeemScript crypto checker stronger scriptSig witness stackCopy hadWitness) := by
  apply (refl _).bind
  intro _
  cases stackCopy with
  | nil => exact .refl _
  | cons pubKey2 stack =>
    apply (evalScript_returnsAs crypto checker .base within stack pubKey2 {}).bind
    intro res
    apply (refl _).bind
    intro _
    exact verifyWitness_returnsAs crypto checker within set _ _ _ _ _ _

theorem checkCleanStack_returnsAs (valid : ValidFlags weaker) (stack : Stack) :
    Exec.ReturnsAs (checkCleanStack weaker stack) (checkCleanStack stronger stack) := by
  apply within.whenSet scriptVerifyCleanStack
  intro set
  obtain ⟨p2sh, witness⟩ := valid.cleanStack set
  rw [p2sh, witness, within.hasFlag p2sh, within.hasFlag witness]
  exact .refl _

theorem checkUnexpectedWitness_returnsAs (valid : ValidFlags weaker) (hadWitness : Bool)
    (witness : List (List UInt8)) :
    Exec.ReturnsAs (checkUnexpectedWitness weaker hadWitness witness)
      (checkUnexpectedWitness stronger hadWitness witness) := by
  apply within.whenSet scriptVerifyWitness
  intro set
  have p2sh := valid.witness set
  rw [p2sh, within.hasFlag p2sh]
  exact .refl _

variable {witness : List (List UInt8)}

theorem verifyRedeemScript_accepts_of_unset (unset : hasFlag weaker scriptVerifyWitness = false)
    {scriptSig : CScript} {stackCopy : Stack} {hadWitness : Bool}
    {progress : SpendProgress}
    (ran : (verifyRedeemScript crypto checker stronger scriptSig witness stackCopy
      hadWitness).outcome = .ok progress) (hadWitness' : Bool) :
    (verifyRedeemScript crypto checker weaker scriptSig witness stackCopy
      hadWitness').outcome.accepts := by
  simp only [verifyRedeemScript, outcome_bind, outcome_lift] at ran ⊢
  obtain ⟨_, pushOnly, ran⟩ := Exec.bind_eq_ok.mp ran
  cases stackCopy with
  | nil => cases ran
  | cons pubKey2 stack =>
    simp only [outcome_bind, outcome_lift] at ran ⊢
    obtain ⟨res, eval, ran⟩ := Exec.bind_eq_ok.mp ran
    obtain ⟨_, isTrue, -⟩ := Exec.bind_eq_ok.mp ran
    have evaluated' := evalScript_returnsAs crypto checker .base within stack pubKey2 {} res eval
    refine ⟨⟨hadWitness', res.1⟩, ?_⟩
    rw [pushOnly, Exec.ok_bind, evaluated', Exec.ok_bind, isTrue, Exec.ok_bind, verifyWitness,
      unset]
    rfl

theorem verifyOutputForms_accepts_of_unset (valid : ValidFlags weaker)
    (unset : hasFlag weaker scriptVerifyWitness = false) {scriptSig scriptPubKey : CScript}
    {stackCopy stack : Stack}
    (ran : (verifyOutputForms crypto checker stronger scriptSig scriptPubKey witness stackCopy
      stack).outcome = .ok ()) :
    (verifyOutputForms crypto checker weaker scriptSig scriptPubKey witness stackCopy
      stack).outcome = .ok () := by
  have notClean : hasFlag weaker scriptVerifyCleanStack = false := by
    rw [Bool.eq_false_iff]
    intro set
    rw [(valid.cleanStack set).2] at unset
    cases unset
  have ok : (verifyPayToScriptHash crypto checker weaker scriptSig scriptPubKey witness
      stackCopy ⟨false, stack⟩).outcome.accepts := by
    rw [verifyPayToScriptHash]
    split
    next isHash =>
      rw [Bool.and_eq_true] at isHash
      simp only [verifyOutputForms, outcome_bind] at ran
      obtain ⟨progress, -, ran⟩ := Exec.bind_eq_ok.mp ran
      obtain ⟨progress', redeemed, -⟩ := Exec.bind_eq_ok.mp ran
      rw [verifyPayToScriptHash, within.hasFlag isHash.1, isHash.2, if_pos (Bool.and_self true)]
        at redeemed
      exact verifyRedeemScript_accepts_of_unset crypto checker within unset redeemed false
    next => exact ⟨_, rfl⟩
  obtain ⟨progress, redeemed⟩ := ok
  simp only [verifyOutputForms, outcome_bind, outcome_lift, verifyWitness, unset,
    Bool.not_false, if_true, outcome_pure, Exec.ok_bind, redeemed, checkCleanStack, notClean,
    Bool.false_eq_true, if_false, Exec.pure_eq_ok, checkUnexpectedWitness]

theorem verifyOutputForms_returnsAs (valid : ValidFlags weaker) (scriptSig scriptPubKey : CScript)
    (witness : List (List UInt8)) (stackCopy stack : Stack) :
    ReturnsAs
      (verifyOutputForms crypto checker weaker scriptSig scriptPubKey witness stackCopy stack)
      (verifyOutputForms crypto checker stronger scriptSig scriptPubKey witness stackCopy stack) := by
  cases set : hasFlag weaker scriptVerifyWitness with
  | false =>
    intro _ ran
    exact verifyOutputForms_accepts_of_unset crypto checker within valid set ran
  | true =>
    have p2sh := valid.witness set
    apply (verifyWitness_returnsAs crypto checker within set _ _ _ _ _ _).bind
    intro progress
    apply ReturnsAs.bind
    · rw [verifyPayToScriptHash, verifyPayToScriptHash, p2sh, within.hasFlag p2sh]
      split
      · exact verifyRedeemScript_returnsAs crypto checker within set _ _ _ _
      · exact .refl _
    · intro progress
      apply (returnsAs_lift (checkCleanStack_returnsAs within valid progress.stack)).bind
      intro _
      exact returnsAs_lift (checkUnexpectedWitness_returnsAs within valid _ witness)

end Scripts

/-- Adding flags never turns a failing spend into a passing one.  Only the smaller set has to be
a valid combination: under an invalid one that asserts, no spend passes. -/
theorem verifyScript_softFork (within : FlagsWithin weaker stronger) (valid : ValidFlags weaker)
    (scriptSig scriptPubKey : CScript) (witness : List (List UInt8))
    (passes : (verifyScript crypto checker stronger scriptSig scriptPubKey witness).outcome =
      .ok ()) :
    (verifyScript crypto checker weaker scriptSig scriptPubKey witness).outcome = .ok () := by
  have simulated : ReturnsAs (verifyScript crypto checker weaker scriptSig scriptPubKey witness)
      (verifyScript crypto checker stronger scriptSig scriptPubKey witness) := by
    apply ReturnsAs.bind
    · exact returnsAs_lift (within.ensure scriptVerifySigPushOnly
        (fun set => !(set && !isPushOnly scriptSig)) rfl _)
    · intro _
      apply (evalScript_returnsAs crypto checker .base within _ _ _).bind
      intro first
      apply (evalScript_returnsAs crypto checker .base within _ _ _).bind
      intro second
      apply (refl _).bind
      intro _
      exact verifyOutputForms_returnsAs crypto checker within valid _ _ _ _ _
  exact simulated () passes

/-- A spend of a pay-to-script-hash output whose script pushes a one, under some flags. -/
def hashSpend (flags : ScriptVerifyFlags) : ScriptRun Unit :=
  verifyScript
    ⟨fun _ => List.replicate 20 0, id, id, id, id, fun _ => true, fun _ _ _ _ => true⟩
    ⟨fun _ _ _ _ => true, fun _ _ _ _ => .error .schnorrSig, fun _ => true, fun _ => true⟩ flags
    [0x01, Opcode.op1] ([Opcode.opHash160, 0x14] ++ List.replicate 20 0 ++ [Opcode.opEqual]) []

theorem verifyScript_softFork_hashSpend :
    (hashSpend (scriptVerifyP2SH ||| scriptVerifyWitness ||| scriptVerifyCleanStack)).outcome =
        .ok () ∧
      (hashSpend scriptVerifyP2SH).outcome = .ok () := by
  have passes : (hashSpend
      (scriptVerifyP2SH ||| scriptVerifyWitness ||| scriptVerifyCleanStack)).outcome = .ok () :=
    Exec.toOption_eq_some.mp (by decide +kernel)
  have valid : ValidFlags scriptVerifyP2SH := ⟨by decide, by decide⟩
  have within : FlagsWithin scriptVerifyP2SH
      (scriptVerifyP2SH ||| scriptVerifyWitness ||| scriptVerifyCleanStack) := rfl
  exact ⟨passes, verifyScript_softFork _ _ within valid _ _ _ passes⟩

end Champy
