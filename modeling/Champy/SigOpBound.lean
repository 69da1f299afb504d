import Champy.ScriptInterpreter
import Champy.ValidationScripts

/-!
# Counted and executed signature checks

`GetSigOpCount` scans a script without executing it.  It takes the number of keys of an
`OP_CHECKMULTISIG` from the opcode before it, while `EvalScript` takes it from the stack.  Where
that opcode is a small number and the multisignature is executed, the number was executed too,
since it does not touch the conditions, and so it is on top of the stack.
-/

namespace Champy

open Validation Traced Exec AtMost Operation

theorem forall_byte {holds : UInt8 → Prop} (all : ∀ value : Fin 256, holds (UInt8.ofFin value))
    (byte : UInt8) : holds byte :=
  all byte.toFin

/-! ## Small numbers -/

theorem ofOpcode_of_small : ∀ opcode : UInt8, isSmallIntegerOpcode opcode = true →
    ofOpcode opcode = .pushNumber ∧ ¬opcode ≤ Opcode.opPushData4 ∧
      isConditional opcode = false := by
  apply forall_byte
  decide +kernel

theorem serializeNum_of_small : ∀ opcode : UInt8, isSmallIntegerOpcode opcode = true →
    serializeNum (opcode.toNat - 0x50) = [opcode - 0x50] := by
  apply forall_byte
  decide +kernel

theorem setVch_of_small : ∀ opcode : UInt8, isSmallIntegerOpcode opcode = true →
    getInt (setVch [opcode - 0x50]) = smallIntegerValue opcode ∧
      isMinimallyEncoded [opcode - 0x50] = true := by
  apply forall_byte
  decide +kernel

variable {state : EvalState} {opcode lastOpcode : UInt8} {data : List UInt8}

theorem operand_of_small (small : isSmallIntegerOpcode opcode = true) (flags : ScriptVerifyFlags)
    {value : Int} (read : operand flags [opcode - 0x50] = .ok value) :
    getInt value = smallIntegerValue opcode := by
  obtain ⟨_, -, rest⟩ := bind_eq_ok.mp read
  obtain ⟨_, -, ret⟩ := bind_eq_ok.mp rest
  cases ret
  exact (setVch_of_small opcode small).1

/-! ## Signature checks of one opcode -/

variable {crypto : ScriptCrypto} {checker : SignatureChecker} {flags : ScriptVerifyFlags}
  {sigversion : SigVersion}

theorem checkEncodedSignature_atMost (vchSig vchPubKey : List UInt8) (code : CScript) :
    (checkEncodedSignature crypto checker flags sigversion vchSig vchPubKey code).AtMost 1 := by
  apply lift_bind
  intro _ _
  apply lift_bind
  intro _ _
  exact atMost_emit _ _

theorem evalChecksig_atMost (sig pubkey : List UInt8) (codeHash : CScript)
    (execdata : ScriptExecutionData) :
    (evalChecksig crypto checker flags sigversion sig pubkey codeHash execdata).AtMost 1 := by
  have preTapscript : (evalChecksigPreTapscript crypto checker flags sigversion sig pubkey
      codeHash).AtMost 1 := by
    apply lift_bind
    intro _ _
    apply lift_bind
    intro code _
    apply (checkEncodedSignature_atMost sig pubkey code).bind_lift
    intro success
    apply lift_bind
    intro _ _
    exact atMost_pure _ _
  cases sigversion with
  | base => exact preTapscript.bind_lift fun _ => atMost_pure _ _
  | witnessV0 => exact preTapscript.bind_lift fun _ => atMost_pure _ _
  | taproot => exact atMost_lift _ _
  | tapscript => exact atMost_lift _ _

variable (verify : Bool)

theorem evalCheckSig_atMost (state : EvalState) :
    (evalCheckSig crypto checker flags sigversion verify state).AtMost 1 := by
  rw [evalCheckSig]
  split
  · apply (evalChecksig_atMost _ _ _ _).bind_lift
    intro checked
    apply lift_bind
    intro _ _
    exact atMost_pure _ _
  · exact atMost_lift _ _

/-- Each round of the loop uses up a key. -/
theorem checkSignatures_atMost (code : CScript) (keys sigs : Stack) :
    (checkSignatures crypto checker flags sigversion code keys sigs).AtMost keys.length := by
  induction keys generalizing sigs with
  | nil => cases sigs <;> exact atMost_pure _ _
  | cons key keys ih =>
    cases sigs with
    | nil => exact atMost_pure _ _
    | cons sig sigs =>
      rw [checkSignatures, List.length_cons, Nat.add_comm]
      apply (checkEncodedSignature_atMost sig key code).bind
      intro ok _
      dsimp only
      generalize (if ok = true then sigs else sig :: sigs) = left
      split
      · exact atMost_pure _ _
      · exact ih left

/-- The number of keys is at most twenty, and it is the number on top of the stack. -/
theorem readMultisigArguments_keys {stack : Stack} {nOpCount : Nat} {arguments : MultisigArguments}
    (read : readMultisigArguments flags stack nOpCount = .ok arguments) :
    arguments.keys.length ≤ 20 ∧
      ∀ opcode below, isSmallIntegerOpcode opcode = true → stack = [opcode - 0x50] :: below →
        arguments.keys.length ≤ smallIntegerValue opcode := by
  obtain ⟨_, -, read⟩ := bind_eq_ok.mp read
  obtain ⟨keysTop, top, read⟩ := bind_eq_ok.mp read
  obtain ⟨keysNum, num, read⟩ := bind_eq_ok.mp read
  obtain ⟨_, inRange, read⟩ := bind_eq_ok.mp read
  dsimp only at read
  obtain ⟨_, -, read⟩ := bind_eq_ok.mp read
  obtain ⟨_, -, read⟩ := bind_eq_ok.mp read
  obtain ⟨sigsTop, -, read⟩ := bind_eq_ok.mp read
  obtain ⟨sigsNum, -, read⟩ := bind_eq_ok.mp read
  obtain ⟨_, -, read⟩ := bind_eq_ok.mp read
  obtain ⟨_, -, read⟩ := bind_eq_ok.mp read
  cases read
  rw [ensure_eq_ok, Bool.not_eq_true', Bool.or_eq_false_iff, decide_eq_false_iff_not,
    decide_eq_false_iff_not, maxMultisigKeys] at inRange
  have taken : ((stack.drop 1).take (getInt keysNum).toNat).length ≤ (getInt keysNum).toNat :=
    List.length_take_le _ _
  refine ⟨by dsimp only; omega, ?_⟩
  intro opcode below small stackEq
  rw [stackEq] at top
  cases top
  have value := operand_of_small small flags num
  dsimp only
  omega

theorem evalCheckMultiSig_atMost {bound : Nat}
    (keys : ∀ arguments, readMultisigArguments flags state.stack state.nOpCount = .ok arguments →
      arguments.keys.length ≤ bound) :
    (evalCheckMultiSig crypto checker flags sigversion verify state).AtMost bound := by
  apply lift_bind
  intro _ _
  apply lift_bind
  intro arguments read
  apply lift_bind
  intro code _
  apply ((checkSignatures_atMost code arguments.keys arguments.sigs).mono
    (keys arguments read)).bind_lift
  intro success
  apply lift_bind
  intro _ _
  apply lift_bind
  intro _ _
  exact atMost_pure _ _

/-! ## One instruction -/

/-- A small number that was executed is on top of the stack. -/
def AfterOpcode (lastOpcode : UInt8) (state : EvalState) : Prop :=
  isSmallIntegerOpcode lastOpcode = true → state.vfExec.allTrue = true →
    ∃ below, state.stack = [lastOpcode - 0x50] :: below

theorem opcodeSigops_of_operation : ∀ opcode : UInt8,
    ((ofOpcode opcode = .opCheckSig ∨ ofOpcode opcode = .opCheckSigVerify) →
      opcode = Opcode.opCheckSig ∨ opcode = Opcode.opCheckSigVerify) ∧
    ((ofOpcode opcode = .opCheckMultiSig ∨ ofOpcode opcode = .opCheckMultiSigVerify) →
      opcode = Opcode.opCheckMultiSig ∨ opcode = Opcode.opCheckMultiSigVerify) := by
  apply forall_byte
  decide +kernel

theorem opcodeSigops_of_checkSig (operation : ofOpcode opcode = .opCheckSig ∨
      ofOpcode opcode = .opCheckSigVerify) (lastOpcode : UInt8) :
    opcodeSigops true lastOpcode opcode = 1 := by
  rcases (opcodeSigops_of_operation opcode).1 operation with eq | eq
  · subst eq
    rfl
  · subst eq
    rfl

theorem opcodeSigops_of_checkMultiSig (operation : ofOpcode opcode = .opCheckMultiSig ∨
      ofOpcode opcode = .opCheckMultiSigVerify) (lastOpcode : UInt8) :
    opcodeSigops true lastOpcode opcode =
      if isSmallIntegerOpcode lastOpcode then smallIntegerValue lastOpcode else 20 := by
  rcases (opcodeSigops_of_operation opcode).2 operation with eq | eq
  · subst eq
    rfl
  · subst eq
    rfl

theorem evalCheckMultiSig_atMost_of_afterOpcode
    (after : AfterOpcode lastOpcode state) (executed : state.vfExec.allTrue = true) :
    (evalCheckMultiSig crypto checker flags sigversion verify state).AtMost
      (if isSmallIntegerOpcode lastOpcode then smallIntegerValue lastOpcode else 20) := by
  apply evalCheckMultiSig_atMost
  intro arguments read
  obtain ⟨atMostTwenty, atMostNumber⟩ := readMultisigArguments_keys read
  split
  next small =>
    obtain ⟨below, stackEq⟩ := after small executed
    exact atMostNumber lastOpcode below small stackEq
  next => exact atMostTwenty

theorem evalOperation_atMost (before : sigversion = .base ∨ sigversion = .witnessV0)
    (after : AfterOpcode lastOpcode state)
    (reached : state.vfExec.allTrue = true ∨ isConditional opcode = true) (pos : UInt32)
    (rest : CScript) :
    (evalOperation crypto checker flags sigversion opcode pos rest state.vfExec.allTrue state
      (ofOpcode opcode)).AtMost (opcodeSigops true lastOpcode opcode) := by
  have multisig (verify : Bool) (operation : ofOpcode opcode = .opCheckMultiSig ∨
      ofOpcode opcode = .opCheckMultiSigVerify) :
      (evalCheckMultiSig crypto checker flags sigversion verify state).AtMost
        (opcodeSigops true lastOpcode opcode) := by
    have executed : state.vfExec.allTrue = true := by
      apply reached.resolve_right
      rcases (opcodeSigops_of_operation opcode).2 operation with eq | eq
      · rw [eq]
        decide
      · rw [eq]
        decide
    rw [opcodeSigops_of_checkMultiSig operation]
    exact evalCheckMultiSig_atMost_of_afterOpcode verify after executed
  cases operation : ofOpcode opcode with
  | opCheckSig =>
    rw [opcodeSigops_of_checkSig (.inl operation)]
    exact evalCheckSig_atMost false state
  | opCheckSigVerify =>
    rw [opcodeSigops_of_checkSig (.inr operation)]
    exact evalCheckSig_atMost true state
  | opCheckMultiSig => exact multisig false (.inl operation)
  | opCheckMultiSigVerify => exact multisig true (.inr operation)
  | opCheckSigAdd =>
    -- the opcode is rejected before its signature is looked at
    apply lift_bind
    intro _ allowed
    rcases before with rfl | rfl
    · cases allowed
    · cases allowed
  | pushNumber | opNop | opCodeSeparator => exact atMost_pure _ _
  | _ => exact atMost_lift _ _

variable {next : EvalState}

theorem countOperation_eq_ok (ran : countOperation sigversion opcode state = .ok next) :
    ∃ nOpCount, next = { state with nOpCount := nOpCount } := by
  rw [countOperation] at ran
  split at ran
  · obtain ⟨_, -, ret⟩ := bind_eq_ok.mp ran
    cases ret
    exact ⟨_, rfl⟩
  · cases ran
    exact ⟨_, rfl⟩

theorem dispatch_atMost (before : sigversion = .base ∨ sigversion = .witnessV0)
    (after : AfterOpcode lastOpcode state) (data : List UInt8) (pos : UInt32) (rest : CScript) :
    (dispatch crypto checker flags sigversion opcode data pos rest state).AtMost
      (opcodeSigops true lastOpcode opcode) := by
  rw [dispatch]
  split
  · exact atMost_lift _ _
  · split
    next reached => exact evalOperation_atMost before after (Bool.or_eq_true_iff.mp reached) _ _
    next => exact atMost_pure _ _

theorem evalInstruction_atMost (before : sigversion = .base ∨ sigversion = .witnessV0)
    (after : AfterOpcode lastOpcode state) (data : List UInt8) (pos : UInt32) (rest : CScript) :
    (evalInstruction crypto checker flags sigversion opcode data pos rest state).AtMost
      (opcodeSigops true lastOpcode opcode) := by
  apply lift_bind
  intro _ _
  apply lift_bind
  intro counted ran
  obtain ⟨nOpCount, rfl⟩ := countOperation_eq_ok ran
  have afterCount : AfterOpcode lastOpcode { state with nOpCount := nOpCount } := after
  apply lift_bind
  intro _ _
  apply lift_bind
  intro _ _
  apply (dispatch_atMost before afterCount data pos rest).bind_lift
  intro next
  apply lift_bind
  intro _ _
  exact atMost_pure _ _

/-- A small number does not change the conditions, so it was executed when it looks so after. -/
theorem dispatch_afterOpcode {pos : UInt32} {rest : CScript}
    (ran : (dispatch crypto checker flags sigversion opcode data pos rest state).outcome =
      .ok next) : AfterOpcode opcode next := by
  intro small executed
  obtain ⟨operation, notPush, notConditional⟩ := ofOpcode_of_small opcode small
  rw [dispatch, decide_eq_false notPush, Bool.and_false, if_neg Bool.false_ne_true, notConditional,
    Bool.or_false, operation] at ran
  split at ran
  next =>
    cases ran
    exact ⟨state.stack, congrArg (· :: state.stack) (serializeNum_of_small opcode small)⟩
  next skipped =>
    cases ran
    exact absurd executed skipped

theorem evalInstruction_afterOpcode {pos : UInt32} {rest : CScript}
    (ran : (evalInstruction crypto checker flags sigversion opcode data pos rest
      state).outcome = .ok next) : AfterOpcode opcode next := by
  simp only [evalInstruction, outcome_bind, outcome_lift] at ran
  obtain ⟨_, -, ran⟩ := bind_eq_ok.mp ran
  obtain ⟨counted, -, ran⟩ := bind_eq_ok.mp ran
  obtain ⟨_, -, ran⟩ := bind_eq_ok.mp ran
  obtain ⟨_, -, ran⟩ := bind_eq_ok.mp ran
  obtain ⟨dispatched, ranDispatch, ran⟩ := bind_eq_ok.mp ran
  obtain ⟨_, -, ret⟩ := bind_eq_ok.mp ran
  cases ret
  exact dispatch_afterOpcode ranDispatch

/-! ## Scripts -/

/-- Fuel beyond the bytes that are left changes nothing. -/
theorem decodeOpcodes_succ {fuel : Nat} {bytes : List UInt8} (enough : bytes.length ≤ fuel) :
    decodeOpcodes (fuel + 1) bytes = decodeOpcodes fuel bytes := by
  induction fuel generalizing bytes with
  | zero =>
    rw [List.length_eq_zero_iff.mp (Nat.le_zero.mp enough)]
    rfl
  | succ fuel ih =>
    cases bytes with
    | nil => rfl
    | cons byte bytes =>
      rw [decodeOpcodes, decodeOpcodes, readOpcode_eq]
      · cases read : getScriptOp (byte :: bytes) with
        | none => rfl
        | some op =>
          have shorter := length_getScriptOp_lt read
          have same : decodeOpcodes (fuel + 1) op.2.2 = decodeOpcodes fuel op.2.2 :=
            ih (Nat.le_trans (Nat.le_of_lt_succ shorter) (Nat.le_of_succ_le_succ enough))
          simp [same]
      all_goals exact List.cons_ne_nil _ _

theorem decodeOpcodes_of_le {fuel : Nat} {bytes : List UInt8} (enough : bytes.length ≤ fuel) :
    decodeOpcodes fuel bytes = scriptOpcodes bytes := by
  induction fuel, enough using Nat.le_induction with
  | base => rfl
  | succ fuel enough ih => rw [decodeOpcodes_succ enough, ih]

theorem scriptOpcodes_of_getScriptOp {script rest : CScript}
    (read : getScriptOp script = some (opcode, data, rest)) :
    (scriptOpcodes script).1 = ⟨opcode, data⟩ :: (scriptOpcodes rest).1 := by
  have shorter := length_getScriptOp_lt read
  cases script with
  | nil => cases read
  | cons byte bytes =>
    rw [List.length_cons] at shorter
    rw [scriptOpcodes, List.length_cons, decodeOpcodes, readOpcode_eq, read]
    · change _ :: (decodeOpcodes bytes.length rest).1 = _
      rw [decodeOpcodes_of_le (Nat.le_of_lt_succ shorter)]
      rfl
    · exact List.cons_ne_nil _ _

theorem countSigops_eq_add (accurate : Bool) (opcodes : List DecodedOpcode) (lastOpcode : UInt8)
    (count : Nat) :
    countSigops accurate opcodes lastOpcode count =
      count + countSigops accurate opcodes lastOpcode 0 := by
  induction opcodes generalizing lastOpcode count with
  | nil => rfl
  | cons decoded opcodes ih =>
    rw [countSigops, countSigops, ih, ih _ (0 + _), Nat.zero_add, Nat.add_assoc]

/-- The loop: each instruction makes at most the checks that are counted for it. -/
theorem evalFrom_atMost (before : sigversion = .base ∨ sigversion = .witnessV0)
    (after : AfterOpcode lastOpcode state) (pos : UInt32) (script : CScript) :
    (evalFrom crypto checker flags sigversion pos state script).AtMost
      (countSigops true (scriptOpcodes script).1 lastOpcode 0) := by
  induction length : script.length using Nat.strongRecOn generalizing script state lastOpcode pos with
  | ind length' ih =>
    rw [evalFrom]
    split
    · exact atMost_pure _ _
    · split
      next => exact atMost_lift _ _
      next opcode data rest read =>
        rw [scriptOpcodes_of_getScriptOp read, countSigops, countSigops_eq_add, Nat.zero_add]
        apply (evalInstruction_atMost before after data pos rest).bind
        intro next ran
        have shorter := length_getScriptOp_lt read
        exact ih rest.length (length ▸ shorter) (evalInstruction_afterOpcode ran) _ rest rfl

/-- However a script runs, it makes no more signature checks than were counted for it. -/
theorem evalScript_signatureChecks_le (before : sigversion = .base ∨ sigversion = .witnessV0)
    (stack : Stack) (script : CScript) (execdata : ScriptExecutionData) :
    (evalScript crypto checker flags sigversion stack script execdata).trace.length ≤
      (getSigOpCount script true).toNat := by
  apply lift_bind
  intro _ _
  apply lift_bind
  intro _ sized
  have short : script.length ≤ 10000 := by
    rw [ensure_eq_ok] at sized
    rcases before with rfl | rfl
    · simpa [maxScriptSize] using sized
    · simpa [maxScriptSize] using sized
  have exactCount : (getSigOpCount script true).toNat = sigopCount script true := by
    have counted := sigopCount_le script true
    rw [getSigOpCount_eq, UInt32.toNat_ofNat_of_lt']
    change sigopCount script true < 2 ^ 32
    omega
  rw [exactCount]
  have initial : AfterOpcode 0xff { stack := stack, codeHash := script, execdata := { execdata with
          codeseparatorPos := 0xffffffff, codeseparatorPosInit := true } } := by
    intro small
    exact absurd small (by decide)
  apply (evalFrom_atMost before initial 0 script).bind_lift
  intro state
  apply lift_bind
  intro _ _
  exact atMost_pure _ _

/-- A multisignature of one key, with a checker that accepts everything. -/
def oneKeyRun : ScriptRun (Stack × ScriptExecutionData) :=
  evalScript ⟨id, id, id, id, id, fun _ => true, fun _ _ _ _ => true⟩
    ⟨fun _ _ _ _ => true, fun _ _ _ _ => .error .schnorrSig, fun _ => true, fun _ => true⟩ 0 .base
    [[2], [1], [3], []] [Opcode.op1, Opcode.opCheckMultiSig] {}

theorem evalScript_signatureChecks_le_oneKey : oneKeyRun.trace.length = 1 ∧
      oneKeyRun.trace.length ≤ (getSigOpCount [Opcode.op1, Opcode.opCheckMultiSig] true).toNat :=
  ⟨by decide +kernel, evalScript_signatureChecks_le (.inl rfl) _ _ _⟩

end Champy
