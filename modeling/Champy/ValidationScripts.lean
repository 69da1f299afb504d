import Champy.CoreSerialization
import Champy.Scripts
import Champy.ValidationTransactions

/-!
# Script inspection in the value library

`bitcoin/validation` reads scripts with its own decoder and counts signature
operations in `std::size_t`.  The decoder keeps an offset into the bytes; here it keeps
the bytes that are left.

Each function is compared with the one of the interpreter that it repeats.  The counters
of the interpreter wrap at 32 bits, so the counts agree up to `UInt32.ofNat`, and they
agree as numbers wherever a bound on the script keeps them small.
-/

namespace Champy

namespace Validation

open Protocol Opcode UInt8

structure DecodedOpcode where
  opcode : UInt8
  data : List UInt8
  deriving DecidableEq, Repr

variable (bytes : List UInt8) (accurate : Bool)

def readLittlePushSize (byteCount : Nat) : Nat :=
  readLE (bytes.take byteCount)

/-- The last part of `read_opcode`: the pushed data, when it is all there. -/
def readPush (opcode : UInt8) (pushSize : Nat) (rest : List UInt8) :
    Option (DecodedOpcode × List UInt8) :=
  if rest.length < pushSize then none
  else some (⟨opcode, rest.take pushSize⟩, rest.drop pushSize)

/-- A push whose size stands in the bytes after the opcode. -/
def readSizedPush (opcode : UInt8) (sizeBytes : Nat) (rest : List UInt8) :
    Option (DecodedOpcode × List UInt8) :=
  if rest.length < sizeBytes then none
  else readPush opcode (readLittlePushSize rest sizeBytes) (rest.drop sizeBytes)

def readOpcode : List UInt8 → Option (DecodedOpcode × List UInt8)
  | [] => none
  | opcode :: rest =>
    if 1 ≤ opcode && opcode ≤ 75 then readPush opcode opcode.toNat rest
    else if opcode = opPushData1 then readSizedPush opcode 1 rest
    else if opcode = opPushData2 then readSizedPush opcode 2 rest
    else if opcode = opPushData4 then readSizedPush opcode 4 rest
    else some (⟨opcode, []⟩, rest)

/-- The opcodes that the loops over a script read, and whether no read failed.  Each read
takes at least one byte. -/
def decodeOpcodes : Nat → List UInt8 → List DecodedOpcode × Bool
  | _, [] => ([], true)
  | 0, _ :: _ => ([], false)
  | fuel + 1, bytes =>
    match readOpcode bytes with
    | none => ([], false)
    | some (decoded, rest) =>
      let later := decodeOpcodes fuel rest
      (decoded :: later.1, later.2)

def scriptOpcodes : List DecodedOpcode × Bool :=
  decodeOpcodes bytes.length bytes

def isSmallIntegerOpcode (opcode : UInt8) : Bool :=
  op1 ≤ opcode && opcode ≤ op16

def smallIntegerValue (opcode : UInt8) : Nat :=
  (opcode.toUInt32 - 0x50).toNat

/-- What one opcode adds to the count of `sigop_count`. -/
def opcodeSigops (lastOpcode opcode : UInt8) : Nat :=
  if opcode = opCheckSig || opcode = opCheckSigVerify then 1
  else if opcode = opCheckMultiSig || opcode = opCheckMultiSigVerify then
    if accurate && isSmallIntegerOpcode lastOpcode then smallIntegerValue lastOpcode else 20
  else 0

def countSigops (accurate : Bool) : List DecodedOpcode → UInt8 → Nat → Nat
  | [], _, count => count
  | decoded :: later, lastOpcode, count =>
    countSigops accurate later decoded.opcode
      (count + opcodeSigops accurate lastOpcode decoded.opcode)

def sigopCount : Nat :=
  countSigops accurate (scriptOpcodes bytes).1 0xff 0

def legacyScriptSigopCount (script : List UInt8) : Nat :=
  sigopCount script false

def legacySigopCount (tx : Transaction) : Nat :=
  let inputs := tx.inputs.foldl (fun count input => count + legacyScriptSigopCount input.script) 0
  tx.outputs.foldl (fun count output => count + legacyScriptSigopCount output.script) inputs

def isPayToScriptHash (script : List UInt8) : Bool :=
  script.length == 23 && script[0]? == some opHash160 && script[1]? == some 20 &&
    script[22]? == some opEqual

structure PushedScript where
  pushOnly : Bool
  lastPush : List UInt8
  deriving DecidableEq, Repr

/-- The loop of `last_pushed_script`, over the opcodes and the outcome of the last read. -/
def lastPushed (complete : Bool) : List DecodedOpcode → List UInt8 → PushedScript
  | [], lastPush => if complete then ⟨true, lastPush⟩ else ⟨false, []⟩
  | decoded :: later, _ =>
    if op16 < decoded.opcode then ⟨false, []⟩ else lastPushed complete later decoded.data

def lastPushedScript (scriptSig : List UInt8) : PushedScript :=
  let opcodes := scriptOpcodes scriptSig
  lastPushed opcodes.2 opcodes.1 []

def p2shSigopCount (input : TxInput) (previousScript : List UInt8) : Nat :=
  if !isPayToScriptHash previousScript then 0
  else
    let pushed := lastPushedScript input.script
    if !pushed.pushOnly then 0 else sigopCount pushed.lastPush true

def witnessVersion (opcode : UInt8) : Nat :=
  if opcode = op0 then 0 else smallIntegerValue opcode

/-- `parse_witness_program`, where a program that is not `present` is `none`. -/
def parseWitnessProgram : Option WitnessProgram :=
  if bytes.length < 4 || 42 < bytes.length then none
  else
    match bytes with
    | versionOpcode :: programSize :: program =>
      if versionOpcode != op0 && !isSmallIntegerOpcode versionOpcode then none
      else if programSize.toNat + 2 != bytes.length then none
      else some ⟨witnessVersion versionOpcode, program.take programSize.toNat⟩
    | _ => none

def programSigopCount (program : Option WitnessProgram) (witness : List (List UInt8)) : Nat :=
  match program with
  | none => 0
  | some program =>
    if program.version != 0 then 0
    else if program.program.length = 20 then 1
    else if program.program.length = 32 && !witness.isEmpty then
      sigopCount (witness.getLast?.getD []) true
    else 0

def containsFlags (flags other : ScriptVerifyFlags) : Bool :=
  flags &&& other == other

def witnessSigopCount (input : TxInput) (previousScript : List UInt8)
    (flags : ScriptVerifyFlags) : Nat :=
  if !containsFlags flags scriptVerifyWitness then 0
  else
    let nativeProgram := parseWitnessProgram previousScript
    if nativeProgram.isSome then programSigopCount nativeProgram input.witness
    else if !containsFlags flags scriptVerifyP2SH || !isPayToScriptHash previousScript then 0
    else
      let pushed := lastPushedScript input.script
      if !pushed.pushOnly then 0
      else programSigopCount (parseWitnessProgram pushed.lastPush) input.witness

/-! ## Agreement with the interpreter -/

/-- An opcode of the interpreter in the form of the value library. -/
def decodedOp (op : UInt8 × List UInt8) : DecodedOpcode :=
  ⟨op.1, op.2⟩

theorem readPush_eq (opcode : UInt8) (pushSize : Nat) (rest : List UInt8) :
    readPush opcode pushSize rest = (if rest.length < pushSize then none
        else some (opcode, rest.take pushSize, rest.drop pushSize)).map
          fun op => (decodedOp (op.1, op.2.1), op.2.2) := by
  rw [readPush]
  split <;> rfl

theorem getScriptOp_sized {opcode : UInt8} {width : Nat} {rest : List UInt8}
    (operand : getOperandSize opcode rest =
      if rest.length < width then none else some (readLE (rest.take width), rest.drop width))
    (small : opcode ≤ opPushData4) :
    readSizedPush opcode width rest =
      (getScriptOp (opcode :: rest)).map fun op => (decodedOp (op.1, op.2.1), op.2.2) := by
  rw [readSizedPush, getScriptOp, if_pos small, operand]
  by_cases short : rest.length < width
  · simp only [if_pos short, Option.map_none]
  · simp only [if_neg short]
    exact readPush_eq opcode _ _

theorem readOpcode_eq :
    readOpcode bytes = (getScriptOp bytes).map fun op => (decodedOp (op.1, op.2.1), op.2.2) := by
  cases bytes with
  | nil => rfl
  | cons opcode rest =>
    rw [readOpcode]
    by_cases direct : opcode < opPushData1
    · have small : opcode ≤ opPushData4 := UInt8.le_trans (UInt8.le_of_lt direct) (by decide)
      have operand : getOperandSize opcode rest = some (opcode.toNat, rest) := if_pos direct
      have below : opcode.toNat < 76 := lt_iff_toNat_lt.mp direct
      rw [getScriptOp, if_pos small, operand]
      by_cases zero : opcode = 0
      · subst zero
        have notPush : ¬ rest.length < (0 : UInt8).toNat := Nat.not_lt_zero _
        simp only [if_neg notPush]
        rfl
      · have pos : 0 < opcode.toNat := by
          apply Nat.pos_of_ne_zero
          intro toNatZero
          exact zero (UInt8.toNat_inj.mp toNatZero)
        have push : (decide (1 ≤ opcode) && decide (opcode ≤ 75)) = true := by
          rw [Bool.and_eq_true, decide_eq_true_iff, decide_eq_true_iff, le_iff_toNat_le,
            le_iff_toNat_le]
          exact ⟨pos, Nat.le_of_lt_succ below⟩
        rw [if_pos push]
        exact readPush_eq opcode _ _
    · have notPush : ¬ (decide (1 ≤ opcode) && decide (opcode ≤ 75)) = true := by
        rw [Bool.and_eq_true, decide_eq_true_iff, decide_eq_true_iff, not_and]
        intro _ bounded
        have below := le_iff_toNat_le.mp bounded
        exact direct (UInt8.lt_iff_toNat_lt.mpr (Nat.lt_succ_of_le below))
      rw [if_neg notPush]
      by_cases one : opcode = opPushData1
      · subst one
        rw [if_pos rfl]
        exact getScriptOp_sized rfl (by decide)
      by_cases two : opcode = opPushData2
      · subst two
        rw [if_neg (by decide), if_pos rfl]
        exact getScriptOp_sized rfl (by decide)
      by_cases four : opcode = opPushData4
      · subst four
        rw [if_neg (by decide), if_neg (by decide), if_pos rfl]
        exact getScriptOp_sized rfl (by decide)
      · -- from here on the opcode is above every push
        have above : ¬ opcode ≤ opPushData4 := by
          intro bounded
          have upper : opcode.toNat ≤ 78 := le_iff_toNat_le.mp bounded
          have lower : ¬ opcode.toNat < 76 := fun below => direct (UInt8.lt_iff_toNat_lt.mpr below)
          have notOne : opcode.toNat ≠ 76 := fun eq => one (UInt8.toNat_inj.mp eq)
          have notTwo : opcode.toNat ≠ 77 := fun eq => two (UInt8.toNat_inj.mp eq)
          have notFour : opcode.toNat ≠ 78 := fun eq => four (UInt8.toNat_inj.mp eq)
          omega
        rw [if_neg one, if_neg two, if_neg four, getScriptOp, if_neg above]
        rfl

theorem decodeOpcodes_eq (fuel : Nat) (bytes : List UInt8) : decodeOpcodes fuel bytes =
      ((readScriptOps fuel bytes).1.map decodedOp, (readScriptOps fuel bytes).2) := by
  induction fuel generalizing bytes with
  | zero => cases bytes <;> rfl
  | succ fuel ih =>
    cases bytes with
    | nil => rfl
    | cons byte bytes =>
      rw [decodeOpcodes, readScriptOps, readOpcode_eq]
      · cases getScriptOp (byte :: bytes) with
        | none => rfl
        | some op => simp [ih]
      all_goals exact List.cons_ne_nil _ _

theorem scriptOpcodes_eq :
    scriptOpcodes bytes = ((scriptOps bytes).1.map decodedOp, (scriptOps bytes).2) :=
  decodeOpcodes_eq bytes.length bytes

/-! ## Signature operation counts -/

theorem opcodeSigops_le (lastOpcode opcode : UInt8) :
    opcodeSigops accurate lastOpcode opcode ≤ 20 := by
  rw [opcodeSigops]
  split
  · decide
  split
  · split
    next small =>
      rw [Bool.and_eq_true, isSmallIntegerOpcode, Bool.and_eq_true, decide_eq_true_iff,
        decide_eq_true_iff] at small
      have lower : 81 ≤ lastOpcode.toNat := le_iff_toNat_le.mp small.2.1
      have upper : lastOpcode.toNat ≤ 96 := le_iff_toNat_le.mp small.2.2
      have above : (0x50 : UInt32) ≤ lastOpcode.toUInt32 := by
        rw [UInt32.le_iff_toNat_le, toNat_toUInt32]
        exact Nat.le_trans (by decide) lower
      rw [smallIntegerValue, UInt32.toNat_sub_of_le _ _ above, toNat_toUInt32]
      have base : (0x50 : UInt32).toNat = 80 := rfl
      omega
    next => exact Nat.le_refl _
  · exact Nat.zero_le _

theorem countSigops_le (opcodes : List DecodedOpcode) (lastOpcode : UInt8) (count : Nat) :
    countSigops accurate opcodes lastOpcode count ≤ count + 20 * opcodes.length := by
  induction opcodes generalizing lastOpcode count with
  | nil => exact Nat.le_refl _
  | cons decoded later ih =>
    have added := opcodeSigops_le accurate lastOpcode decoded.opcode
    have rest := ih decoded.opcode (count + opcodeSigops accurate lastOpcode decoded.opcode)
    rw [countSigops, List.length_cons]
    omega

theorem length_decodeOpcodes_le (fuel : Nat) (bytes : List UInt8) :
    (decodeOpcodes fuel bytes).1.length ≤ fuel := by
  induction fuel generalizing bytes with
  | zero => cases bytes <;> exact Nat.le_refl _
  | succ fuel ih =>
    cases bytes with
    | nil => exact Nat.zero_le _
    | cons byte bytes =>
      rw [decodeOpcodes]
      · cases readOpcode (byte :: bytes) with
        | none => exact Nat.zero_le _
        | some read => exact Nat.succ_le_succ (ih read.2)
      · exact List.cons_ne_nil _ _

theorem sigopCount_le : sigopCount bytes accurate ≤ 20 * bytes.length := by
  have counted := countSigops_le accurate (scriptOpcodes bytes).1 0xff 0
  have opcodes : (scriptOpcodes bytes).1.length ≤ bytes.length :=
    length_decodeOpcodes_le bytes.length bytes
  rw [sigopCount]
  omega

theorem countSigOps_eq (ops : List (UInt8 × List UInt8)) (lastOpcode : UInt8) (count : Nat) :
    countSigOps accurate ops lastOpcode (UInt32.ofNat count) =
      UInt32.ofNat (countSigops accurate (ops.map decodedOp) lastOpcode count) := by
  induction ops generalizing lastOpcode count with
  | nil => rfl
  | cons op ops ih =>
    have added : UInt32.ofNat (opcodeSigops accurate lastOpcode op.1) =
        if op.1 = opCheckSig || op.1 = opCheckSigVerify then 1
        else if op.1 = opCheckMultiSig || op.1 = opCheckMultiSigVerify then
          if accurate && isSmallMultisigCount lastOpcode then decodeOpN lastOpcode
          else maxPubkeysPerMultisig
        else 0 := by
      rw [opcodeSigops, apply_ite UInt32.ofNat, apply_ite UInt32.ofNat, apply_ite UInt32.ofNat,
        smallIntegerValue, UInt32.ofNat_toNat]
      rfl
    rw [countSigOps, List.map_cons, countSigops, ← ih, UInt32.ofNat_add]
    exact congrArg (fun total => countSigOps accurate ops op.1 (UInt32.ofNat count + total))
      added.symm

theorem getSigOpCount_eq (script : CScript) (accurate : Bool) :
    getSigOpCount script accurate = UInt32.ofNat (sigopCount script accurate) := by
  rw [getSigOpCount, sigopCount, scriptOpcodes_eq]
  exact countSigOps_eq accurate (scriptOps script).1 opInvalidOpcode 0

theorem foldl_add_ofNat {β : Type} {wrapped : β → UInt32} {exact : β → Nat}
    (same : ∀ elem, wrapped elem = UInt32.ofNat (exact elem)) (elems : List β)
    (start : Nat) :
    elems.foldl (fun count elem => count + wrapped elem) (UInt32.ofNat start) =
      UInt32.ofNat (elems.foldl (fun count elem => count + exact elem) start) := by
  induction elems generalizing start with
  | nil => rfl
  | cons elem elems ih =>
    rw [List.foldl_cons, List.foldl_cons, same, ← UInt32.ofNat_add, ih]

theorem getLegacySigOpCount_eq (hash256 : ByteHash) (tx : Transaction) :
    getLegacySigOpCount (toCoreTransaction hash256 tx) = UInt32.ofNat (legacySigopCount tx) := by
  have inputs : (tx.inputs.map toCoreTxInput).foldl
      (fun count txin => count + getSigOpCount txin.scriptSig false) (UInt32.ofNat 0) =
        UInt32.ofNat (tx.inputs.foldl
          (fun count input => count + legacyScriptSigopCount input.script) 0) := by
    have same (input : TxInput) : getSigOpCount (toCoreTxInput input).scriptSig false =
        UInt32.ofNat (legacyScriptSigopCount input.script) := getSigOpCount_eq input.script false
    rw [List.foldl_map]
    exact foldl_add_ofNat same tx.inputs 0
  have outputs (start : Nat) : (tx.outputs.map toCoreTxOutput).foldl
      (fun count txout => count + getSigOpCount txout.scriptPubKey false) (UInt32.ofNat start) =
        UInt32.ofNat (tx.outputs.foldl
          (fun count output => count + legacyScriptSigopCount output.script) start) := by
    have same (output : TxOutput) : getSigOpCount (toCoreTxOutput output).scriptPubKey false =
        UInt32.ofNat (legacyScriptSigopCount output.script) := getSigOpCount_eq output.script false
    rw [List.foldl_map]
    exact foldl_add_ofNat same tx.outputs start
  rw [legacySigopCount, ← outputs, ← inputs]
  rfl

end Validation

end Champy
