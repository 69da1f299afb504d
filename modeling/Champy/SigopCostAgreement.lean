import Champy.BlockSpend
import Champy.TransactionChecksAgreement
import Champy.ValidationSpends

/-!
# Signature operation costs in both libraries

`transaction_sigop_cost` counts with the flags that it is given, and
`GetTransactionSigOpCostForBlock` with the flags of the interpreter.  Where scripts run,
`to_core_flags` adds witness to taproot, and P2SH to witness.  The counts are equal exactly
where this closure adds nothing to an input, and for every transaction exactly when the given
flags have the closure already.
-/

namespace Champy

open List Opcode Int64

namespace Validation

open Protocol VerificationFlags

def toCoreCoin (coin : Coin) : CoinSnapshot :=
  ⟨toCoreTxOutput coin.output, coin.height, coin.coinbase⟩

/-! ## What an input counts -/

def redeemedSigopCost (p2sh : Bool) (input : TxInput × Coin) : Nat :=
  if p2sh then p2shSigopCount input.1 input.2.output.script * witnessScaleFactor else 0

def witnessedSigopCost (p2sh witness : Bool) (input : TxInput × Coin) : Nat :=
  let script := input.2.output.script
  let pushed := lastPushedScript input.1.script
  if !witness then 0
  else if (parseWitnessProgram script).isSome then
    programSigopCount (parseWitnessProgram script) input.1.witness
  else if !p2sh || !isPayToScriptHash script then 0
  else if !pushed.pushOnly then 0
  else programSigopCount (parseWitnessProgram pushed.lastPush) input.1.witness

/-- The cost of one input, of the two flags that the count reads. -/
def inputSigopCost (p2sh witness : Bool) (input : TxInput × Coin) : Nat :=
  redeemedSigopCost p2sh input + witnessedSigopCost p2sh witness input

/-- The cost of a transaction, of the two flags that the count reads. -/
def sigopCostWith (p2sh witness : Bool) (tx : Transaction) (coins : List Coin) : Nat :=
  legacySigopCount tx * witnessScaleFactor +
    if isCoinbase tx then 0
    else ((tx.inputs.zip coins).map (inputSigopCost p2sh witness)).sum

theorem transactionSigopCost_eq (tx : Transaction) (coins : List Coin) (flags : ScriptVerifyFlags) :
    transactionSigopCost tx coins flags =
      sigopCostWith (containsFlags flags scriptVerifyP2SH) (containsFlags flags scriptVerifyWitness)
        tx coins := by
  have step : ∀ (cost : Nat) (input : TxInput × Coin), (if containsFlags flags scriptVerifyP2SH then
          cost + p2shSigopCount input.1 input.2.output.script * witnessScaleFactor
        else cost) + witnessSigopCount input.1 input.2.output.script flags =
        cost + inputSigopCost (containsFlags flags scriptVerifyP2SH)
          (containsFlags flags scriptVerifyWitness) input := by
    intro cost input
    unfold inputSigopCost redeemedSigopCost witnessedSigopCost witnessSigopCount
    cases containsFlags flags scriptVerifyP2SH <;> simp [Nat.add_assoc]
  have rounds : ∀ (inputs : List (TxInput × Coin)) (cost : Nat), inputs.foldl (fun cost input =>
        (if containsFlags flags scriptVerifyP2SH then
          cost + p2shSigopCount input.1 input.2.output.script * witnessScaleFactor
        else cost) + witnessSigopCount input.1 input.2.output.script flags) cost =
        cost + (inputs.map (inputSigopCost (containsFlags flags scriptVerifyP2SH)
          (containsFlags flags scriptVerifyWitness))).sum := by
    intro inputs
    induction inputs with
    | nil => exact fun _ => rfl
    | cons input inputs ih =>
      intro cost
      rw [foldl_cons, ih, step, map_cons, sum_cons, Nat.add_assoc]
  unfold transactionSigopCost sigopCostWith
  split
  · rfl
  · exact rounds _ _

/-! ## Pushed scripts and witness programs -/

theorem lastPushed_eq (complete : Bool) (ops : List (UInt8 × List UInt8)) (start : List UInt8) :
    lastPushed complete (ops.map decodedOp) start =
      if complete && ops.all fun op => op.1 ≤ op16 then
        ⟨true, (ops.getLast?.map Prod.snd).getD start⟩
      else ⟨false, []⟩ := by
  induction ops generalizing start with
  | nil => cases complete <;> rfl
  | cons op ops ih =>
    rw [map_cons, lastPushed]
    by_cases above : op16 < op.1
    · have notPush : ¬ op.1 ≤ op16 := UInt8.not_le.mpr above
      simp [decodedOp, above, notPush]
    · have push : op.1 ≤ op16 := UInt8.not_lt.mp above
      have lastEq : ((op :: ops).getLast?.map Prod.snd).getD start =
          (ops.getLast?.map Prod.snd).getD op.2 := by
        rw [getLast?_cons]
        cases ops.getLast? <;> rfl
      change (if op16 < op.1 then ⟨false, []⟩
        else lastPushed complete (ops.map decodedOp) op.2) = _
      rw [lastEq, if_neg above, ih, all_cons, decide_eq_true push, Bool.true_and]

theorem lastPushedScript_eq (scriptSig : List UInt8) : lastPushedScript scriptSig =
      if isPushOnly scriptSig then ⟨true, lastPushedData scriptSig⟩ else ⟨false, []⟩ := by
  rw [lastPushedScript, scriptOpcodes_eq]
  exact lastPushed_eq _ _ _

theorem parseWitnessProgram_eq (bytes : List UInt8) :
    parseWitnessProgram bytes = isWitnessProgram bytes := by
  unfold parseWitnessProgram isWitnessProgram
  rcases bytes with - | ⟨first, - | ⟨size, program⟩⟩
  · rfl
  · rfl
  · dsimp only
    by_cases outside : (decide ((first :: size :: program).length < 4) ||
        decide (42 < (first :: size :: program).length)) = true
    · rw [if_pos outside, if_pos outside]
    rw [if_neg outside, if_neg outside]
    have versions : (first != op0 && !isSmallIntegerOpcode first) =
        (first != op0 && (decide (first < op1) || decide (op16 < first))) := by
      simp only [isSmallIntegerOpcode, Bool.not_and, ← decide_not, UInt8.not_le]
    rw [versions]
    by_cases notVersion : (first != op0 && (decide (first < op1) || decide (op16 < first))) = true
    · rw [if_pos notVersion, if_pos notVersion]
    rw [if_neg notVersion, if_neg notVersion]
    by_cases sizes : size.toNat + 2 = (first :: size :: program).length
    · have whole : program.take size.toNat = program := by
        rw [length_cons, length_cons] at sizes
        exact take_of_length_le (by omega)
      have eq : (size.toNat + 2 != (first :: size :: program).length) = false := by
        rw [sizes, bne_self_eq_false]
      rw [eq, if_neg Bool.false_ne_true, if_pos sizes, whole]
      rfl
    · rw [if_pos (bne_iff_ne.mpr sizes), if_neg sizes]

/-- A count below `2 ^ 32` does not wrap around. -/
theorem witnessSigOps_eq {program : WitnessProgram} {witness : List (List UInt8)}
    (small : programSigopCount (some program) witness < 2 ^ 32) :
    witnessSigOps program witness = programSigopCount (some program) witness := by
  unfold witnessSigOps
  unfold programSigopCount at small ⊢
  by_cases version : program.version = 0
  · simp only [version, bne_self_eq_false, Bool.false_eq_true, if_false, if_true] at small ⊢
    by_cases keyHash : program.program.length = 20
    · rw [if_pos keyHash, if_pos keyHash]
    rw [if_neg keyHash] at small ⊢
    rw [if_neg keyHash]
    by_cases scriptHash : program.program.length = 32
    · rw [if_pos scriptHash]
      cases last : witness.getLast? with
      | none =>
        have empty : witness = [] := getLast?_eq_none_iff.mp last
        simp [empty]
      | some script =>
        have ne : witness.isEmpty = false := by
          cases witness with
          | nil => cases last
          | cons item items => rfl
        simp only [scriptHash, ne, last] at small ⊢
        simp only [decide_true, Bool.not_false, Bool.and_true, if_true, Option.getD_some] at small ⊢
        rw [getSigOpCount_eq, UInt32.toNat_ofNat_of_lt' small]
    · rw [if_neg scriptHash]
      simp [scriptHash]
  · simp [version]

/-! ## The count of the interpreter's library -/

section Core

variable {flags : ScriptVerifyFlags} {input : TxInput × Coin}

theorem getScriptHashSigOpCount_eq
    (scriptHash : Champy.isPayToScriptHash input.2.output.script = true) :
    getScriptHashSigOpCount input.2.output.script input.1.script =
      UInt32.ofNat (p2shSigopCount input.1 input.2.output.script) := by
  have sameHash : isPayToScriptHash input.2.output.script = true := scriptHash
  rw [getScriptHashSigOpCount, if_pos scriptHash, p2shSigopCount, sameHash, lastPushedScript_eq]
  cases isPushOnly input.1.script with
  | true => exact getSigOpCount_eq _ true
  | false => rfl

variable (closed : (flags &&& scriptVerifyWitness != 0) = true →
  (flags &&& scriptVerifyP2SH != 0) = true) {cost : Nat}

include closed

theorem countWitnessSigOps_eq {ε : Type}
    (small : witnessedSigopCost (flags &&& scriptVerifyP2SH != 0)
      (flags &&& scriptVerifyWitness != 0) input < 2 ^ 32) :
    (countWitnessSigOps input.1.script input.2.output.script input.1.witness flags : Exec ε Nat) =
      .ok (witnessedSigopCost (flags &&& scriptVerifyP2SH != 0)
        (flags &&& scriptVerifyWitness != 0) input) := by
  unfold countWitnessSigOps
  unfold witnessedSigopCost at small ⊢
  cases witnessOn : (flags &&& scriptVerifyWitness != 0) with
  | false =>
    have off : flags &&& scriptVerifyWitness = 0 := bne_eq_false_iff_eq.mp witnessOn
    rw [if_pos off]
    rfl
  | true =>
    have on : ¬ flags &&& scriptVerifyWitness = 0 := bne_iff_ne.mp witnessOn
    rw [if_neg on, closed witnessOn]
    rw [witnessOn, closed witnessOn] at small
    have sameHash : isPayToScriptHash input.2.output.script =
        Champy.isPayToScriptHash input.2.output.script := rfl
    simp only [parseWitnessProgram_eq, lastPushedScript_eq, sameHash] at small ⊢
    cases native : isWitnessProgram input.2.output.script with
    | some program =>
      simp only [native] at small
      exact congrArg Except.ok (witnessSigOps_eq small)
    | none =>
      simp only [native] at small
      cases scriptHash : Champy.isPayToScriptHash input.2.output.script with
      | false => rfl
      | true =>
        cases pushOnly : isPushOnly input.1.script with
        | false => rfl
        | true =>
          simp only [scriptHash, pushOnly, if_true] at small ⊢
          cases nested : isWitnessProgram (lastPushedData input.1.script) with
          | none => rfl
          | some program =>
            simp only [nested] at small
            exact congrArg Except.ok (witnessSigOps_eq small)

/-- One round of the input loop, while the cost is below `2 ^ 32`. -/
theorem addInputSigOpCost_eq (small : cost + inputSigopCost (flags &&& scriptVerifyP2SH != 0)
      (flags &&& scriptVerifyWitness != 0) input < 2 ^ 32) :
    addInputSigOpCost flags (ofNat cost) (toCoreTxInput input.1, toCoreCoin input.2) =
      .ok (ofNat (cost + inputSigopCost (flags &&& scriptVerifyP2SH != 0)
        (flags &&& scriptVerifyWitness != 0) input)) := by
  unfold inputSigopCost at small ⊢
  have witnessed := @countWitnessSigOps_eq flags input closed BlockSpendError (by omega)
  have rest : ∀ total : Nat, (countWitnessSigOps input.1.script input.2.output.script
      input.1.witness flags >>= fun witness =>
        (pure ((ofNat total).toUInt64 + UInt64.ofNat witness).toInt64 : BlockSpendResult Int64)) =
      .ok (ofNat (total + witnessedSigopCost (flags &&& scriptVerifyP2SH != 0)
        (flags &&& scriptVerifyWitness != 0) input)) := by
    intro total
    refine Exec.bind_eq_ok.mpr ⟨_, witnessed, congrArg Except.ok ?_⟩
    change (UInt64.ofNat total + UInt64.ofNat _).toInt64 = (UInt64.ofNat _).toInt64
    rw [UInt64.ofNat_add]
  unfold addInputSigOpCost
  rw [← Nat.add_assoc]
  by_cases counts : (flags &&& scriptVerifyP2SH != 0 &&
      Champy.isPayToScriptHash input.2.output.script) = true
  · obtain ⟨p2sh, scriptHash⟩ := Bool.and_eq_true_iff.mp counts
    have redeemed : redeemedSigopCost (flags &&& scriptVerifyP2SH != 0) input =
        p2shSigopCount input.1 input.2.output.script * witnessScaleFactor := if_pos p2sh
    rw [redeemed] at small ⊢
    have product : (getScriptHashSigOpCount input.2.output.script input.1.script *
        UInt32.ofNat witnessScaleFactor).toNat =
          p2shSigopCount input.1 input.2.output.script * witnessScaleFactor := by
      rw [getScriptHashSigOpCount_eq scriptHash, ← UInt32.ofNat_mul]
      have fits : p2shSigopCount input.1 input.2.output.script * witnessScaleFactor < 2 ^ 32 := by
        omega
      exact UInt32.toNat_ofNat_of_lt' fits
    have sum : (addInt64 (ofNat cost) (ofNat
        (getScriptHashSigOpCount input.2.output.script input.1.script *
          UInt32.ofNat witnessScaleFactor).toNat) : BlockSpendResult Int64) =
        .ok (ofNat (cost + p2shSigopCount input.1 input.2.output.script * witnessScaleFactor)) := by
      rw [product, addInt64_eq_ok, toInt_ofNat_of_lt (by omega),
        toInt_ofNat_of_lt (by omega), toInt_ofNat_of_lt (by omega)]
      exact Int.natCast_add _ _
    exact (if_pos counts).trans (Exec.bind_eq_ok.mpr ⟨_, sum, rest _⟩)
  · have redeemed : redeemedSigopCost (flags &&& scriptVerifyP2SH != 0) input = 0 := by
      unfold redeemedSigopCost p2shSigopCount
      cases p2sh : (flags &&& scriptVerifyP2SH != 0) with
      | false => rfl
      | true =>
        rw [p2sh, Bool.true_and] at counts
        have notScriptHash : isPayToScriptHash input.2.output.script = false :=
          eq_false_of_ne_true counts
        rw [notScriptHash]
        rfl
    rw [redeemed, Nat.add_zero]
    exact (if_neg counts).trans (Exec.bind_eq_ok.mpr ⟨_, rfl, rest _⟩)

theorem foldlM_addInputSigOpCost_eq {inputs : List (TxInput × Coin)}
    (small : cost + (inputs.map (inputSigopCost (flags &&& scriptVerifyP2SH != 0)
      (flags &&& scriptVerifyWitness != 0))).sum < 2 ^ 32) :
    (inputs.map fun input => (toCoreTxInput input.1, toCoreCoin input.2)).foldlM
        (addInputSigOpCost flags) (ofNat cost) =
      .ok (ofNat (cost + (inputs.map (inputSigopCost (flags &&& scriptVerifyP2SH != 0)
        (flags &&& scriptVerifyWitness != 0))).sum)) := by
  induction inputs generalizing cost with
  | nil => rfl
  | cons input inputs ih =>
    rw [map_cons, sum_cons, ← Nat.add_assoc] at small
    rw [map_cons, foldlM_cons, map_cons, sum_cons, ← Nat.add_assoc]
    exact Exec.bind_eq_ok.mpr ⟨_, addInputSigOpCost_eq closed (by omega), ih small⟩

theorem getTransactionSigOpCostForBlock_eq (hash256 : ByteHash)
    {tx : Transaction} {coins : List Coin}
    (lengths : coins.length = if isCoinbase tx then 0 else tx.inputs.length)
    (small : sigopCostWith (flags &&& scriptVerifyP2SH != 0) (flags &&& scriptVerifyWitness != 0)
      tx coins < 2 ^ 32) :
    getTransactionSigOpCostForBlock (toCoreTransaction hash256 tx) (coins.map toCoreCoin) flags =
      .ok (ofNat (sigopCostWith (flags &&& scriptVerifyP2SH != 0)
        (flags &&& scriptVerifyWitness != 0) tx coins)) := by
  unfold sigopCostWith at small ⊢
  have legacy : (getLegacySigOpCount (toCoreTransaction hash256 tx) *
      UInt32.ofNat witnessScaleFactor).toNat = legacySigopCount tx * witnessScaleFactor := by
    have fits : legacySigopCount tx * witnessScaleFactor < 2 ^ 32 := by omega
    rw [getLegacySigOpCount_eq, ← UInt32.ofNat_mul]
    exact UInt32.toNat_ofNat_of_lt' fits
  unfold getTransactionSigOpCostForBlock
  rw [legacy, isCoinbase_toCoreTransaction]
  cases coinbase : isCoinbase tx with
  | true =>
    rw [coinbase] at lengths
    rw [eq_nil_of_length_eq_zero lengths]
    rfl
  | false =>
    rw [coinbase] at lengths small
    have zipped : (toCoreTransaction hash256 tx).vin.zip (coins.map toCoreCoin) =
        (tx.inputs.zip coins).map fun input =>
          (toCoreTxInput input.1, toCoreCoin input.2) :=
      zip_map
    have sameLength : ((coins.map toCoreCoin).length ==
        (toCoreTransaction hash256 tx).vin.length) = true := by
      change (_ == (tx.inputs.map toCoreTxInput).length) = true
      rw [length_map, length_map, lengths]
      exact beq_self_eq_true _
    rw [zipped, sameLength]
    exact foldlM_addInputSigOpCost_eq closed small

end Core

/-! ## Flags -/

/-- Witness comes with taproot, and P2SH with witness. -/
def VerificationFlags.Closed (flags : VerificationFlags) : Prop :=
  (containsFlags flags.mask VerificationFlags.taproot = true →
      containsFlags flags.mask scriptVerifyWitness = true) ∧
    (containsFlags flags.mask scriptVerifyWitness = true →
      containsFlags flags.mask scriptVerifyP2SH = true)

/-- The flags, closed, count witness programs. -/
def closedWitness (flags : ScriptVerifyFlags) : Bool :=
  containsFlags flags scriptVerifyWitness || containsFlags flags VerificationFlags.taproot

/-- The flags, closed, count redeem scripts. -/
def closedP2sh (flags : ScriptVerifyFlags) : Bool :=
  containsFlags flags scriptVerifyP2SH || closedWitness flags

theorem toCoreFlags_reads (flags : ScriptVerifyFlags) :
    (toCoreFlags flags &&& scriptVerifyP2SH != 0) = closedP2sh flags ∧
      (toCoreFlags flags &&& scriptVerifyWitness != 0) = closedWitness flags := by
  unfold toCoreFlags closedP2sh closedWitness
  dsimp only
  generalize containsFlags flags scriptVerifyP2SH = p2sh
  generalize containsFlags flags VerificationFlags.dersig = dersig
  generalize containsFlags flags VerificationFlags.nulldummy = nulldummy
  generalize containsFlags flags checklocktimeverify = locktime
  generalize containsFlags flags checksequenceverify = sequence
  generalize containsFlags flags scriptVerifyWitness = witness
  generalize containsFlags flags VerificationFlags.taproot = taproot
  revert p2sh dersig nulldummy locktime sequence witness taproot
  decide +kernel

variable {p2sh p2sh' witness witness' : Bool}

/-- More flags count more. -/
theorem inputSigopCost_le (moreP2sh : p2sh = true → p2sh' = true)
    (moreWitness : witness = true → witness' = true) (input : TxInput × Coin) :
    inputSigopCost p2sh witness input ≤ inputSigopCost p2sh' witness' input := by
  unfold inputSigopCost
  apply Nat.add_le_add
  · cases p2sh with
    | false => exact Nat.zero_le _
    | true => rw [moreP2sh rfl]
  · cases witness with
    | false => exact Nat.zero_le _
    | true =>
      rw [moreWitness rfl]
      cases p2sh with
      | true => rw [moreP2sh rfl]
      | false =>
        unfold witnessedSigopCost
        dsimp only
        cases native : parseWitnessProgram input.2.output.script with
        | none => exact Nat.zero_le _
        | some program => exact Nat.le_refl _

theorem sigopCostWith_le (p2sh witness : Bool) (tx : Transaction) (coins : List Coin) :
    sigopCostWith p2sh witness tx coins ≤ sigopCostWith true true tx coins := by
  unfold sigopCostWith
  apply Nat.add_le_add_left
  split
  · exact Nat.le_refl _
  · exact sum_le_sum fun input _ => inputSigopCost_le (fun _ => rfl) (fun _ => rfl) input

theorem sigopCostWith_eq_iff
    (moreP2sh : p2sh = true → p2sh' = true) (moreWitness : witness = true → witness' = true)
    (tx : Transaction) (coins : List Coin) :
    sigopCostWith p2sh' witness' tx coins = sigopCostWith p2sh witness tx coins ↔
      isCoinbase tx = true ∨ ∀ input ∈ tx.inputs.zip coins,
        inputSigopCost p2sh' witness' input = inputSigopCost p2sh witness input := by
  have grows := inputSigopCost_le moreP2sh moreWitness
  unfold sigopCostWith
  rw [Nat.add_left_cancel_iff]
  cases isCoinbase tx with
  | true => simp
  | false =>
    simp only [Bool.false_eq_true, if_false, false_or]
    constructor
    · intro sums input mem
      by_contra different
      have less := sum_lt_sum _ _ (fun other _ => grows other)
        ⟨input, mem, lt_of_le_of_ne (grows input) (Ne.symm different)⟩
      omega
    · intro all
      rw [map_congr_left all]

/-- The input of a transaction that spends a P2SH output whose redeem script is `OP_CHECKSIG`. -/
def redeemSpend : Transaction × List Coin :=
  (⟨2, [⟨⟨1, 0⟩, [0x01, 0xac], 0, []⟩], [], 0⟩,
    [⟨⟨1, [0xa9, 0x14] ++ replicate 20 0 ++ [0x87]⟩, 1, false, 0⟩])

/-- The input of a transaction that spends a witness output to a key hash. -/
def keyHashSpend : Transaction × List Coin :=
  (⟨2, [⟨⟨1, 0⟩, [], 0, []⟩], [], 0⟩, [⟨⟨1, [0x00, 0x14] ++ replicate 20 0⟩, 1, false, 0⟩])

theorem sigopCostWith_redeemSpend (p2sh witness : Bool) :
    sigopCostWith p2sh witness redeemSpend.1 redeemSpend.2 = if p2sh then 4 else 0 := by
  revert p2sh witness
  decide +kernel

theorem sigopCostWith_keyHashSpend (p2sh witness : Bool) :
    sigopCostWith p2sh witness keyHashSpend.1 keyHashSpend.2 = if witness then 1 else 0 := by
  revert p2sh witness
  decide +kernel

def SigopCostsAgree (doubleSha256 : ByteHash) (flags : VerificationFlags)
    (tx : Transaction) (coins : List Coin) : Prop :=
  getTransactionSigOpCostForBlock (toCoreTransaction doubleSha256 tx) (coins.map toCoreCoin)
      (toCoreFlags flags.mask) =
    .ok (ofNat (transactionSigopCost tx coins flags.mask))

/-- The coins of the inputs of a transaction whose cost does not wrap around. -/
structure SigopCostFits (tx : Transaction) (inputCoins : List Coin) : Prop where
  lengths : inputCoins.length = if isCoinbase tx then 0 else tx.inputs.length
  small : transactionSigopCost tx inputCoins knownMask < 2 ^ 32

/-- What the input counts with the flags closed is what it counts without. -/
def ClosureAddsNothing (flags : VerificationFlags) (input : TxInput × Coin) : Prop :=
  inputSigopCost (closedP2sh flags.mask) (closedWitness flags.mask) input =
    inputSigopCost (containsFlags flags.mask scriptVerifyP2SH)
      (containsFlags flags.mask scriptVerifyWitness) input

section Agreement

variable {flags : VerificationFlags} {tx : Transaction} {coins : List Coin}

/-- The counts agree exactly when the closure of the flags adds nothing. -/
theorem sigopCostsAgree_iff (hash256 : ByteHash) (fits : SigopCostFits tx coins) :
    SigopCostsAgree hash256 flags tx coins ↔
      sigopCostWith (closedP2sh flags.mask) (closedWitness flags.mask) tx coins =
        sigopCostWith (containsFlags flags.mask scriptVerifyP2SH)
          (containsFlags flags.mask scriptVerifyWitness) tx coins := by
  obtain ⟨p2sh, witness⟩ := toCoreFlags_reads flags.mask
  have bound := fits.small
  rw [transactionSigopCost_eq] at bound
  change sigopCostWith true true tx coins < 2 ^ 32 at bound
  have counted := @getTransactionSigOpCostForBlock_eq (toCoreFlags flags.mask) (by
    rw [p2sh, witness]
    intro on
    rw [closedP2sh, on, Bool.or_true]) hash256 tx coins fits.lengths
    (lt_of_le_of_lt (sigopCostWith_le _ _ tx coins) bound)
  rw [p2sh, witness] at counted
  rw [SigopCostsAgree, counted, transactionSigopCost_eq, Except.ok.injEq, ← toInt_inj,
    toInt_ofNat_of_lt, toInt_ofNat_of_lt, Int.natCast_inj]
  · exact lt_of_le_of_lt (sigopCostWith_le _ _ tx coins) (by omega)
  · exact lt_of_le_of_lt (sigopCostWith_le _ _ tx coins) (by omega)

end Agreement

theorem redeemSpend_fits : SigopCostFits redeemSpend.1 redeemSpend.2 := by
  refine ⟨rfl, ?_⟩
  rw [transactionSigopCost_eq, sigopCostWith_redeemSpend]
  split <;> decide

theorem keyHashSpend_fits : SigopCostFits keyHashSpend.1 keyHashSpend.2 := by
  refine ⟨rfl, ?_⟩
  rw [transactionSigopCost_eq, sigopCostWith_keyHashSpend]
  split <;> decide

/-- For flags with witness alone, the redeem script of an input counts for Core only. -/
theorem sigopCosts_disagree_on_witness : SigopCostFits redeemSpend.1 redeemSpend.2 ∧
      transactionSigopCost redeemSpend.1 redeemSpend.2 scriptVerifyWitness = 0 ∧
      ∀ doubleSha256, getTransactionSigOpCostForBlock
        (toCoreTransaction doubleSha256 redeemSpend.1) (redeemSpend.2.map toCoreCoin)
        (toCoreFlags scriptVerifyWitness) = .ok 4 := by
  refine ⟨redeemSpend_fits, ?_, ?_⟩
  · rw [transactionSigopCost_eq, sigopCostWith_redeemSpend]
    rfl
  · intro doubleSha256
    have counted := @getTransactionSigOpCostForBlock_eq (toCoreFlags scriptVerifyWitness)
      (by decide) doubleSha256 redeemSpend.1 redeemSpend.2 rfl (by
        rw [sigopCostWith_redeemSpend]
        decide)
    rw [counted, sigopCostWith_redeemSpend]
    rfl

/-- The counts agree exactly for a coinbase and where closing the flags adds nothing to any
input, and so for all transactions exactly when the flags are closed. -/
theorem sigopCostsAgree_iff_closureAddsNothing (doubleSha256 : List UInt8 → Uint256)
    (flags : VerificationFlags) :
    (∀ tx inputCoins, SigopCostFits tx inputCoins →
      (SigopCostsAgree doubleSha256 flags tx inputCoins ↔ isCoinbase tx = true ∨
          ∀ input ∈ tx.inputs.zip inputCoins, ClosureAddsNothing flags input)) ∧
    ((∀ tx inputCoins, SigopCostFits tx inputCoins →
      SigopCostsAgree doubleSha256 flags tx inputCoins) ↔ flags.Closed) := by
  refine ⟨?_, ?_, ?_⟩
  · intro tx inputCoins fits
    rw [sigopCostsAgree_iff doubleSha256 fits,
      sigopCostWith_eq_iff (by simp +contextual [closedP2sh])
        (by simp +contextual [closedWitness])]
    rfl
  · intro agree
    have redeems := (sigopCostsAgree_iff doubleSha256 redeemSpend_fits).mp
      (agree redeemSpend.1 redeemSpend.2 redeemSpend_fits)
    have witnesses := (sigopCostsAgree_iff doubleSha256 keyHashSpend_fits).mp
      (agree keyHashSpend.1 keyHashSpend.2 keyHashSpend_fits)
    rw [sigopCostWith_redeemSpend, sigopCostWith_redeemSpend] at redeems
    rw [sigopCostWith_keyHashSpend, sigopCostWith_keyHashSpend] at witnesses
    unfold closedP2sh at redeems
    unfold closedWitness at redeems witnesses
    unfold Closed
    generalize containsFlags flags.mask scriptVerifyP2SH = p2sh at redeems ⊢
    generalize containsFlags flags.mask scriptVerifyWitness = witness at redeems witnesses ⊢
    generalize containsFlags flags.mask VerificationFlags.taproot = taproot at redeems witnesses ⊢
    revert p2sh witness taproot
    decide
  · intro closed tx inputCoins fits
    rw [sigopCostsAgree_iff doubleSha256 fits, closedP2sh, closedWitness]
    obtain ⟨taprootWitness, witnessP2sh⟩ := closed
    generalize containsFlags flags.mask scriptVerifyP2SH = p2sh at witnessP2sh ⊢
    generalize containsFlags flags.mask scriptVerifyWitness = witness
      at taprootWitness witnessP2sh ⊢
    generalize containsFlags flags.mask VerificationFlags.taproot = taproot at taprootWitness ⊢
    have witnessEq : (witness || taproot) = witness := Bool.or_eq_left_iff_imp.mpr taprootWitness
    have p2shEq : (p2sh || witness) = p2sh := Bool.or_eq_left_iff_imp.mpr witnessP2sh
    rw [witnessEq, p2shEq]

/-- With all flags the redeem script counts in both libraries; with witness alone the key hash
does, though the flags are not closed. -/
theorem sigopCostsAgree_redeem_and_keyHash :
    SigopCostsAgree (fun _ => 0) ⟨knownMask, by decide⟩ redeemSpend.1 redeemSpend.2 ∧
      SigopCostsAgree (fun _ => 0) ⟨scriptVerifyWitness, by decide⟩
        keyHashSpend.1 keyHashSpend.2 := by
  constructor
  · exact (sigopCostsAgree_iff_closureAddsNothing _ _).2.mpr ⟨fun _ => rfl, fun _ => rfl⟩
      _ _ redeemSpend_fits
  · refine ((sigopCostsAgree_iff_closureAddsNothing _ _).1 _ _ keyHashSpend_fits).mpr (.inr ?_)
    rintro input (_ | ⟨_, _ | _⟩)
    rfl

end Validation

end Champy
