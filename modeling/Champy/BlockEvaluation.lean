import Champy.BlockLedger
import Champy.BlockSpend

/-!
# Evaluating the transactions of a block

Spend validation of a transaction depends on the coins of its inputs, on their
median times, and on what the block has accumulated so far.  This file separates
that evaluation from the workspace: what it returns as coin effects, which times
it reads, and the loop over a block whose coins are known.
-/

namespace Champy

open List BlockSpendStageResult Exec

/-- The spends of a transaction, with the coins of its inputs. -/
def spentCoinEffects (tx : CTransaction) (coins : List CoinSnapshot) : List SpentCoinEffect :=
  (tx.spentOutpoints.zip coins).map fun input => ⟨input.1, input.2⟩

def transactionCoinEffects (height : Int32) (tx : CTransaction)
    (coins : List CoinSnapshot) : TransactionCoinEffects :=
  ⟨spentCoinEffects tx coins, createdCoinEffects tx height⟩

namespace TransactionCoinEffects

def spentOutpoints (effects : TransactionCoinEffects) : List COutPoint :=
  effects.spends.map SpentCoinEffect.outpoint

def transfer (effects : TransactionCoinEffects) : Transfer COutPoint CoinSnapshot :=
  ⟨effects.spentOutpoints, effects.creates.map fun create => (create.outpoint, create.coin)⟩

end TransactionCoinEffects

section Effects

variable {tx : CTransaction} {coins : List CoinSnapshot} {height : Int32}

theorem buildTransactionCoinEffectsForBlock_eq_ok {effects : TransactionCoinEffects} :
    buildTransactionCoinEffectsForBlock tx coins height = .ok effects ↔
      coins.length = tx.spentOutpoints.length ∧
        effects = transactionCoinEffects height tx coins := by
  unfold buildTransactionCoinEffectsForBlock transactionCoinEffects spentCoinEffects
  cases coinbase : tx.isCoinBase with
  | true =>
    rw [spentOutpoints_of_coinBase coinbase]
    simp [bind_eq_ok, eq_comm (a := effects)]
  | false =>
    rw [spentOutpoints_of_notCoinBase coinbase, zip_map_left, map_map]
    simp [bind_eq_ok, Function.comp_def, eq_comm (a := effects)]

theorem transactionCoinEffects_spentOutpoints (lengths : coins.length = tx.spentOutpoints.length) :
    (transactionCoinEffects height tx coins).spentOutpoints = tx.spentOutpoints := by
  rw [TransactionCoinEffects.spentOutpoints, transactionCoinEffects, spentCoinEffects, map_map]
  exact map_fst_zip (Nat.le_of_eq lengths.symm)

theorem transactionCoinEffects_transfer (lengths : coins.length = tx.spentOutpoints.length) :
    (transactionCoinEffects height tx coins).transfer = tx.transfer height := by
  rw [TransactionCoinEffects.transfer, transactionCoinEffects_spentOutpoints lengths]
  rfl

theorem mem_createdCoinEffects (checked : CheckedTransaction tx) {create : CreatedCoinEffect}
    (mem : create ∈ createdCoinEffects tx height) :
    create.coin.height = height ∧ moneyRange create.coin.output.nValue = true ∧
      isUnspendable create.coin.output.scriptPubKey = false ∧
      create.outpoint ∈ spendableOutpoints tx := by
  have entry : (create.outpoint, create.coin) ∈ (tx.transfer height).creates := mem_map_of_mem mem
  obtain ⟨index, txout, found, spendable, outpointEq, coinEq⟩ := mem_creates_transfer.mp entry
  obtain ⟨total, inRange, -⟩ := checked.valueOut
  rw [coinEq]
  exact ⟨rfl, inRange txout (mem_of_getElem? found), spendable,
    CTransaction.mem_spendableOutpoints.mpr ⟨index, txout, found, spendable, outpointEq⟩⟩

end Effects

/-! ## Which times are read -/

section Times

variable {tx : CTransaction} {coins : List CoinSnapshot} {height : Int32}
  {previousMedianTimePast : Int64} {times times' : COutPoint → Int32 → Int64}
  (same : ∀ input ∈ tx.spentOutpoints.zip coins,
    times input.1 input.2.height = times' input.1 input.2.height)

include same

theorem buildSequenceLockInputContext_congr {locktimeFlags : Int32}
    (notCoinbase : tx.isCoinBase = false) :
    buildSequenceLockInputContext tx coins ⟨height, previousMedianTimePast, times⟩ locktimeFlags =
      buildSequenceLockInputContext tx coins ⟨height, previousMedianTimePast, times'⟩
        locktimeFlags := by
  rw [spentOutpoints_of_notCoinBase notCoinbase, zip_map_left, forall_mem_map] at same
  have inputs : (tx.vin.zip coins).map
        (sequenceLockInput tx ⟨height, previousMedianTimePast, times⟩ locktimeFlags) =
      (tx.vin.zip coins).map
        (sequenceLockInput tx ⟨height, previousMedianTimePast, times'⟩ locktimeFlags) := by
    apply map_congr_left
    intro input mem
    have sameTime : times input.1.prevout input.2.height = times' input.1.prevout input.2.height :=
      same input mem
    simp only [sequenceLockInput, sameTime]
  rw [buildSequenceLockInputContext, inputs]
  rfl

variable {options : BlockSpendConsensusOptions}

theorem evaluateTransactionSpendForBlock_congr {accounting : BlockSpendAccounting} :
    evaluateTransactionSpendForBlock tx coins ⟨height, previousMedianTimePast, times⟩
        options accounting =
      evaluateTransactionSpendForBlock tx coins ⟨height, previousMedianTimePast, times'⟩
        options accounting := by
  have fees : addFeeOfTransaction tx coins ⟨height, previousMedianTimePast, times⟩
        options.locktimeFlags accounting.fees =
      addFeeOfTransaction tx coins ⟨height, previousMedianTimePast, times'⟩
        options.locktimeFlags accounting.fees := by
    unfold addFeeOfTransaction checkTransactionInputCoinsForBlock
    cases coinbase : tx.isCoinBase with
    | true => rfl
    | false => rw [buildSequenceLockInputContext_congr same coinbase]
  rw [evaluateTransactionSpendForBlock, fees]
  rfl

theorem addTransactionToStage_congr
    {collection : ScriptCheckPlanCollection} {stage : BlockSpendStageResult} :
    addTransactionToStage ⟨height, previousMedianTimePast, times⟩ options collection stage tx
        coins =
      addTransactionToStage ⟨height, previousMedianTimePast, times'⟩ options collection stage
        tx coins := by
  rw [addTransactionToStage, evaluateTransactionSpendForBlock_congr same]
  rfl

end Times

/-! ## The loop over a block -/

section Loop

variable {ctx : TransactionSpendContext} {options : BlockSpendConsensusOptions}
  {collection : ScriptCheckPlanCollection} {stage stage' : BlockSpendStageResult}
  {tx : CTransaction} {coins : List CoinSnapshot}

def BlockSpendEffects.addTransaction (effects : BlockSpendEffects) (tx : CTransaction)
    (result : TransactionSpendResult) : BlockSpendEffects :=
  ⟨effects.transactionEffects ++ [result.coinEffects], result.accounting.fees,
    addInputCount effects.inputs tx, result.accounting.sigopCost⟩

def transactionPlans (collection : ScriptCheckPlanCollection) (flags : ScriptVerifyFlags)
    (input : CTransaction × List CoinSnapshot) : List TransactionScriptCheckPlan :=
  if collection = .collect ∧ input.1.isCoinBase = false then
    [⟨input.1, flags, input.2.map CoinSnapshot.output⟩]
  else []

theorem evaluateTransactionSpendForBlock_effects {accounting : BlockSpendAccounting}
    {res : TransactionSpendResult}
    (eval : evaluateTransactionSpendForBlock tx coins ctx options accounting = .ok res) :
    coins.length = tx.spentOutpoints.length ∧
      res.coinEffects = transactionCoinEffects ctx.blockHeight tx coins := by
  simp only [evaluateTransactionSpendForBlock, bind_eq_ok,
    buildTransactionCoinEffectsForBlock_eq_ok] at eval
  obtain ⟨fees, -, sigopCost, -, built, ⟨lengths, builtEq⟩, ret⟩ := eval
  cases ret
  exact ⟨lengths, builtEq⟩

theorem scriptCheckPlans_eq_ok {flags : ScriptVerifyFlags}
    (lengths : coins.length = tx.spentOutpoints.length) :
    scriptCheckPlans collection tx coins flags =
      .ok (transactionPlans collection flags (tx, coins)) := by
  unfold scriptCheckPlans transactionPlans
  by_cases collects : collection = .collect ∧ tx.isCoinBase = false
  · rw [spentOutpoints_of_notCoinBase collects.2, length_map] at lengths
    rw [if_pos collects, if_pos collects]
    simp [buildTransactionScriptCheckPlan, collects.2, lengths, assertThat]
  · rw [if_neg collects, if_neg collects]
    rfl

variable {effects : TransactionCoinEffects}

theorem addTransactionToStage_eq_ok :
    addTransactionToStage ctx options collection stage tx coins = .ok (stage', effects) ↔
      ∃ res, evaluateTransactionSpendForBlock tx coins ctx options
          ⟨stage.effects.fees, stage.effects.sigopCost⟩ = .ok res ∧
        stage' = ⟨stage.effects.addTransaction tx res, stage.scriptChecks ++
          transactionPlans collection options.scriptFlags (tx, coins)⟩ ∧
        effects = res.coinEffects := by
  rw [addTransactionToStage, bind_eq_ok]
  constructor
  · rintro ⟨res, eval, ret⟩
    rw [scriptCheckPlans_eq_ok (evaluateTransactionSpendForBlock_effects eval).1] at ret
    cases ret
    exact ⟨res, eval, rfl, rfl⟩
  · rintro ⟨res, eval, rfl, rfl⟩
    refine ⟨res, eval, ?_⟩
    rw [scriptCheckPlans_eq_ok (evaluateTransactionSpendForBlock_effects eval).1]
    rfl

theorem addTransactionToStage_effects
    (added : addTransactionToStage ctx options collection stage tx coins = .ok (stage', effects)) :
    effects = transactionCoinEffects ctx.blockHeight tx coins := by
  obtain ⟨res, eval, -, rfl⟩ := addTransactionToStage_eq_ok.mp added
  exact (evaluateTransactionSpendForBlock_effects eval).2

def evaluateTransaction (context : TransactionSpendContext) (options : BlockSpendConsensusOptions)
    (collection : ScriptCheckPlanCollection) (stage : BlockSpendStageResult)
    (input : CTransaction × List CoinSnapshot) : BlockSpendResult BlockSpendStageResult := do
  let added ← addTransactionToStage context options collection stage input.1 input.2
  pure added.1

/-- Evaluate a block whose coins are known. -/
def evaluateBlock (context : TransactionSpendContext) (options : BlockSpendConsensusOptions)
    (collection : ScriptCheckPlanCollection) (inputs : List (CTransaction × List CoinSnapshot)) :
    BlockSpendResult BlockSpendStageResult :=
  inputs.foldlM (evaluateTransaction context options collection) empty

variable {input : CTransaction × List CoinSnapshot}

theorem evaluateTransaction_iff_added :
    evaluateTransaction ctx options collection stage input = .ok stage' ↔
      ∃ effects, addTransactionToStage ctx options collection stage input.1 input.2 =
        .ok (stage', effects) := by
  rw [evaluateTransaction, bind_eq_ok]
  constructor
  · rintro ⟨⟨next, effects⟩, added, ret⟩
    cases ret
    exact ⟨effects, added⟩
  · rintro ⟨effects, added⟩
    exact ⟨(stage', effects), added, rfl⟩

theorem evaluateTransaction_eq_ok :
    evaluateTransaction ctx options collection stage input = .ok stage' ↔
      ∃ res, evaluateTransactionSpendForBlock input.1 input.2 ctx options
          ⟨stage.effects.fees, stage.effects.sigopCost⟩ = .ok res ∧
        stage' = ⟨stage.effects.addTransaction input.1 res, stage.scriptChecks ++
          transactionPlans collection options.scriptFlags input⟩ := by
  rw [evaluateTransaction_iff_added]
  simp only [addTransactionToStage_eq_ok]
  constructor
  · rintro ⟨effects, res, eval, stageEq, -⟩
    exact ⟨res, eval, stageEq⟩
  · rintro ⟨res, eval, stageEq⟩
    exact ⟨res.coinEffects, res, eval, stageEq, rfl⟩

variable {inputs : List (CTransaction × List CoinSnapshot)}

/-- The effects and plans of the transactions of a stage are those of its inputs,
in order. -/
theorem foldlM_evaluateTransaction_lists
    (eval : inputs.foldlM (evaluateTransaction ctx options collection) stage = .ok stage') :
    stage'.effects.transactionEffects = stage.effects.transactionEffects ++
        inputs.map (fun input => transactionCoinEffects ctx.blockHeight input.1 input.2) ∧
      stage'.scriptChecks = stage.scriptChecks ++
        inputs.flatMap (transactionPlans collection options.scriptFlags) := by
  induction inputs generalizing stage with
  | nil =>
    cases eval
    rw [map_nil, append_nil, flatMap_nil, append_nil]
    exact ⟨rfl, rfl⟩
  | cons input inputs ih =>
    rw [foldlM_cons, bind_eq_ok] at eval
    obtain ⟨next, first, rest⟩ := eval
    obtain ⟨res, evaluatedFirst, rfl⟩ := evaluateTransaction_eq_ok.mp first
    obtain ⟨effectsEq, plansEq⟩ := ih rest
    have resultEq := (evaluateTransactionSpendForBlock_effects evaluatedFirst).2
    rw [effectsEq, plansEq, map_cons, flatMap_cons, ← append_assoc, ← resultEq,
      BlockSpendEffects.addTransaction, append_assoc, singleton_append]
    exact ⟨rfl, rfl⟩

theorem evaluateBlock_effects (eval : evaluateBlock ctx options collection inputs = .ok stage) :
    stage.effects.transactionEffects =
      inputs.map fun input => transactionCoinEffects ctx.blockHeight input.1 input.2 :=
  (foldlM_evaluateTransaction_lists eval).1

theorem evaluateBlock_plans (eval : evaluateBlock ctx options collection inputs = .ok stage) :
    stage.scriptChecks = inputs.flatMap (transactionPlans collection options.scriptFlags) :=
  (foldlM_evaluateTransaction_lists eval).2

end Loop

/-! ## The stages of a block -/

theorem joinError_eq_ok {txs : List CTransaction} {joined : BlockSpentOutputJoin} :
    joinError txs joined = .ok () ↔ joined.status = .complete := by
  unfold joinError
  cases status : joined.status with
  | complete => simp
  | backendMismatch => cases joined.backendMismatch <;> simp
  | missingOrSpent | duplicateSpend | invalidSpendOrder =>
    cases joined.failedLookup.bind fun lookup => txs[lookup.transactionIndex]? <;> simp

section Stages

variable {W : Type} [SpendWorkspace W] {txs : List CTransaction} {ws : W}
  {ctx : BlockSpendContext} {options : BlockSpendConsensusOptions}

theorem validateAndStageWithPlans_iff {joiner : BlockSpendJoiner W}
    {collection : ScriptCheckPlanCollection} (valid : StructurallyValid txs)
    {res : BlockSpendStageResult × W} :
    validateAndStageWithPlans joiner txs ws ctx options collection = .ok res ↔
      ∃ checked joined looked, (if options.checkNoUnspentOutputOverwrite = true then
          checkBlockNoUnspentOutputOverwrite txs ws
        else pure ws) = .ok checked ∧
        (joiner txs ctx.blockHeight checked = .ok (joined, looked) ∧ joined.status = .complete) ∧
        (txs.zip joined.inputCoinsByTransaction).zipIdx.foldlM
          (stageTransaction ctx options collection)
          (empty, looked) = .ok res := by
  obtain ⟨coinbase, later, rfl, -, -⟩ := valid.coinbase_first
  have stages : validateAndStageWithPlans joiner (coinbase :: later) ws ctx options collection =
      (if options.checkNoUnspentOutputOverwrite = true then
        checkBlockNoUnspentOutputOverwrite (coinbase :: later) ws
      else pure ws) >>= fun checked =>
        joiner (coinbase :: later) ctx.blockHeight checked >>= fun joined =>
          joinError (coinbase :: later) joined.1 >>= fun _ =>
            ((coinbase :: later).zip joined.1.inputCoinsByTransaction).zipIdx.foldlM
              (stageTransaction ctx options collection)
              (empty, joined.2) := by
    unfold validateAndStageWithPlans
    cases options.checkNoUnspentOutputOverwrite <;> rfl
  rw [stages]
  simp only [bind_eq_ok]
  constructor
  · rintro ⟨checked, checks, ⟨joined, looked⟩, joins, ⟨⟩, complete, staged⟩
    exact ⟨checked, joined, looked, checks, ⟨joins, joinError_eq_ok.mp complete⟩, staged⟩
  · rintro ⟨checked, joined, looked, checks, ⟨joins, complete⟩, staged⟩
    exact ⟨checked, checks, (joined, looked), joins, (), joinError_eq_ok.mpr complete, staged⟩

/-- A checker that wants no checks. -/
def BlockScriptChecker.skipping : BlockScriptChecker :=
  ⟨false, fun _ => .ok (), .ok ()⟩

/-- A checker that wants checks and accepts every script. -/
def BlockScriptChecker.accepting : BlockScriptChecker :=
  ⟨true, fun _ => .ok (), .ok ()⟩

def BlockScriptChecker.collection (scriptChecker : BlockScriptChecker) :
    ScriptCheckPlanCollection :=
  if scriptChecker.wantsChecks then .collect else .skip

theorem validateAndStageBlockTransactions_iff {checker : BlockScriptChecker}
    {effects : BlockSpendEffects} {after : W} :
    validateAndStageBlockTransactions txs ws checker ctx options = .ok (effects, after) ↔
      ∃ stage, validateAndStageWithPlans (joinBlockSpentOutputs getCoins) txs ws
          ctx options checker.collection = .ok (stage, after) ∧
        submitBlockScriptChecksForSpendStage stage.scriptChecks checker = .ok () ∧
        stage.effects = effects := by
  rw [validateAndStageBlockTransactions, validateAndStageWithJoiner, bind_eq_ok]
  simp only [bind_eq_ok]
  constructor
  · rintro ⟨⟨stage, staged⟩, plans, ⟨⟩, submitted, ret⟩
    cases ret
    exact ⟨stage, plans, submitted, rfl⟩
  · rintro ⟨stage, plans, submitted, rfl⟩
    exact ⟨(stage, after), plans, (), submitted, rfl⟩

end Stages

end Champy
