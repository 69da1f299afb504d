import Champy.BlockStaging
import Champy.SnapshotSpendLaws

/-!
# Validating a block one transaction at a time

`ValidateAndStageBlockTransactions` resolves the inputs of a block in one join.
Here the transactions are validated one after the other instead, each with the
`ValidateTransactionSpendForBlock` that looks its inputs up in a plain map, and the
map is updated by the effects of each transaction.  Both accept the same blocks
with the same effects, except that only the first looks for outputs that are
still unspent.
-/

namespace Champy

open BlockScriptChecker List Exec

@[ext]
structure CoinMap where
  coins : CoinLedger

namespace CoinMap

instance : SpendLookupBackend CoinMap where
  haveCoin map outpoint := ((map.coins outpoint).isSome, map)
  getCoin map outpoint := (map.coins outpoint, map)

/-- Remove the spent coins and write the created ones. -/
def applying (map : CoinMap) (effects : TransactionCoinEffects) : CoinMap :=
  ⟨(map.coins.without effects.spentOutpoints).adding effects.transfer.creates⟩

end CoinMap

/-- Validate a transaction against the map, and update the map. -/
def validateNextTransaction (checker : BlockScriptChecker)
    (context : TransactionSpendContext) (options : BlockSpendConsensusOptions)
    (state : BlockSpendEffects × CoinMap) (tx : CTransaction) :
    BlockSpendResult (BlockSpendEffects × CoinMap) := do
  let validated ← validateTransactionSpendForBlock tx state.2 checker context options
    ⟨state.1.fees, state.1.sigopCost⟩
  pure (state.1.addTransaction tx validated.1, validated.2.applying validated.1.coinEffects)

def validateOneByOne (transactions : List CTransaction) (map : CoinMap)
    (checker : BlockScriptChecker) (context : TransactionSpendContext)
    (options : BlockSpendConsensusOptions) : BlockSpendResult (BlockSpendEffects × CoinMap) :=
  transactions.foldlM (validateNextTransaction checker context options)
    (BlockSpendStageResult.empty.effects, map)

/-! ## Script checks -/

section Scripts

variable {checker : BlockScriptChecker} {tx : CTransaction} {coins : List CoinSnapshot}
  {flags : ScriptVerifyFlags}

def ScriptsPass (checker : BlockScriptChecker) (flags : ScriptVerifyFlags)
    (input : CTransaction × List CoinSnapshot) : Prop :=
  ∀ plan ∈ transactionPlans checker.collection flags input, checker.check plan = .ok ()

theorem submitTransactionScriptCheckForBlock_eq_ok
    (lengths : coins.length = tx.spentOutpoints.length) :
    submitTransactionScriptCheckForBlock tx coins checker flags = .ok () ↔
      ScriptsPass checker flags (tx, coins) := by
  unfold submitTransactionScriptCheckForBlock ScriptsPass transactionPlans collection
  cases coinbase : tx.isCoinBase with
  | true => simp
  | false =>
    rw [spentOutpoints_of_notCoinBase coinbase, length_map] at lengths
    cases wants : checker.wantsChecks <;>
      simp [buildTransactionScriptCheckPlan, coinbase, lengths, assertThat]

theorem submitBlockScriptChecks_eq_ok {inputs : List (CTransaction × List CoinSnapshot)} :
    submitBlockScriptChecksForSpendStage
        (inputs.flatMap (transactionPlans checker.collection flags)) checker = .ok () ↔
      ∀ input ∈ inputs, ScriptsPass checker flags input := by
  unfold submitBlockScriptChecksForSpendStage ScriptsPass
  cases wants : checker.wantsChecks with
  | false => simp [transactionPlans, collection, wants]
  | true =>
    rw [if_pos rfl, forM_eq_ok]
    constructor
    · intro passes input inputMem plan planMem
      exact passes plan (mem_flatMap.mpr ⟨input, inputMem, planMem⟩)
    · intro passes plan planMem
      obtain ⟨input, inputMem, planMem⟩ := mem_flatMap.mp planMem
      exact passes input inputMem plan planMem

end Scripts

/-! ## One transaction -/

section Step

variable {tx : CTransaction} {map map' : CoinMap} {checker : BlockScriptChecker}
  {ctx : TransactionSpendContext} {options : BlockSpendConsensusOptions}

theorem getInputCoins_eq_ok {points : List COutPoint} {res : List CoinSnapshot × CoinMap} :
    getInputCoins tx points map = .ok res ↔
      points.map map.coins = res.1.map some ∧ res.2 = map := by
  induction points generalizing res with
  | nil =>
    obtain ⟨found, after⟩ := res
    rw [getInputCoins, map_nil, eq_comm (a := []), map_eq_nil_iff, pure_eq_ok,
      Except.ok.injEq, Prod.mk.injEq, eq_comm, eq_comm (a := map)]
  | cons point points ih =>
    obtain ⟨found, after⟩ := res
    rw [getInputCoins]
    cases held : map.coins point with
    | none =>
      simp only [SpendLookupBackend.getCoin, held]
      constructor
      · intro ret
        exact absurd ret (reject_ne_ok _ _)
      · rintro ⟨allFound, -⟩
        rw [map_cons, held] at allFound
        cases found with
        | nil => cases allFound
        | cons coin found => cases (cons.inj allFound).1
    | some coin =>
      simp only [SpendLookupBackend.getCoin, held, bind_eq_ok, ih]
      constructor
      · rintro ⟨⟨later, next⟩, ⟨foundLater, rfl⟩, ret⟩
        cases ret
        rw [map_cons, map_cons, held, foundLater]
        exact ⟨rfl, rfl⟩
      · rintro ⟨allFound, rfl⟩
        rw [map_cons, held] at allFound
        cases found with
        | nil => cases allFound
        | cons first later =>
          obtain ⟨firstEq, laterEq⟩ := cons.inj allFound
          cases firstEq
          exact ⟨(later, after), ⟨laterEq, rfl⟩, rfl⟩

theorem validateTransactionSpendForBlock_eq_ok {accounting : BlockSpendAccounting}
    {res : TransactionSpendResult} :
    validateTransactionSpendForBlock tx map checker ctx options accounting = .ok (res, map') ↔
      ∃ values, tx.spentOutpoints.map map.coins = values.map some ∧
        evaluateTransactionSpendForBlock tx values ctx options accounting = .ok res ∧
        ScriptsPass checker options.scriptFlags (tx, values) ∧ map' = map := by
  have withCoins : ∀ values, validateTransactionSpendWithCoins tx values checker ctx
        options accounting = .ok res ↔
      evaluateTransactionSpendForBlock tx values ctx options accounting = .ok res ∧
        ScriptsPass checker options.scriptFlags (tx, values) := by
    intro values
    rw [validateTransactionSpendWithCoins, bind_eq_ok]
    constructor
    · rintro ⟨evaluatedResult, eval, ret⟩
      obtain ⟨⟨⟩, submitted, ret⟩ := bind_eq_ok.mp ret
      cases ret
      have lengths := (evaluateTransactionSpendForBlock_effects eval).1
      exact ⟨eval, (submitTransactionScriptCheckForBlock_eq_ok lengths).mp submitted⟩
    · rintro ⟨eval, passes⟩
      have lengths := (evaluateTransactionSpendForBlock_effects eval).1
      exact ⟨res, eval, bind_eq_ok.mpr
        ⟨(), (submitTransactionScriptCheckForBlock_eq_ok lengths).mpr passes, rfl⟩⟩
  have lookups : ∀ found : List CoinSnapshot × CoinMap,
      ((if tx.isCoinBase then pure ([], map) else getTransactionInputCoinsForBlock tx map :
        BlockSpendResult (List CoinSnapshot × CoinMap)) = .ok found ↔
      tx.spentOutpoints.map map.coins = found.1.map some ∧ found.2 = map) := by
    rintro ⟨values, after⟩
    cases coinbase : tx.isCoinBase with
    | true =>
      rw [spentOutpoints_of_coinBase coinbase]
      have noInputs : getInputCoins tx [] map = .ok (values, after) ↔ _ := getInputCoins_eq_ok
      exact noInputs
    | false =>
      rw [spentOutpoints_of_notCoinBase coinbase]
      exact getInputCoins_eq_ok
  have steps : validateTransactionSpendForBlock tx map checker ctx options accounting =
      (if tx.isCoinBase then pure ([], map) else getTransactionInputCoinsForBlock tx map :
        BlockSpendResult (List CoinSnapshot × CoinMap)) >>= fun found =>
        validateTransactionSpendWithCoins tx found.1 checker ctx options accounting >>=
          fun res => pure (res, found.2) := by
    unfold validateTransactionSpendForBlock
    cases tx.isCoinBase <;> rfl
  rw [steps, bind_eq_ok]
  constructor
  · rintro ⟨⟨values, after⟩, found, ret⟩
    obtain ⟨allFound, rfl⟩ := (lookups _).mp found
    obtain ⟨validated, passed, ret⟩ := bind_eq_ok.mp ret
    cases ret
    obtain ⟨eval, passes⟩ := (withCoins values).mp passed
    exact ⟨values, allFound, eval, passes, rfl⟩
  · rintro ⟨values, allFound, eval, passes, rfl⟩
    exact ⟨(values, map'), (lookups _).mpr ⟨allFound, rfl⟩,
      bind_eq_ok.mpr ⟨res, (withCoins values).mpr ⟨eval, passes⟩, rfl⟩⟩

theorem validateNextTransaction_eq_ok {effects effects' : BlockSpendEffects} :
    validateNextTransaction checker ctx options (effects, map) tx = .ok (effects', map') ↔
      ∃ values res, tx.spentOutpoints.map map.coins = values.map some ∧
        evaluateTransactionSpendForBlock tx values ctx options
          ⟨effects.fees, effects.sigopCost⟩ = .ok res ∧
        ScriptsPass checker options.scriptFlags (tx, values) ∧
        effects' = effects.addTransaction tx res ∧
        map'.coins = map.coins.after (tx.transfer ctx.blockHeight) := by
  have updated : ∀ {values res}, evaluateTransactionSpendForBlock tx values ctx options
        ⟨effects.fees, effects.sigopCost⟩ = .ok res →
      (map.applying res.coinEffects).coins = map.coins.after (tx.transfer ctx.blockHeight) := by
    intro values res eval
    obtain ⟨lengths, effectsEq⟩ := evaluateTransactionSpendForBlock_effects eval
    rw [CoinMap.applying, effectsEq, transactionCoinEffects_transfer lengths,
      transactionCoinEffects_spentOutpoints lengths]
    rfl
  rw [validateNextTransaction, bind_eq_ok]
  constructor
  · rintro ⟨⟨res, after⟩, validated, ret⟩
    obtain ⟨values, found, eval, passes, rfl⟩ := validateTransactionSpendForBlock_eq_ok.mp validated
    cases ret
    exact ⟨values, res, found, eval, passes, rfl, updated eval⟩
  · rintro ⟨values, res, found, eval, passes, rfl, mapEq⟩
    refine ⟨(res, map), validateTransactionSpendForBlock_eq_ok.mpr
      ⟨values, found, eval, passes, rfl⟩, ?_⟩
    have sameMap : map.applying res.coinEffects = map' :=
      CoinMap.ext ((updated eval).trans mapEq.symm)
    rw [← sameMap]
    rfl

end Step

/-! ## The whole block -/

section Block

variable {checker : BlockScriptChecker} {ctx : TransactionSpendContext}
  {options : BlockSpendConsensusOptions}

variable {txs : List CTransaction}

theorem foldlM_validateNextTransaction_eq_ok
    {map final : CoinMap} {effects effects' : BlockSpendEffects}
    (plans : List TransactionScriptCheckPlan) :
    txs.foldlM (validateNextTransaction checker ctx options) (effects, map) =
        .ok (effects', final) ↔
      ∃ found stage,
        map.coins.resolved (blockTransfers txs ctx.blockHeight) = found.map (List.map some) ∧
        final.coins = map.coins.afterAll (blockTransfers txs ctx.blockHeight) ∧
        (txs.zip found).foldlM
          (evaluateTransaction ctx options checker.collection) ⟨effects, plans⟩ = .ok stage ∧
        (∀ input ∈ txs.zip found, ScriptsPass checker options.scriptFlags input) ∧
        stage.effects = effects' := by
  induction txs generalizing map effects plans with
  | nil =>
    constructor
    · intro ret
      cases ret
      exact ⟨[], _, rfl, rfl, rfl, by simp, rfl⟩
    · rintro ⟨found, stage, -, finalEq, eval, -, rfl⟩
      cases eval
      rw [CoinMap.ext finalEq]
      rfl
  | cons tx txs ih =>
    rw [foldlM_cons, bind_eq_ok]
    constructor
    · rintro ⟨⟨next, middle⟩, validated, rests⟩
      obtain ⟨values, res, valuesFound, eval, passes, rfl, middleEq⟩ :=
        validateNextTransaction_eq_ok.mp validated
      obtain ⟨found, stage, resolvedLater, finalEq, evaluatedLater, passesLater, effectsEq⟩ :=
        (ih (plans ++ transactionPlans checker.collection options.scriptFlags
          (tx, values))).mp rests
      rw [middleEq] at resolvedLater finalEq
      refine ⟨values :: found, stage, ?_, finalEq, ?_, ?_, effectsEq⟩
      · exact congrArg₂ cons valuesFound resolvedLater
      · rw [zip_cons_cons, foldlM_cons]
        exact bind_eq_ok.mpr ⟨_, evaluateTransaction_eq_ok.mpr ⟨res, eval, rfl⟩, evaluatedLater⟩
      · rw [zip_cons_cons, forall_mem_cons]
        exact ⟨passes, passesLater⟩
    · rintro ⟨allFound, stage, resolvedAll, finalEq, evaluatedAll, passesAll, effectsEq⟩
      cases allFound with
      | nil => cases resolvedAll
      | cons values found =>
        obtain ⟨valuesFound, resolvedLater⟩ := cons.inj resolvedAll
        rw [zip_cons_cons, foldlM_cons, bind_eq_ok] at evaluatedAll
        obtain ⟨next, evaluatedFirst, evaluatedLater⟩ := evaluatedAll
        obtain ⟨res, eval, rfl⟩ := evaluateTransaction_eq_ok.mp evaluatedFirst
        rw [zip_cons_cons, forall_mem_cons] at passesAll
        refine ⟨(effects.addTransaction tx res, ⟨map.coins.after (tx.transfer ctx.blockHeight)⟩),
          validateNextTransaction_eq_ok.mpr
            ⟨values, res, valuesFound, eval, passesAll.1, rfl, rfl⟩, ?_⟩
        exact (ih _).mpr
          ⟨found, stage, resolvedLater, finalEq, evaluatedLater, passesAll.2, effectsEq⟩

/-- A block whose outputs are free, one transaction at a time: its transfers run,
and its evaluation and scripts pass with the coins that they take. -/
theorem validateOneByOne_eq_ok {map final : CoinMap} {effects : BlockSpendEffects}
    (coherent : Ledger.Coherent map.coins (blockTransfers txs ctx.blockHeight))
    (structural : StructurallyValid txs) :
    validateOneByOne txs map checker ctx options = .ok (effects, final) ↔
      ∃ found stage, map.coins.run (blockTransfers txs ctx.blockHeight) =
          some (found, final.coins) ∧
        evaluateBlock ctx options checker.collection (txs.zip found) = .ok stage ∧
        submitBlockScriptChecksForSpendStage stage.scriptChecks checker = .ok () ∧
        stage.effects = effects := by
  simp only [Ledger.run_iff_resolved coherent (blockTransfers_spends_nodup structural.checked)]
  rw [validateOneByOne, foldlM_validateNextTransaction_eq_ok []]
  constructor
  · rintro ⟨found, stage, resolved, finalEq, eval, passes, effectsEq⟩
    refine ⟨found, stage, ⟨resolved, finalEq⟩, eval, ?_, effectsEq⟩
    rw [evaluateBlock_plans eval]
    exact submitBlockScriptChecks_eq_ok.mpr passes
  · rintro ⟨found, stage, ⟨resolved, finalEq⟩, eval, submitted, effectsEq⟩
    refine ⟨found, stage, resolved, finalEq, eval, ?_, effectsEq⟩
    rw [evaluateBlock_plans eval] at submitted
    exact submitBlockScriptChecks_eq_ok.mp submitted

end Block

namespace LawfulSpendWorkspace

variable {W : Type} [SpendWorkspace W] [LawfulSpendWorkspace W]

/-- In every lawful workspace the join accepts what validation one by one accepts,
if no output of the block is unspent. -/
theorem validateAndStage_iff_oneByOne {txs : List CTransaction} {ws : W}
    {checker : BlockScriptChecker} {spendContext : BlockSpendContext}
    {options : BlockSpendConsensusOptions} (valid : Valid ws)
    (structural : StructurallyValid txs) (distinct : DistinctTxids txs)
    (checkOn : options.checkNoUnspentOutputOverwrite = true)
    (admits : AdmitsHeight W spendContext.blockHeight) {effects : BlockSpendEffects}
    {final : CoinMap} :
    (∃ after, validateAndStageBlockTransactions txs ws checker spendContext
        options = .ok (effects, after) ∧ coins after = final.coins) ↔
      NoUnspentOutput (coins ws) txs ∧ validateOneByOne txs ⟨coins ws⟩ checker
          (transactionContext spendContext ws) options = .ok (effects, final) := by
  simp only [validateAndStageBlockTransactions_iff]
  constructor
  · rintro ⟨after, ⟨stage, staged, submitted, effectsEq⟩, finalEq⟩
    obtain ⟨unspent, found, ran, eval⟩ := (validateAndStageWithPlans_iff_run valid structural
      distinct admits checkOn).mp ⟨after, staged, finalEq⟩
    exact ⟨unspent, (validateOneByOne_eq_ok (blockTransfers_coherent structural distinct unspent)
      structural).mpr ⟨found, stage, ran, eval, submitted, effectsEq⟩⟩
  · rintro ⟨unspent, validated⟩
    obtain ⟨found, stage, ran, eval, submitted, effectsEq⟩ :=
      (validateOneByOne_eq_ok (blockTransfers_coherent structural distinct unspent)
        structural).mp validated
    obtain ⟨after, staged, finalEq⟩ := (validateAndStageWithPlans_iff_run valid structural
      distinct admits checkOn).mpr ⟨unspent, found, ran, eval⟩
    exact ⟨after, ⟨stage, staged, submitted, effectsEq⟩, finalEq⟩

end LawfulSpendWorkspace

namespace SnapshotSpendState

/-- Over a snapshot of coins, the join and validation one by one accept the same
blocks with the same effects and leave the same coins, if the outputs of the block
are free. -/
theorem validateAndStage_iff_validateOneByOne {hashPair : Uint256 → Uint256 → Uint256}
    {block : CBlock} {structuralOptions : BlockStructuralConsensusOptions}
    (structural : validateBlockStructuralStage hashPair block structuralOptions = .ok ())
    (distinct : DistinctTxids block.vtx) (state : SnapshotSpendState)
    (scriptChecker : BlockScriptChecker) (spendContext : BlockSpendContext)
    {options : BlockSpendConsensusOptions}
    (checkOn : options.checkNoUnspentOutputOverwrite = true) (effects : BlockSpendEffects)
    (final : CoinMap) :
    (∃ after : SnapshotSpendWorkspace,
      validateAndStageBlockTransactions block.vtx (state.beginBlockSpend spendContext)
          scriptChecker spendContext options = .ok (effects, after) ∧
        after.staged.ledger = final.coins) ↔
      NoUnspentOutput state.ledger block.vtx ∧
        validateOneByOne block.vtx ⟨state.ledger⟩ scriptChecker
          (LawfulSpendWorkspace.transactionContext spendContext
            (state.beginBlockSpend spendContext)) options = .ok (effects, final) := by
  have valid : LawfulSpendWorkspace.Valid (state.beginBlockSpend spendContext) := trivial
  exact LawfulSpendWorkspace.validateAndStage_iff_oneByOne valid
    (structurallyValid_of_stage structural) distinct checkOn trivial

/-- A snapshot in which the output of the sample coinbase is unspent. -/
def sampleOverwritten : SnapshotSpendState :=
  empty.addCoin (outpointAt sampleCoinbase.hash 0) ⟨⟨1, [0x51]⟩, 1, false⟩

theorem sampleCoinbase_distinct : DistinctTxids [sampleCoinbase] := by
  intro first firstMem second secondMem _
  rw [mem_singleton.mp firstMem, mem_singleton.mp secondMem]

/-- A coinbase whose output is still unspent passes one by one, and not the join. -/
theorem sampleOverwritten_oneByOne_only :
    validateBlockStructuralStage (fun _ _ => 0) (CBlock.ofCoinbase 0 sampleCoinbase) ⟨true⟩ =
        .ok () ∧
      DistinctTxids (CBlock.ofCoinbase 0 sampleCoinbase).vtx ∧
      (∃ effects final, validateOneByOne (CBlock.ofCoinbase 0 sampleCoinbase).vtx
        ⟨sampleOverwritten.ledger⟩ skipping
        (LawfulSpendWorkspace.transactionContext ⟨5, 0⟩ (sampleOverwritten.beginBlockSpend ⟨5, 0⟩))
        ⟨0, 0, true⟩ = .ok (effects, final)) ∧
      ¬ ∃ result, validateAndStageBlockTransactions (CBlock.ofCoinbase 0 sampleCoinbase).vtx
        (sampleOverwritten.beginBlockSpend ⟨5, 0⟩) skipping ⟨5, 0⟩
        ⟨0, 0, true⟩ = .ok result := by
  refine ⟨sampleCoinbase_accepted _ _ _, sampleCoinbase_distinct, ⟨_, _, rfl⟩, ?_⟩
  rintro ⟨⟨effects, after⟩, accepted⟩
  cases accepted

theorem sampleSpendBlock_distinct : DistinctTxids sampleSpendBlock.vtx := by
  rw [DistinctTxids]
  decide

theorem sampleFunded_free : NoUnspentOutput sampleFunded.ledger sampleSpendBlock.vtx := by
  rw [NoUnspentOutput]
  decide

/-- The sample block passes one by one on the funded snapshot, hence the join. -/
theorem validateAndStage_iff_validateOneByOne_sampleSpend :
    ∃ effects after, validateAndStageBlockTransactions sampleSpendBlock.vtx
      (sampleFunded.beginBlockSpend ⟨5, 0⟩) accepting ⟨5, 0⟩ ⟨0, 0, true⟩ =
        .ok (effects, after) := by
  have checkOn : (BlockSpendConsensusOptions.mk 0 0 true).checkNoUnspentOutputOverwrite = true :=
    rfl
  obtain ⟨after, accepted, -⟩ := (validateAndStage_iff_validateOneByOne
    sampleSpendBlock_accepted sampleSpendBlock_distinct sampleFunded
    accepting ⟨5, 0⟩ checkOn _ _).mpr ⟨sampleFunded_free, rfl⟩
  exact ⟨_, after, accepted⟩

end SnapshotSpendState

end Champy
