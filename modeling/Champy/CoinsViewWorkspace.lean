import Champy.CoinsCacheRuns
import Champy.SnapshotCommit

/-!
# The coins-view spend workspace

Core validates a block on a new cache layer over its coins.  Over a well-formed stack of
caches this workspace is lawful: it means the logical map of the stack.  It accepts every
block that a snapshot of the same coins accepts, and the snapshot accepts those of its
blocks that create no coin while it is unspent.  Where one is created the two stages differ:
an insertion in the snapshot refuses every coin that is there, and `AddCoin` lets a coinbase
overwrite, and looks for the coin of any other transaction only in its own layer.
-/

namespace Champy

open SnapshotSpendState CCoinsViewCache LawfulSpendWorkspace BlockScriptChecker

/-- `ToCoreCoin`.  Heights have 31 bits. -/
def toCoreCoin (coin : CoinSnapshot) : Coin :=
  ⟨coin.output, coin.isCoinbase, BitVec.ofInt 31 coin.height.toInt⟩

/-- `ToConsensusCoin`, and the conversion in `CoinsViewSpendState::GetCoin`. -/
def toConsensusCoin (coin : Coin) : CoinSnapshot :=
  ⟨coin.out, Int32.ofNat coin.nHeight.toNat, coin.fCoinBase⟩

theorem toConsensusCoin_toCoreCoin {coin : CoinSnapshot} (height : 0 ≤ coin.height) :
    toConsensusCoin (toCoreCoin coin) = coin := by
  have lower : 0 ≤ coin.height.toInt := by simpa [Int32.le_iff_toInt_le] using height
  have upper := coin.height.toInt_lt
  have bits : (BitVec.ofInt 31 coin.height.toInt).toNat = coin.height.toInt.toNat := by
    rw [BitVec.toNat_ofInt, Int.emod_eq_of_lt lower (by omega)]
  have heightEq : Int32.ofNat coin.height.toInt.toNat = coin.height := by
    rw [← Int32.toInt_inj, Int32.toInt_ofNat_of_lt (by omega)]
    omega
  rw [toConsensusCoin, toCoreCoin, bits, heightEq]

structure CoinsViewBlockSpendWorkspace where
  stagedCoins : CCoinsViewCache
  sequenceLockTimes : COutPoint → Int32 → Int64

/-- The constructor: a new layer over the coins of the parent. -/
def CoinsViewBlockSpendWorkspace.over (parentCoins : CCoinsViewCache)
    (sequenceLockTimes : COutPoint → Int32 → Int64) : CoinsViewBlockSpendWorkspace :=
  ⟨new parentCoins.toView, sequenceLockTimes⟩

def spendForBlock (coins : CCoinsViewCache) (spend : SpentCoinEffect) :
    Except Fault CCoinsViewCache :=
  match coins.spendCoin spend.outpoint with
  | (none, _) => .error .assertion
  | (some _, after) => .ok after

/-- A coinbase may overwrite. -/
def createForBlock (coins : CCoinsViewCache) (create : CreatedCoinEffect) :
    Except Fault CCoinsViewCache :=
  coins.addCoin create.outpoint (toCoreCoin create.coin) create.coin.isCoinbase

def applyTransactionCoinEffectsForBlock (effects : TransactionCoinEffects)
    (coins : CCoinsViewCache) : Except Fault CCoinsViewCache := do
  let spent ← effects.spends.foldlM spendForBlock coins
  effects.creates.foldlM createForBlock spent

instance : SpendWorkspace CoinsViewBlockSpendWorkspace where
  haveCoin workspace outpoint :=
    let looked := workspace.stagedCoins.haveCoin outpoint
    (looked.1, { workspace with stagedCoins := looked.2 })
  getCoin workspace outpoint :=
    let looked := workspace.stagedCoins.getCoin outpoint
    (looked.1.map toConsensusCoin, { workspace with stagedCoins := looked.2 })
  previousMedianTimePast workspace := workspace.sequenceLockTimes
  stageTransactionEffects workspace effects index :=
    match applyTransactionCoinEffectsForBlock effects workspace.stagedCoins with
    | .error fault => Exec.abort fault
    | .ok staged =>
      if index = 0 ∧ effects.spends ≠ [] then Exec.abort .assertion
      else pure { workspace with stagedCoins := staged }

namespace CCoinsViewCache

/-- The logical map, in the coins of the consensus library. -/
def ledger (cache : CCoinsViewCache) : CoinLedger :=
  fun outpoint => (cache.coins outpoint).map toConsensusCoin

variable {cache : CCoinsViewCache} {rest : CoinLedger}

theorem foldlM_spendForBlock (wf : cache.WellFormed) {spends : List SpentCoinEffect}
    {values : List CoinSnapshot}
    (taken : cache.ledger.take (spends.map SpentCoinEffect.outpoint) = some (values, rest)) :
    ∃ after, spends.foldlM spendForBlock cache = .ok after ∧ after.WellFormed ∧
      after.ledger = rest := by
  induction spends generalizing cache values with
  | nil =>
    cases taken
    exact ⟨cache, rfl, wf, rfl⟩
  | cons spend spends ih =>
    obtain ⟨-, movesOut, spentWellFormed, -, -, -, spentCoins⟩ := spendCoin_spec wf spend.outpoint
    rw [List.map_cons, Ledger.take] at taken
    cases held : cache.coins spend.outpoint with
    | none => simp [ledger, held] at taken
    | some coin =>
      have spentLedger : (cache.spendCoin spend.outpoint).2.ledger =
          Function.update cache.ledger spend.outpoint none := by
        funext point
        by_cases same : point = spend.outpoint
        · simp [ledger, spentCoins, same]
        · simp [ledger, spentCoins, same]
      have heldLedger : cache.ledger spend.outpoint = some (toConsensusCoin coin) := by
        simp [ledger, held]
      rw [heldLedger, ← spentLedger] at taken
      obtain ⟨⟨later, last⟩, takenLater, pairEq⟩ := Option.map_eq_some_iff.mp taken
      cases pairEq
      obtain ⟨after, ran, afterWellFormed, afterLedger⟩ := ih spentWellFormed takenLater
      refine ⟨after, ?_, afterWellFormed, afterLedger⟩
      have step : spendForBlock cache spend = .ok (cache.spendCoin spend.outpoint).2 := by
        have moved := movesOut coin held
        unfold spendForBlock
        generalize cache.spendCoin spend.outpoint = res at moved ⊢
        obtain ⟨res, spent⟩ := res
        dsimp only at moved
        rw [moved]
      rw [List.foldlM_cons, step]
      exact ran

theorem foldlM_createForBlock (wf : cache.WellFormed) {creates : List CreatedCoinEffect}
    (spendable : ∀ create ∈ creates, 0 ≤ create.coin.height ∧
      moneyRange create.coin.output.nValue = true ∧
      isUnspendable create.coin.output.scriptPubKey = false)
    (filled : cache.ledger.put (creates.map fun create => (create.outpoint, create.coin)) =
      some rest) :
    ∃ after, creates.foldlM createForBlock cache = .ok after ∧ after.WellFormed ∧
      after.ledger = rest := by
  induction creates generalizing cache with
  | nil =>
    cases filled
    exact ⟨cache, rfl, wf, rfl⟩
  | cons create creates ih =>
    rw [List.forall_mem_cons] at spendable
    obtain ⟨⟨height, amount, script⟩, spendableLater⟩ := spendable
    rw [List.map_cons, Ledger.put] at filled
    cases held : cache.coins create.outpoint with
    | some coin => simp [ledger, held] at filled
    | none =>
      have unspent : (toCoreCoin create.coin).isSpent = false := by
        have nonneg : 0 ≤ create.coin.output.nValue := by
          simp only [moneyRange, Bool.and_eq_true, decide_eq_true_eq] at amount
          exact amount.1
        have ne : create.coin.output.nValue ≠ -1 := by
          intro isNull
          rw [isNull] at nonneg
          revert nonneg
          decide
        simpa [Coin.isSpent, toCoreCoin] using ne
      have permitted : cache.coins create.outpoint ≠ none → create.coin.isCoinbase = true :=
        fun present => absurd held present
      obtain ⟨added, addEq, addedWellFormed, -, -, addedCoins⟩ := addCoin_spec wf unspent permitted
      rw [if_neg (by simpa [toCoreCoin] using script)] at addedCoins
      have addedLedger : added.ledger =
          Function.update cache.ledger create.outpoint (some create.coin) := by
        funext point
        by_cases same : point = create.outpoint
        · simp [ledger, addedCoins, same, toConsensusCoin_toCoreCoin height]
        · simp [ledger, addedCoins, same]
      have heldLedger : cache.ledger create.outpoint = none := by simp [ledger, held]
      rw [heldLedger, ← addedLedger] at filled
      obtain ⟨after, ran, afterWellFormed, afterLedger⟩ := ih addedWellFormed spendableLater filled
      refine ⟨after, ?_, afterWellFormed, afterLedger⟩
      rw [List.foldlM_cons, createForBlock, addEq]
      exact ran

end CCoinsViewCache

instance : LawfulSpendWorkspace CoinsViewBlockSpendWorkspace where
  Valid workspace := workspace.stagedCoins.WellFormed
  coins workspace := workspace.stagedCoins.ledger
  AdmitsHeight height := 0 ≤ height
  haveCoin_spec := by
    intro workspace valid outpoint
    obtain ⟨found, same⟩ := haveCoin_spec valid outpoint
    refine ⟨?_, same.wellFormed, ?_, rfl⟩
    · exact found.trans Option.isSome_map.symm
    · exact congrArg (fun coins outpoint => Option.map toConsensusCoin (coins outpoint))
        same.coins_eq
  getCoin_spec := by
    intro workspace valid outpoint
    obtain ⟨found, same⟩ := getCoin_spec valid outpoint
    refine ⟨congrArg (Option.map toConsensusCoin) found, same.wellFormed, ?_, rfl⟩
    exact congrArg (fun coins outpoint => Option.map toConsensusCoin (coins outpoint)) same.coins_eq
  stage_spec := by
    intro workspace effects index values rest valid noSpends spendable applied
    obtain ⟨⟨taken, middle⟩, takeEq, putEq⟩ := Option.bind_eq_some_iff.mp applied
    obtain ⟨final, filled, pairEq⟩ := Option.map_eq_some_iff.mp putEq
    obtain ⟨rfl, rfl⟩ := Prod.mk.inj pairEq
    obtain ⟨spent, spends, spentWellFormed, rfl⟩ :=
      foldlM_spendForBlock valid takeEq
    obtain ⟨staged, creates, stagedWellFormed, rfl⟩ :=
      foldlM_createForBlock spentWellFormed spendable filled
    have applies : applyTransactionCoinEffectsForBlock effects workspace.stagedCoins =
        .ok staged := by
      rw [applyTransactionCoinEffectsForBlock, spends]
      exact creates
    have undoEmpty : ¬ (index = 0 ∧ effects.spends ≠ []) := fun both => both.2 (noSpends both.1)
    refine ⟨{ workspace with stagedCoins := staged }, ?_, stagedWellFormed, rfl, fun _ _ => rfl⟩
    simp only [SpendWorkspace.stageTransactionEffects, applies, if_neg undoEmpty]
    rfl

namespace LawfulSpendWorkspace

variable {W W' : Type} [SpendWorkspace W] [LawfulSpendWorkspace W] [SpendWorkspace W']
  [LawfulSpendWorkspace W']

/-- What one lawful workspace accepts without creating a coin while it is unspent, another
with the same coins and times accepts too. -/
theorem validateAndStage_of_same {txs : List CTransaction} {workspace : W} {workspace' : W'}
    {checker : BlockScriptChecker} {context : BlockSpendContext}
    {options : BlockSpendConsensusOptions} {effects : BlockSpendEffects}
    (structural : StructurallyValid txs)
    (valid : Valid workspace) (admits : AdmitsHeight W context.blockHeight)
    (valid' : Valid workspace') (admits' : AdmitsHeight W' context.blockHeight)
    (coinsEq : coins workspace' = coins workspace)
    (timesEq : SpendWorkspace.previousMedianTimePast workspace' =
      SpendWorkspace.previousMedianTimePast workspace)
    (free : (coins workspace).OverwritesNothing (blockTransfers txs context.blockHeight))
    (ok : ∃ after, validateAndStageBlockTransactions txs workspace checker context options =
      .ok (effects, after)) :
    ∃ after, validateAndStageBlockTransactions txs workspace' checker context options =
      .ok (effects, after) := by
  simp only [validateAndStageBlockTransactions_iff] at ok ⊢
  obtain ⟨after, stage, staged, submitted, effectsEq⟩ := ok
  obtain ⟨unspent, found, looked, nodup, allFound, -⟩ :=
    validateAndStageWithPlans_parts valid structural staged
  obtain ⟨final, ran⟩ := joinedCoins_run structural nodup allFound free
  obtain ⟨last, -, accepts⟩ := validateAndStageWithPlans_of_run valid structural admits unspent
    nodup allFound ran
  have evaluated := ((accepts _).mp staged).1
  have sameContext : transactionContext context workspace =
      transactionContext context workspace' := by
    rw [transactionContext, transactionContext, timesEq]
  rw [← coinsEq] at unspent allFound ran
  obtain ⟨last', -, accepts'⟩ := validateAndStageWithPlans_of_run valid' structural admits' unspent
    nodup allFound ran
  rw [sameContext] at evaluated
  exact ⟨last', stage, (accepts' (stage, last')).mpr ⟨evaluated, rfl⟩, submitted, effectsEq⟩

end LawfulSpendWorkspace

/-- The snapshot workspace accepts exactly what the coins-view workspace on the same coins and
times accepts without creating a coin while it is unspent, with the same effects.  With the
overwrite check on, both accept the same. -/
theorem validateAndStage_snapshot_iff_coinsView {hashPair : Uint256 → Uint256 → Uint256}
    {block : CBlock} {structuralOptions : BlockStructuralConsensusOptions}
    (structural : validateBlockStructuralStage hashPair block structuralOptions = .ok ())
    (distinct : DistinctTxids block.vtx) {state : SnapshotSpendState}
    {parentCoins : CCoinsViewCache} (wellFormed : parentCoins.WellFormed)
    (sameCoins : parentCoins.ledger = state.ledger) {spendContext : BlockSpendContext}
    (height : 0 ≤ spendContext.blockHeight) (scriptChecker : BlockScriptChecker)
    (options : BlockSpendConsensusOptions) (effects : BlockSpendEffects) :
    let times := SpendWorkspace.previousMedianTimePast (state.beginBlockSpend spendContext)
    let SnapshotAccepts := ∃ after, validateAndStageBlockTransactions block.vtx
      (state.beginBlockSpend spendContext) scriptChecker spendContext options = .ok (effects, after)
    let CoinsViewAccepts := ∃ after, validateAndStageBlockTransactions block.vtx
      (CoinsViewBlockSpendWorkspace.over parentCoins times) scriptChecker spendContext options =
        .ok (effects, after)
    (SnapshotAccepts ↔
      state.ledger.OverwritesNothing (blockTransfers block.vtx spendContext.blockHeight) ∧
        CoinsViewAccepts) ∧
    (options.checkNoUnspentOutputOverwrite = true → (SnapshotAccepts ↔ CoinsViewAccepts)) := by
  intro times SnapshotAccepts CoinsViewAccepts
  have structurallyValid := structurallyValid_of_stage structural
  have validSnapshot : LawfulSpendWorkspace.Valid (state.beginBlockSpend spendContext) := trivial
  have validView : LawfulSpendWorkspace.Valid
      (CoinsViewBlockSpendWorkspace.over parentCoins times) :=
    ⟨CacheLayer.valid_new _, wellFormed⟩
  have viewCoins : coins (CoinsViewBlockSpendWorkspace.over parentCoins times) = state.ledger := by
    rw [← sameCoins]
    funext outpoint
    change Option.map toConsensusCoin (coins _ outpoint) = _
    rw [coins_eq]
    exact congrArg (fun coins => Option.map toConsensusCoin (coins outpoint))
      (CacheLayer.overlay_new parentCoins.toView.peekCoin)
  have freeOfSnapshot : SnapshotAccepts →
      state.ledger.OverwritesNothing (blockTransfers block.vtx spendContext.blockHeight) := by
    rintro ⟨after, accepted⟩
    obtain ⟨stage, staged, -⟩ := validateAndStageBlockTransactions_iff.mp accepted
    obtain ⟨found, final, ran, -⟩ := validateAndStageWithPlans_snapshot structurallyValid staged
    exact Ledger.overwritesNothing_of_run ran
  have same : state.ledger.OverwritesNothing (blockTransfers block.vtx spendContext.blockHeight) →
      (SnapshotAccepts ↔ CoinsViewAccepts) := by
    intro free
    constructor
    · exact validateAndStage_of_same structurallyValid validSnapshot trivial
        validView height viewCoins rfl free
    · exact validateAndStage_of_same structurallyValid validView height
        validSnapshot trivial viewCoins.symm rfl (viewCoins ▸ free)
  refine ⟨⟨fun accepted => ?_, fun both => (same both.1).mpr both.2⟩, fun checkOn =>
    ⟨fun accepted => (same (freeOfSnapshot accepted)).mp accepted, fun accepted => ?_⟩⟩
  · exact ⟨freeOfSnapshot accepted, (same (freeOfSnapshot accepted)).mp accepted⟩
  · -- With the check on, the coins view overwrites nothing either.
    obtain ⟨after, staging⟩ := accepted
    obtain ⟨stage, staged, -⟩ := validateAndStageBlockTransactions_iff.mp staging
    obtain ⟨-, found, ran, -⟩ := (validateAndStageWithPlans_iff_run validView
      structurallyValid distinct height checkOn).mp ⟨after, staged, rfl⟩
    rw [viewCoins] at ran
    exact (same (Ledger.overwritesNothing_of_run ran)).mpr ⟨after, staging⟩

/-- A cache over a map in memory with one coin. -/
def oneCoin (outpoint : COutPoint) (coin : Coin) : CCoinsViewCache :=
  new (.bottom (CoinsBase.emptyMemory.writeEntry outpoint ⟨coin, true, false⟩))

variable (outpoint : COutPoint)

theorem oneCoin_wellFormed (coin : Coin) : (oneCoin outpoint coin).WellFormed :=
  ⟨CacheLayer.valid_new _, trivial⟩

theorem oneCoin_ledger {coin : Coin} (unspent : coin.isSpent = false) :
    (oneCoin outpoint coin).ledger =
      ((∅ : FinMap COutPoint CoinSnapshot).insert outpoint (toConsensusCoin coin)).lookup := by
  have written : (CoinsBase.emptyMemory.writeEntry outpoint ⟨coin, true, false⟩).coins =
      (∅ : FinMap COutPoint Coin).insert outpoint coin := by
    rw [CoinsBase.writeEntry, dif_neg (Bool.eq_false_iff.mp unspent)]
    rfl
  funext point
  change Option.map toConsensusCoin (Finmap.lookup point (CoinsBase.coins _)) = _
  rw [written]
  by_cases same : point = outpoint
  · rw [same, Finmap.lookup_insert, Finmap.lookup_insert]
    rfl
  · rw [Finmap.lookup_insert_of_ne _ same, Finmap.lookup_insert_of_ne _ same]
    rfl

/-- A cache in which the output of the sample coinbase is unspent. -/
def sampleOverwrittenCoins : CCoinsViewCache :=
  oneCoin (outpointAt sampleCoinbase.hash 0) ⟨⟨1, [0x51]⟩, false, 1⟩

/-- With the check off, a coinbase that creates a coin that is still unspent is accepted on
the coins view and refused on the snapshot. -/
theorem sampleOverwritten_coinsView_only :
    validateBlockStructuralStage (fun _ _ => 0) (CBlock.ofCoinbase 0 sampleCoinbase) ⟨true⟩ =
        .ok () ∧
      DistinctTxids (CBlock.ofCoinbase 0 sampleCoinbase).vtx ∧
      sampleOverwrittenCoins.ledger = sampleOverwritten.ledger ∧
      (∃ result, validateAndStageBlockTransactions (CBlock.ofCoinbase 0 sampleCoinbase).vtx
        (CoinsViewBlockSpendWorkspace.over sampleOverwrittenCoins fun _ _ => 0)
        skipping ⟨5, 0⟩ ⟨0, 0, false⟩ = .ok result) ∧
      ¬ ∃ result, validateAndStageBlockTransactions (CBlock.ofCoinbase 0 sampleCoinbase).vtx
        (sampleOverwritten.beginBlockSpend ⟨5, 0⟩)
        skipping ⟨5, 0⟩ ⟨0, 0, false⟩ = .ok result := by
  refine ⟨sampleCoinbase_accepted _ _ _, sampleCoinbase_distinct,
    oneCoin_ledger _ rfl, ⟨_, rfl⟩, ?_⟩
  rintro ⟨result, accepted⟩
  cases accepted

/-- The coins of the sample snapshot, as a coins view. -/
def sampleFundedView : CoinsViewBlockSpendWorkspace :=
  .over (oneCoin ⟨9, 0⟩ ⟨⟨10, [0x51]⟩, false, 1⟩)
    (SpendWorkspace.previousMedianTimePast (sampleFunded.beginBlockSpend ⟨5, 0⟩))

/-- The sample block on a coins view with the coins of the funded snapshot, with the check
off and on. -/
theorem validateAndStage_snapshot_iff_coinsView_sampleSpend :
    (∃ result, validateAndStageBlockTransactions sampleSpendBlock.vtx sampleFundedView
      accepting ⟨5, 0⟩ ⟨0, 0, false⟩ = .ok result) ∧
    ∃ result, validateAndStageBlockTransactions sampleSpendBlock.vtx sampleFundedView
      accepting ⟨5, 0⟩ ⟨0, 0, true⟩ = .ok result := by
  have sameCoins : (oneCoin ⟨9, 0⟩ ⟨⟨10, [0x51]⟩, false, 1⟩).ledger = sampleFunded.ledger :=
    oneCoin_ledger _ rfl
  have height : (0 : Int32) ≤ (BlockSpendContext.mk 5 0).blockHeight := by decide
  have accepts := fun options => validateAndStage_snapshot_iff_coinsView sampleSpendBlock_accepted
    sampleSpendBlock_distinct (oneCoin_wellFormed _ _) sameCoins height
    accepting options
  constructor
  · obtain ⟨-, after, accepted⟩ := (accepts ⟨0, 0, false⟩ _).1.mp ⟨_, rfl⟩
    exact ⟨_, accepted⟩
  · obtain ⟨after, accepted⟩ := ((accepts ⟨0, 0, true⟩ _).2 rfl).mp ⟨_, rfl⟩
    exact ⟨_, accepted⟩

end Champy
