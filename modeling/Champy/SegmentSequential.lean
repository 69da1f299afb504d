import Champy.BlockConsensusPipeline
import Champy.BlockStaging
import Champy.SegmentValidation

/-!
# A segment is validated as its blocks one after the other

The sequential run connects each block to a snapshot state.  The state and a ledger of
coins with times mean the same when the coins and the times of the state are the two
components of the ledger; connecting a block keeps that, and the block is accepted
exactly when its outputs are free, its inputs find coins, its evaluation with these
coins passes and its scripts pass.  By induction over the blocks this is what segment
validation checks at once.
-/

namespace Champy

open SnapshotSpendState LawfulSpendWorkspace List CTransaction Ledger SegmentCoinSnapshot
  SpendWorkspace

/-! ## Coins at unspendable outputs -/

/-- No coin is at an unspendable output of the transactions. -/
def NoUnspendableCoin {V : Type} (ledger : Ledger COutPoint V) (txs : List CTransaction) :
    Prop :=
  ∀ tx ∈ txs, ∀ index txout, tx.vout[index]? = some txout →
    isUnspendable txout.scriptPubKey = true → ledger (outpointAt tx.hash index) = none

theorem noUnspentOutput_iff {coins : CoinLedger}
    {txs : List CTransaction} (unspendable : NoUnspendableCoin coins txs) :
    NoUnspentOutput coins txs ↔ OutputsFree coins txs := by
  constructor
  · intro unspent tx txMem point mem
    exact unspent tx txMem point (outputOutpoints_of_spendable mem)
  · intro free tx txMem point mem
    obtain ⟨index, bound, rfl⟩ := mem_map.mp mem
    obtain ⟨txout, found⟩ : ∃ txout, tx.vout[index]? = some txout :=
      ⟨_, getElem?_eq_getElem (mem_range.mp bound)⟩
    cases script : isUnspendable txout.scriptPubKey with
    | true => exact unspendable tx txMem index txout found script
    | false =>
      exact free tx txMem _ (mem_spendableOutpoints.mpr ⟨index, txout, found, script, rfl⟩)

section Unspendable

variable {V : Type} {ledger : Ledger COutPoint V} {txs : List CTransaction}

theorem NoUnspendableCoin.subset {others : List CTransaction}
    (unspendable : NoUnspendableCoin ledger txs) (subset : others ⊆ txs) :
    NoUnspendableCoin ledger others :=
  fun tx mem => unspendable tx (subset mem)

/-- A transaction with the hash of another one has its outputs, so it creates nothing
at the unspendable ones. -/
theorem not_spendable_of_unspendable {tx creator : CTransaction} {index : Nat} {txout : CTxOut}
    (sameStripped : creator.hash = tx.hash → creator.stripped = tx.stripped)
    (checked : CheckedTransaction tx) (checkedCreator : CheckedTransaction creator)
    (found : tx.vout[index]? = some txout) (script : isUnspendable txout.scriptPubKey = true) :
    outpointAt tx.hash index ∉ spendableOutpoints creator := by
  intro mem
  obtain ⟨createdIndex, created, createdFound, spendable, outpointEq⟩ :=
    mem_spendableOutpoints.mp mem
  have sameHash : creator.hash = tx.hash := (congrArg COutPoint.hash outpointEq).symm
  have sameOutputs : creator.stripped.vout = tx.stripped.vout := by rw [sameStripped sameHash]
  change creator.vout = tx.vout at sameOutputs
  have bound := (List.getElem?_eq_some_iff.mp found).1
  have createdBound := (List.getElem?_eq_some_iff.mp createdFound).1
  have length := checked.vout_length
  have createdLength := checkedCreator.vout_length
  rw [sameHash] at outpointEq
  have sameIndex := outpointAt_injective (by omega) (by omega) outpointEq
  rw [sameOutputs, ← sameIndex, found, Option.some.injEq] at createdFound
  rw [← createdFound, script] at spendable
  cases spendable

/-- Transfers of the transactions keep unspendable outputs free. -/
theorem NoUnspendableCoin.afterAll {transfers : List (Transfer COutPoint V)}
    (distinct : DistinctTxids txs)
    (checked : ∀ tx ∈ txs, CheckedTransaction tx)
    (creators : ∀ transfer ∈ transfers, ∃ creator ∈ txs,
      transfer.createdKeys = spendableOutpoints creator)
    (unspendable : NoUnspendableCoin ledger txs) :
    NoUnspendableCoin (ledger.afterAll transfers) txs := by
  induction transfers generalizing ledger with
  | nil => exact unspendable
  | cons transfer transfers ih =>
    rw [forall_mem_cons] at creators
    apply ih creators.2
    intro tx mem index txout found script
    obtain ⟨creator, creatorMem, keys⟩ := creators.1
    have notCreated : outpointAt tx.hash index ∉ transfer.creates.map Prod.fst := by
      change _ ∉ transfer.createdKeys
      rw [keys]
      exact not_spendable_of_unspendable (distinct creator creatorMem tx mem) (checked tx mem)
        (checked creator creatorMem) found script
    rw [Ledger.after, adding_of_notMem notCreated, Ledger.without]
    split
    · rfl
    · exact unspendable tx mem index txout found script

end Unspendable

/-! ## A state and a ledger of coins with times -/

/-- The coins and times of a state are the components of a ledger. -/
structure Annotates (snapshot : SegmentLedger)
    (state : SnapshotSpendState) : Prop where
  ledger_eq : state.ledger = snapshot.mapValues coin
  timeOf_eq : state.timeOf = snapshot.mapValues previousMedianTimePast

variable (ctx : SegmentBlockContext)

theorem segmentTransfer_coin (tx : CTransaction) :
    (segmentTransfer ctx tx).mapValues coin = tx.transfer ctx.height := by
  rw [Transfer.mapValues, segmentTransfer, map_map]
  rfl

theorem segmentTransfer_time (tx : CTransaction) :
    (segmentTransfer ctx tx).mapValues previousMedianTimePast =
      ⟨tx.spentOutpoints, (createdCoinEffects tx ctx.height).map fun create =>
        (create.outpoint, ctx.previousMedianTimePast)⟩ := by
  rw [Transfer.mapValues, segmentTransfer, map_map]
  rfl

theorem transfers_coin (block : SegmentBlockView) : block.transfers.map (Transfer.mapValues coin) =
      blockTransfers block.transactions block.context.height := by
  rw [SegmentBlockView.transfers, blockTransfers, map_map]
  apply map_congr_left
  intro tx _
  exact segmentTransfer_coin block.context tx

namespace SnapshotSpendState

variable {ctx : BlockCommitContext} {state : SnapshotSpendState} {effects : TransactionCoinEffects}

/-- Committing effects writes to the coins as their transfer does, admitted or not. -/
theorem ledger_committing_eq_after :
    (state.committing ctx effects).ledger = state.ledger.after effects.transfer := by
  rw [committing, ledger_foldl_write (fun state create =>
    state.ledger_addTimedCoin create.outpoint create.coin ctx.previousMedianTimePast),
    ledger_eraseCoins]
  rfl

theorem timeOf_committing_eq_after : (state.committing ctx effects).timeOf =
      Ledger.after state.timeOf ⟨effects.spentOutpoints, effects.creates.map fun create =>
        (create.outpoint, ctx.previousMedianTimePast)⟩ := by
  have adds : ∀ (creates : List CreatedCoinEffect) (start : SnapshotSpendState),
      (creates.foldl (fun state create => state.addTimedCoin create.outpoint create.coin
        ctx.previousMedianTimePast) start).timeOf =
        adding start.timeOf (creates.map fun create =>
          (create.outpoint, ctx.previousMedianTimePast)) := by
    intro creates
    induction creates with
    | nil => exact fun _ => rfl
    | cons create creates ih =>
      intro start
      rw [foldl_cons, ih, timeOf_addTimedCoin]
      rfl
  rw [committing, adds, timeOf_eraseCoins]
  rfl

theorem commitEffects_of_run (ctx : BlockCommitContext) {txs : List CTransaction}
    {found : List (List CoinSnapshot)}
    {final : CoinLedger}
    (checked : ∀ tx ∈ txs, CheckedTransaction tx)
    (ran : state.ledger.run (blockTransfers txs ctx.blockHeight) = some (found, final)) :
    ((txs.zip found).map fun input =>
        transactionCoinEffects ctx.blockHeight input.1 input.2).foldlM
          (commitTransaction ctx) state =
      .ok (((txs.zip found).map fun input =>
        transactionCoinEffects ctx.blockHeight input.1 input.2).foldl (committing ctx) state) := by
  induction txs generalizing state found with
  | nil => rfl
  | cons tx txs ih =>
    rw [forall_mem_cons] at checked
    obtain ⟨values, middle, later, applied, rests, rfl⟩ := run_cons_eq_some.mp ran
    have lengths : values.length = tx.spentOutpoints.length := by
      have sizes := congrArg length (apply_eq_some.mp applied).2.1
      rw [length_map, length_map] at sizes
      exact sizes.symm
    have taken : (transactionCoinEffects ctx.blockHeight tx values).spends.map
        SpentCoinEffect.coin = values := by
      rw [transactionCoinEffects, spentCoinEffects, map_map]
      exact map_snd_zip (Nat.le_of_eq lengths)
    have heights : ∀ create ∈ (transactionCoinEffects ctx.blockHeight tx values).creates,
        create.coin.height = ctx.blockHeight :=
      fun create mem => (mem_createdCoinEffects checked.1 mem).1
    have admitted : state.ledger.apply (transactionCoinEffects ctx.blockHeight tx
        values).transfer = some (values, middle) := by
      rw [transactionCoinEffects_transfer lengths]
      exact applied
    have committed : state.commitTransaction ctx
        (transactionCoinEffects ctx.blockHeight tx values) = .ok _ :=
      commitTransaction_eq_ok.mpr ⟨⟨middle, by rw [taken, admitted]⟩, heights, rfl⟩
    rw [zip_cons_cons, map_cons, foldlM_cons, committed, Exec.ok_bind, foldl_cons]
    apply ih checked.2
    rw [ledger_committing admitted]
    exact rests

end SnapshotSpendState

def SegmentBlockContext.consensus (context : SegmentBlockContext) : BlockConsensusContext :=
  ⟨⟨context.height, context.previousMedianTimePast⟩,
    ⟨context.hash, context.height, context.previousMedianTimePast⟩, context.blockSubsidy⟩

section Block

variable {snap : SegmentLedger} {state : SnapshotSpendState}
  {block : SegmentBlockView} {rows : List (List SegmentCoinSnapshot)}

section Rows

variable (grid : snap.resolved block.transfers = rows.map (map some))
  {input : CTransaction × List SegmentCoinSnapshot} (mem : input ∈ block.transactions.zip rows)

include grid mem

theorem row_of_mem :
    ∃ index : Nat, block.transfers[index]? = some (segmentTransfer block.context input.1) ∧
      (snap.resolved block.transfers)[index]? = some (input.2.map some) := by
  obtain ⟨index, found⟩ := mem_iff_getElem?.mp mem
  obtain ⟨txFound, rowFound⟩ := getElem?_zip_eq_some.mp found
  refine ⟨index, getElem?_transfers txFound, ?_⟩
  rw [grid, getElem?_map, rowFound]
  rfl

theorem row_length : input.2.length = input.1.spentOutpoints.length := by
  obtain ⟨index, transferFound, rowFound⟩ := row_of_mem grid mem
  have lengths := resolved_row transferFound rowFound
  rwa [length_map] at lengths

end Rows

/-- A workspace in which a block is validated on a ledger of coins with times.  Coins
that the ledger does not have are those of the block, and have its time. -/
structure ShowsLedger {W : Type} [SpendWorkspace W] [LawfulSpendWorkspace W]
    (snapshot : SegmentLedger) (context : SegmentBlockContext)
    (workspace : W) : Prop where
  valid : Valid workspace
  admits : AdmitsHeight W context.height
  coins_eq : coins workspace = snapshot.mapValues coin
  time_held : ∀ outpoint coin, snapshot outpoint = some coin →
    previousMedianTimePast workspace outpoint coin.coin.height =
      coin.previousMedianTimePast
  time_new : ∀ outpoint, snapshot outpoint = none →
    previousMedianTimePast workspace outpoint context.height =
      context.previousMedianTimePast

theorem Annotates.showsLedger (annotated : Annotates snap state) (ctx : SegmentBlockContext) :
    ShowsLedger snap ctx (state.beginBlockSpend ctx.consensus.spend) where
  valid := trivial
  admits := trivial
  coins_eq := annotated.ledger_eq
  time_held point coin held := by
    change (state.timeOf point).getD ctx.previousMedianTimePast = _
    rw [annotated.timeOf_eq, mapValues, held]
    rfl
  time_new point absent := by
    change (state.timeOf point).getD ctx.previousMedianTimePast = _
    rw [annotated.timeOf_eq, mapValues, absent]
    rfl

section Workspace

variable {W : Type} [SpendWorkspace W] [LawfulSpendWorkspace W] {ws : W}

section Shows

variable (shows : ShowsLedger snap block.context ws)

include shows

theorem ShowsLedger.timesAgree (checked : ∀ tx ∈ block.transactions, CheckedTransaction tx)
    (free : OutputsFree snap block.transactions)
    (grid : snap.resolved block.transfers = rows.map (map some))
    {input : CTransaction × List SegmentCoinSnapshot} (mem : input ∈ block.transactions.zip rows) :
    TimesAgree (previousMedianTimePast ws) input := by
  refine ⟨row_length grid mem, ?_⟩
  rintro ⟨point, coin⟩ entryMem
  obtain ⟨index, transferFound, rowFound⟩ := row_of_mem grid mem
  have answered : (point, some coin) ∈
      (segmentTransfer block.context input.1).spends.zip (input.2.map some) := by
    rw [zip_map_right]
    exact mem_map.mpr ⟨(point, coin), entryMem, rfl⟩
  rcases resolved_origin transferFound rowFound answered with held | ⟨earlier, from_, made⟩
  · exact shows.time_held point coin held
  · obtain ⟨creator, creatorMem, rfl⟩ := mem_map.mp from_
    obtain ⟨create, createMem, eq⟩ := mem_map.mp made
    obtain ⟨rfl, rfl⟩ := Prod.mk.inj eq
    have spendable : create.outpoint ∈ spendableOutpoints creator := by
      rw [← createdKeys_transfer creator block.context.height]
      exact mem_map_of_mem (mem_map_of_mem createMem)
    have height : create.coin.height = block.context.height :=
      (mem_createdCoinEffects (checked creator creatorMem) createMem).1
    change previousMedianTimePast ws create.outpoint create.coin.height = _
    rw [height, shows.time_new _ (free creator creatorMem _ spendable)]

theorem ShowsLedger.free (unspent : NoUnspentOutput (coins ws) block.transactions) :
    OutputsFree snap block.transactions := by
  intro tx mem point spendable
  have absent := unspent tx mem point (outputOutpoints_of_spendable spendable)
  rw [shows.coins_eq] at absent
  exact Option.map_eq_none_iff.mp absent

variable (structural : StructurallyValid block.transactions)
  (distinct : DistinctTxids block.transactions)

include structural distinct

section Unspent

variable (unspent : NoUnspentOutput (coins ws) block.transactions)

include unspent

/-- What the transfers of a block take, with and without times. -/
theorem ShowsLedger.run_iff {found : List (List CoinSnapshot)} {last : CoinLedger} :
    (coins ws).run (blockTransfers block.transactions block.context.height) = some (found, last) ↔
      (snap.resolved block.transfers).map (map (Option.map coin)) = found.map (map some) ∧
        last = (coins ws).afterAll (blockTransfers block.transactions block.context.height) := by
  rw [run_iff_resolved (blockTransfers_coherent structural distinct unspent)
    (blockTransfers_spends_nodup structural.checked), shows.coins_eq, ← transfers_coin,
    resolved_mapValues]

theorem ShowsLedger.run_of_grid (grid : snap.resolved block.transfers = rows.map (map some)) :
    (coins ws).run (blockTransfers block.transactions block.context.height) =
      some (rows.map (map coin), (coins ws).afterAll
          (blockTransfers block.transactions block.context.height)) := by
  refine (shows.run_iff structural distinct unspent).mpr ⟨?_, rfl⟩
  rw [grid]
  simp [map_map, Function.comp_def]

end Unspent

theorem ShowsLedger.spendStage_iff
    (checkOn : block.context.spendOptions.checkNoUnspentOutputOverwrite = true)
    {checker : BlockScriptChecker} {effects : BlockSpendEffects} :
    ((∃ staged, validateAndStageBlockTransactions block.transactions ws checker
          block.context.consensus.spend block.context.spendOptions = .ok (effects, staged)) ∧
        checkCoinbaseReward block.transactions block.context.consensus.blockSubsidy effects =
          .ok ()) ↔
      NoUnspentOutput (coins ws) block.transactions ∧
        ∃ rows stage, snap.resolved block.transfers = rows.map (map some) ∧
          evaluateSegmentBlock checker.collection (block, rows) = .ok stage ∧
          submitBlockScriptChecksForSpendStage stage.scriptChecks checker = .ok () ∧
          stage.effects = effects := by
  simp only [validateAndStageBlockTransactions_iff]
  constructor
  · rintro ⟨⟨staged, stage, stages, submitted, rfl⟩, rewarded⟩
    obtain ⟨unspent, found, ran, eval⟩ := (validateAndStageWithPlans_iff_run shows.valid
      structural distinct shows.admits checkOn).mp ⟨staged, stages, rfl⟩
    obtain ⟨rows, grid, rfl⟩ := map_map_some_of_map _
      ((shows.run_iff structural distinct unspent).mp ran).1
    refine ⟨unspent, rows, stage, grid, ?_, submitted, rfl⟩
    exact (evaluateSegmentBlock_eq_ok structural.checked fun input mem =>
      shows.timesAgree structural.checked (shows.free unspent) grid mem).mpr ⟨eval, rewarded⟩
  · rintro ⟨unspent, rows, stage, grid, evaluates, submitted, rfl⟩
    obtain ⟨eval, rewarded⟩ := (evaluateSegmentBlock_eq_ok structural.checked
      fun input mem => shows.timesAgree structural.checked (shows.free unspent) grid mem).mp
        evaluates
    have ran : (coins ws).run (blockTransfers block.transactions
        block.context.consensus.spend.blockHeight) = _ :=
      shows.run_of_grid structural distinct unspent grid
    obtain ⟨after, stages, -⟩ := (validateAndStageWithPlans_iff_run shows.valid
      structural distinct shows.admits checkOn).mpr ⟨unspent, _, ran, eval⟩
    exact ⟨⟨after, stage, stages, submitted, rfl⟩, rewarded⟩

end Shows

end Workspace

theorem Annotates.committing (annotated : Annotates snap state)
    {ctx : SegmentBlockContext} {inputs : List (CTransaction × List SegmentCoinSnapshot)}
    (lengths : ∀ input ∈ inputs, input.2.length = input.1.spentOutpoints.length) :
    Annotates (snap.afterAll (inputs.map fun input => segmentTransfer ctx input.1))
      ((inputs.map fun input => transactionCoinEffects ctx.height input.1
        (input.2.map coin)).foldl (committing ctx.consensus.commit) state) := by
  induction inputs generalizing snap state with
  | nil => exact annotated
  | cons input inputs ih =>
    rw [forall_mem_cons] at lengths
    have coinLengths : (input.2.map coin).length =
        input.1.spentOutpoints.length := by rw [length_map, lengths.1]
    apply ih _ lengths.2
    refine ⟨?_, ?_⟩
    · rw [ledger_committing_eq_after,
        transactionCoinEffects_transfer coinLengths, annotated.ledger_eq,
        ← segmentTransfer_coin, after_mapValues]
    · rw [timeOf_committing_eq_after,
        transactionCoinEffects_spentOutpoints coinLengths, annotated.timeOf_eq,
        ← after_mapValues]
      exact congrArg _ (segmentTransfer_time ctx input.1).symm

theorem connectBlock_iff (annotated : Annotates snap state)
    (structural : StructurallyValid block.transactions)
    (distinct : DistinctTxids block.transactions)
    (unspendable : NoUnspendableCoin snap block.transactions)
    (checkOn : block.context.spendOptions.checkNoUnspentOutputOverwrite = true)
    {checker : BlockScriptChecker} {effects : BlockSpendEffects}
    {final : SnapshotSpendState} :
    connectBlock checker block.context.spendOptions state
        block.context.consensus block.transactions = .ok (effects, final) ↔
      OutputsFree snap block.transactions ∧
      ∃ rows stage, snap.resolved block.transfers = rows.map (map some) ∧
        evaluateSegmentBlock checker.collection (block, rows) = .ok stage ∧
        submitBlockScriptChecksForSpendStage stage.scriptChecks checker = .ok () ∧
        stage.effects = effects ∧
        final = stage.effects.transactionEffects.foldl
          (committing block.context.consensus.commit) state := by
  have shows := annotated.showsLedger block.context
  have unspendableCoins : NoUnspendableCoin state.ledger block.transactions := by
    intro tx mem index txout found script
    rw [annotated.ledger_eq, mapValues, unspendable tx mem index txout found script]
    rfl
  have freeIff : NoUnspentOutput state.ledger block.transactions ↔
      OutputsFree snap block.transactions := by
    rw [noUnspentOutput_iff unspendableCoins, annotated.ledger_eq]
    simp only [OutputsFree, mapValues, Option.map_eq_none_iff]
  -- The effects of an accepted block are always committed.
  have commits : ∀ rows stage, NoUnspentOutput state.ledger block.transactions →
      snap.resolved block.transfers = rows.map (map some) →
      evaluateSegmentBlock checker.collection (block, rows) = .ok stage →
      state.commitSpendState block.context.consensus.commit stage.effects =
        .ok (stage.effects.transactionEffects.foldl
          (committing block.context.consensus.commit) state) := by
    intro rows stage unspent grid evaluates
    obtain ⟨eval, -⟩ := (evaluateSegmentBlock_eq_ok structural.checked fun input mem =>
      shows.timesAgree structural.checked (freeIff.mp unspent) grid mem).mp evaluates
    rw [commitSpendState, evaluateBlock_effects eval]
    exact commitEffects_of_run block.context.consensus.commit
      structural.checked (shows.run_of_grid structural distinct unspent grid)
  rw [connectBlock_eq_ok, ← and_assoc, shows.spendStage_iff structural distinct checkOn]
  constructor
  · rintro ⟨⟨unspent, rows, stage, grid, evaluates, submitted, rfl⟩, committed⟩
    refine ⟨freeIff.mp unspent, rows, stage, grid, evaluates, submitted, rfl, ?_⟩
    exact Except.ok.inj (committed.symm.trans (commits rows stage unspent grid evaluates))
  · rintro ⟨free, rows, stage, grid, evaluates, submitted, rfl, rfl⟩
    have unspent := freeIff.mpr free
    exact ⟨⟨unspent, rows, stage, grid, evaluates, submitted, rfl⟩,
      commits rows stage unspent grid evaluates⟩

/-- After an accepted block the state and the ledger again mean the same. -/
theorem annotates_after_block (annotated : Annotates snap state)
    (structural : StructurallyValid block.transactions)
    (free : OutputsFree snap block.transactions) {collection : ScriptCheckPlanCollection}
    {stage : BlockSpendStageResult}
    (grid : snap.resolved block.transfers = rows.map (map some))
    (evaluates : evaluateSegmentBlock collection (block, rows) = .ok stage) :
    Annotates (snap.afterAll block.transfers) (stage.effects.transactionEffects.foldl
      (committing block.context.consensus.commit) state) := by
  obtain ⟨eval, -⟩ := (evaluateSegmentBlock_eq_ok structural.checked fun input mem =>
    (annotated.showsLedger block.context).timesAgree structural.checked free grid mem).mp evaluates
  have transfersEq : (block.transactions.zip rows).map (fun input =>
      segmentTransfer block.context input.1) = block.transfers := by
    have lengths := congrArg length grid
    rw [length_resolved, length_map, SegmentBlockView.transfers, length_map] at lengths
    have firsts := congrArg (map (segmentTransfer block.context))
      (map_fst_zip (Nat.le_of_eq lengths))
    rwa [map_map] at firsts
  have effectsEq : stage.effects.transactionEffects = (block.transactions.zip rows).map
      fun input => transactionCoinEffects block.context.height input.1 (input.2.map coin) := by
    rw [evaluateBlock_effects eval, zip_map_right, map_map]
    rfl
  rw [effectsEq, ← transfersEq]
  exact annotated.committing fun input mem => row_length grid mem

theorem NoUnspendableCoin.after_block {txs : List CTransaction}
    (unspendable : NoUnspendableCoin snap txs)
    (distinct : DistinctTxids txs)
    (checked : ∀ tx ∈ txs, CheckedTransaction tx)
    (subset : block.transactions ⊆ txs) :
    NoUnspendableCoin (snap.afterAll block.transfers) txs := by
  apply unspendable.afterAll distinct checked
  intro transfer mem
  obtain ⟨creator, creatorMem, rfl⟩ := mem_map.mp mem
  refine ⟨creator, subset creatorMem, ?_⟩
  rw [← createdKeys_transfer creator block.context.height, ← segmentTransfer_coin,
    Transfer.createdKeys, Transfer.createdKeys, Transfer.mapValues, map_map]
  rfl

end Block

/-! ## Runs -/

/-- Connect blocks one after the other, and collect their effects. -/
def SnapshotSpendState.connectBlocks (scriptChecker : BlockScriptChecker) :
    SnapshotSpendState → List SegmentBlockView →
      Exec BlockRunError (List BlockSpendEffects × SnapshotSpendState)
  | state, [] => pure ([], state)
  | state, block :: blocks => do
      let connected ← state.connectBlock scriptChecker block.context.spendOptions
        block.context.consensus block.transactions
      let rest ← connectBlocks scriptChecker connected.2 blocks
      pure (connected.1 :: rest.1, rest.2)

theorem SnapshotSpendState.connectBlocks_cons_eq_ok {checker : BlockScriptChecker}
    {state final : SnapshotSpendState} {block : SegmentBlockView} {blocks : List SegmentBlockView}
    {allEffects : List BlockSpendEffects} :
    state.connectBlocks checker (block :: blocks) = .ok (allEffects, final) ↔
      ∃ effects next later, state.connectBlock checker block.context.spendOptions
          block.context.consensus block.transactions = .ok (effects, next) ∧
        next.connectBlocks checker blocks = .ok (later, final) ∧
        allEffects = effects :: later := by
  rw [connectBlocks]
  simp only [Exec.bind_eq_ok]
  constructor
  · rintro ⟨⟨effects, next⟩, first, ⟨later, last⟩, rest, ret⟩
    cases ret
    exact ⟨effects, next, later, first, rest, rfl⟩
  · rintro ⟨effects, next, later, first, rest, rfl⟩
    exact ⟨(effects, next), first, (later, final), rest, rfl⟩

section Runs

variable {snap : SegmentLedger} {state : SnapshotSpendState}
  {blocks : List SegmentBlockView} {txs : List CTransaction}

/-- The run of the blocks of a segment, from a point where the state and the ledger mean
the same.  The transactions are those of the whole segment. -/
theorem connectBlocks_iff (annotated : Annotates snap state)
    (structural : ∀ block ∈ blocks, StructurallyValid block.transactions)
    (distinct : DistinctTxids txs)
    (checked : ∀ tx ∈ txs, CheckedTransaction tx)
    (subset : ∀ block ∈ blocks, block.transactions ⊆ txs)
    (unspendable : NoUnspendableCoin snap txs)
    (checkOn : ∀ block ∈ blocks, block.context.spendOptions.checkNoUnspentOutputOverwrite = true)
    {checker : BlockScriptChecker} {allEffects : List BlockSpendEffects} :
    (∃ final, state.connectBlocks checker blocks = .ok (allEffects, final)) ↔
      FreeBlocks snap blocks ∧
        ∃ found stages, resolvedBlocks snap blocks = found.map (map (map some)) ∧
          (blocks.zip found).mapM (evaluateSegmentBlock checker.collection) = .ok stages ∧
          (∀ stage ∈ stages, submitBlockScriptChecksForSpendStage stage.scriptChecks
            checker = .ok ()) ∧
          stages.map BlockSpendStageResult.effects = allEffects := by
  induction blocks generalizing snap state allEffects with
  | nil =>
    constructor
    · rintro ⟨final, ran⟩
      cases ran
      exact ⟨trivial, [], [], rfl, rfl, fun _ mem => absurd mem not_mem_nil, rfl⟩
    · rintro ⟨-, found, stages, grid, staged, -, rfl⟩
      rw [zip_nil_left] at staged
      cases staged
      exact ⟨state, rfl⟩
  | cons block blocks ih =>
    rw [forall_mem_cons] at structural subset checkOn
    have distinctBlock : DistinctTxids block.transactions := fun first firstMem second secondMem =>
        distinct first (subset.1 firstMem) second (subset.1 secondMem)
    have firstIff := @connectBlock_iff _ _ _ annotated structural.1 distinctBlock
      (unspendable.subset subset.1) checkOn.1 checker
    have unspendableLater := unspendable.after_block distinct checked subset.1
    constructor
    · rintro ⟨final, ran⟩
      obtain ⟨effects, next, later, first, rest, rfl⟩ := connectBlocks_cons_eq_ok.mp ran
      obtain ⟨free, rows, stage, grid, evaluates, submitted, rfl, rfl⟩ := firstIff.mp first
      obtain ⟨freeLater, found, stages, gridLater, stagesLater, submittedLater, rfl⟩ :=
        (ih (annotates_after_block annotated structural.1 free grid evaluates) structural.2
          subset.2 unspendableLater checkOn.2).mp ⟨final, rest⟩
      refine ⟨⟨free, freeLater⟩, rows :: found, stage :: stages, ?_, ?_, ?_, rfl⟩
      · rw [resolvedBlocks, grid, gridLater]
        rfl
      · rw [zip_cons_cons, mapM_cons, evaluates, Exec.ok_bind, stagesLater]
        rfl
      · exact forall_mem_cons.mpr ⟨submitted, submittedLater⟩
    · rintro ⟨⟨free, freeLater⟩, found, stages, grid, staged, submitted, rfl⟩
      cases found with
      | nil => cases grid
      | cons rows found =>
        obtain ⟨gridFirst, gridLater⟩ := cons.inj grid
        rw [zip_cons_cons, mapM_cons, Exec.bind_eq_ok] at staged
        obtain ⟨stage, evaluates, staged⟩ := staged
        obtain ⟨stagesLater, evaluatesLater, ret⟩ := Exec.bind_eq_ok.mp staged
        cases ret
        rw [forall_mem_cons] at submitted
        have first := firstIff.mpr ⟨free, rows, stage, gridFirst, evaluates, submitted.1, rfl, rfl⟩
        obtain ⟨final, rest⟩ :=
          (ih (annotates_after_block annotated structural.1 free gridFirst evaluates) structural.2
            subset.2 unspendableLater checkOn.2).mpr
            ⟨freeLater, found, stagesLater, gridLater, evaluatesLater, submitted.2, rfl⟩
        exact ⟨final, connectBlocks_cons_eq_ok.mpr ⟨_, _, _, first, rest, rfl⟩⟩

end Runs

def SnapshotSpendState.segmentCoin (state : SnapshotSpendState) :
    SegmentLedger :=
  fun outpoint => (state.ledger outpoint).bind fun coin =>
    (state.timeOf outpoint).map fun time => ⟨coin, time⟩

theorem annotates_segmentCoin {state : SnapshotSpendState}
    (allTimed : ∀ point, state.ledger point ≠ none → state.timeOf point ≠ none) :
    Annotates state.segmentCoin state := by
  have both : ∀ point, (state.ledger point = none ∧ state.timeOf point = none) ∨
      ∃ coin time, state.ledger point = some coin ∧ state.timeOf point = some time := by
    intro point
    cases held : state.ledger point with
    | none => exact Or.inl ⟨rfl, state.timeOf_of_absent point held⟩
    | some coin =>
      obtain ⟨time, timed⟩ := Option.ne_none_iff_exists'.mp (allTimed point (by simp [held]))
      exact Or.inr ⟨coin, time, rfl, timed⟩
  constructor
  · funext point
    rcases both point with ⟨noCoin, noTime⟩ | ⟨coin, time, held, timed⟩
    · simp [mapValues, segmentCoin, noCoin]
    · simp [mapValues, segmentCoin, held, timed]
  · funext point
    rcases both point with ⟨noCoin, noTime⟩ | ⟨coin, time, held, timed⟩
    · simp [mapValues, segmentCoin, noCoin, noTime]
    · simp [mapValues, segmentCoin, held, timed]

/-- A block as a segment sees it. -/
def CBlock.segmentView (source : CBlock × SegmentBlockContext) : SegmentBlockView :=
  ⟨source.2, source.1.vtx⟩

/-- A segment whose scripts pass is accepted exactly when its blocks are accepted one
after the other, with the same effects. -/
theorem validateSegmentSpend_iff_connectBlocks {hashPair : Uint256 → Uint256 → Uint256}
    {sources : List (CBlock × SegmentBlockContext)}
    (structural : ∀ source ∈ sources, ∃ options,
      validateBlockStructuralStage hashPair source.1 options = .ok ())
    (checkOn : ∀ source ∈ sources, source.2.spendOptions.checkNoUnspentOutputOverwrite = true)
    (distinct : DistinctTxids (sources.flatMap fun source => source.1.vtx))
    {state : SnapshotSpendState} {spendState : SegmentSpendBatchView}
    (unspendable : NoUnspendableCoin state.ledger (sources.flatMap fun source => source.1.vtx))
    (allTimed : ∀ outpoint, state.ledger outpoint ≠ none → state.timeOf outpoint ≠ none)
    (answers : AnswersFrom state.segmentCoin spendState) (scriptChecker : BlockScriptChecker)
    (allEffects : List BlockSpendEffects) :
    (∃ validation, validateSegmentSpend (sources.map CBlock.segmentView)
        (SegmentUtxoSnapshotBackend.ofBatchView spendState) scriptChecker.collection =
          .ok validation ∧
      (∀ stage ∈ validation.blockStages,
        submitBlockScriptChecksForSpendStage stage.scriptChecks scriptChecker = .ok ()) ∧
      validation.blockStages.map BlockSpendStageResult.effects = allEffects) ↔
    ∃ final, state.connectBlocks scriptChecker (sources.map CBlock.segmentView) =
      .ok (allEffects, final) := by
  have annotated := annotates_segmentCoin allTimed
  have structurals : ∀ block ∈ sources.map CBlock.segmentView,
      StructurallyValid block.transactions := by
    intro block mem
    obtain ⟨source, sourceMem, rfl⟩ := mem_map.mp mem
    obtain ⟨options, accepted⟩ := structural source sourceMem
    exact structurallyValid_of_stage accepted
  have checks : ∀ block ∈ sources.map CBlock.segmentView,
      block.context.spendOptions.checkNoUnspentOutputOverwrite = true :=
    forall_mem_map.mpr checkOn
  have checked : ∀ tx ∈ sources.flatMap fun source => source.1.vtx, CheckedTransaction tx := by
    intro tx mem
    obtain ⟨source, sourceMem, txMem⟩ := mem_flatMap.mp mem
    exact (structurals _ (mem_map_of_mem sourceMem)).checked tx txMem
  have subset : ∀ block ∈ sources.map CBlock.segmentView,
      block.transactions ⊆ sources.flatMap fun source => source.1.vtx := by
    intro block mem tx txMem
    obtain ⟨source, sourceMem, rfl⟩ := mem_map.mp mem
    exact mem_flatMap.mpr ⟨source, sourceMem, txMem⟩
  have unspendableCoins : NoUnspendableCoin state.segmentCoin
      (sources.flatMap fun source => source.1.vtx) := by
    intro tx mem index txout found script
    rw [segmentCoin, unspendable tx mem index txout found script]
    rfl
  rw [connectBlocks_iff annotated structurals distinct checked subset unspendableCoins checks]
  simp only [validateSegmentSpend_eq_ok answers checks structurals]
  constructor
  · rintro ⟨validation, ⟨free, found, stages, grid, staged, rfl⟩, submitted, effectsEq⟩
    exact ⟨free, found, stages, grid, staged, submitted, effectsEq⟩
  · rintro ⟨free, found, stages, grid, staged, submitted, effectsEq⟩
    exact ⟨_, ⟨free, found, stages, grid, staged, rfl⟩, submitted, effectsEq⟩

/-! ## Two blocks with spends -/

/-- The sample block at height 5, with a subsidy that covers its coinbase. -/
def sampleSource : CBlock × SegmentBlockContext :=
  (sampleSpendBlock, ⟨1, 0, 5, 0, ⟨0, 0, true⟩, 5000000000⟩)

/-- The sample block, and a block that spends one of its outputs. -/
def sampleSources : List (CBlock × SegmentBlockContext) :=
  [sampleSource, (sampleNextBlock, ⟨2, 1, 6, 0, ⟨0, 0, true⟩, 5000000000⟩)]

def SnapshotSpendState.batchView (state : SnapshotSpendState) : SegmentSpendBatchView :=
  fun outpoints => .ok (outpoints.map state.segmentCoin)

/-- A checker that wants checks and refuses every script. -/
def BlockScriptChecker.refusing : BlockScriptChecker :=
  ⟨true, fun _ => Exec.reject (invalidBlockForSpend "mandatory-script-verify-flag-failed" ""),
    .ok ()⟩

theorem sampleSources_distinct :
    DistinctTxids (sampleSources.flatMap fun source => source.1.vtx) := by
  rw [DistinctTxids]
  decide

theorem sampleSources_unspendable : NoUnspendableCoin sampleFunded.ledger
    (sampleSources.flatMap fun source => source.1.vtx) := by
  intro tx mem index txout found script
  have outputs : ∀ tx ∈ sampleSources.flatMap fun source => source.1.vtx, ∀ txout ∈ tx.vout,
      isUnspendable txout.scriptPubKey = false := by
    decide
  rw [outputs tx mem txout (mem_of_getElem? found)] at script
  cases script

theorem sampleSources_accepted : ∀ source ∈ sampleSources, ∃ options,
    validateBlockStructuralStage (· + ·) source.1 options = .ok () := by
  rintro source (_ | ⟨_, _ | ⟨_, _ | _⟩⟩)
  · exact ⟨⟨true⟩, sampleSpendBlock_accepted⟩
  · exact ⟨⟨true⟩, sampleNextBlock_accepted⟩

theorem sampleFunded_timed (point : COutPoint) (held : sampleFunded.ledger point ≠ none) :
    sampleFunded.timeOf point ≠ none := by
  rw [sampleFunded, ledger_addTimedCoin] at held
  rw [sampleFunded, SnapshotSpendState.timeOf_addTimedCoin]
  by_cases same : point = ⟨9, 0⟩
  · simp [same]
  · rw [Function.update_of_ne same] at held
    exact absurd rfl held

/-- Segment validation only collects the scripts: it accepts the sample blocks also for a
checker that refuses every script, and the sequential run does not. -/
theorem sampleSources_scripts_not_run : (∀ source ∈ sampleSources, ∃ options,
      validateBlockStructuralStage (· + ·) source.1 options = .ok ()) ∧
    DistinctTxids (sampleSources.flatMap fun source => source.1.vtx) ∧
    NoUnspendableCoin sampleFunded.ledger (sampleSources.flatMap fun source => source.1.vtx) ∧
    (∀ outpoint, sampleFunded.ledger outpoint ≠ none → sampleFunded.timeOf outpoint ≠ none) ∧
    AnswersFrom sampleFunded.segmentCoin sampleFunded.batchView ∧
    (∃ validation, validateSegmentSpend (sampleSources.map CBlock.segmentView)
      (SegmentUtxoSnapshotBackend.ofBatchView sampleFunded.batchView)
      BlockScriptChecker.refusing.collection = .ok validation) ∧
    ¬ ∃ result, sampleFunded.connectBlocks BlockScriptChecker.refusing
      (sampleSources.map CBlock.segmentView) = .ok result := by
  refine ⟨sampleSources_accepted, sampleSources_distinct, sampleSources_unspendable,
    sampleFunded_timed, fun _ => rfl, ⟨_, rfl⟩, ?_⟩
  rintro ⟨result, accepted⟩
  cases accepted

/-- Two blocks, the second spending an output of the first, with a checker that accepts. -/
theorem validateSegmentSpend_iff_connectBlocks_sampleSources :
    ∃ allEffects final, sampleFunded.connectBlocks BlockScriptChecker.accepting
      (sampleSources.map CBlock.segmentView) = .ok (allEffects, final) := by
  have answers : AnswersFrom sampleFunded.segmentCoin sampleFunded.batchView := fun _ => rfl
  obtain ⟨final, accepted⟩ := (validateSegmentSpend_iff_connectBlocks sampleSources_accepted
    (by decide) sampleSources_distinct sampleSources_unspendable sampleFunded_timed answers
    BlockScriptChecker.accepting _).mp ⟨_, rfl, fun _ _ => Exec.forM_eq_ok.mpr fun _ _ => rfl, rfl⟩
  exact ⟨_, final, accepted⟩

end Champy
