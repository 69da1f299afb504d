import Champy.BlockEvaluation
import Champy.SegmentReplay

/-!
# Validation of a segment

Once the inputs of a segment have their coins, each block is evaluated by itself.  The
evaluation reads the median times that the join recorded, so it is the evaluation of
`BlockEvaluation` for any function of times that agrees with them.  The whole validation
then is three conditions: the outputs are free, every input finds a coin, and each
block passes with the coins that its inputs found.
-/

namespace Champy

open List SegmentCoinSnapshot Exec

/-! ## The times of the inputs -/

theorem segmentSequenceLockTimes_of_mem {previousMedianTimePast : Int64}
    {inputs : List (COutPoint × SegmentCoinSnapshot)} {input : COutPoint × SegmentCoinSnapshot}
    (nodup : (inputs.map Prod.fst).Nodup) (mem : input ∈ inputs) (height : Int32) :
    segmentSequenceLockTimes previousMedianTimePast inputs input.1 height =
      input.2.previousMedianTimePast := by
  have found : (inputs.foldl (fun times input => FinMap.emplace times input.1
      input.2.previousMedianTimePast) (∅ : FinMap COutPoint Int64)).lookup input.1 =
        some input.2.previousMedianTimePast :=
    FinMap.lookup_foldl_emplace_of_mem nodup mem (Finmap.lookup_empty _)
  rw [segmentSequenceLockTimes]
  simp only [found, Option.getD_some]

/-- A function of times that agrees with those that the join recorded. -/
def TimesAgree (times : COutPoint → Int32 → Int64)
    (input : CTransaction × List SegmentCoinSnapshot) : Prop :=
  input.2.length = input.1.spentOutpoints.length ∧
    ∀ entry ∈ input.1.spentOutpoints.zip input.2,
      times entry.1 entry.2.coin.height = entry.2.previousMedianTimePast

/-- The coins of resolved inputs, without their times. -/
def resolvedCoins (input : CTransaction × List SegmentCoinSnapshot) :
    CTransaction × List CoinSnapshot :=
  (input.1, input.2.map coin)

section Transactions

variable {ctx : SegmentBlockContext} {collection : ScriptCheckPlanCollection}
  {times : COutPoint → Int32 → Int64}

theorem stageResolvedTransaction_eq_evaluateTransaction
    {input : CTransaction × List SegmentCoinSnapshot} (checked : CheckedTransaction input.1)
    (agree : TimesAgree times input) (stage : BlockSpendStageResult) :
    stageResolvedTransaction ctx collection stage input =
      evaluateTransaction ⟨ctx.height, ctx.previousMedianTimePast, times⟩
        ctx.spendOptions collection stage (resolvedCoins input) := by
  obtain ⟨tx, resolved⟩ := input
  obtain ⟨lengths, sameTimes⟩ := agree
  have shape : (if tx.isCoinBase then resolved.isEmpty else resolved.length == tx.vin.length) =
      true := by
    cases coinbase : tx.isCoinBase with
    | true =>
      rw [spentOutpoints_of_coinBase coinbase] at lengths
      simpa using lengths
    | false =>
      rw [spentOutpoints_of_notCoinBase coinbase, length_map] at lengths
      simpa using lengths
  have recorded : ∀ entry ∈ tx.spentOutpoints.zip (resolved.map coin),
      segmentSequenceLockTimes ctx.previousMedianTimePast
          ((tx.vin.map CTxIn.prevout).zip resolved) entry.1 entry.2.height =
        times entry.1 entry.2.height := by
    rw [zip_map_right, forall_mem_map]
    intro entry mem
    rw [Prod.map_fst, Prod.map_snd, id_eq, sameTimes entry mem]
    cases coinbase : tx.isCoinBase with
    | true =>
      rw [spentOutpoints_of_coinBase coinbase] at mem
      cases mem
    | false =>
      rw [spentOutpoints_of_notCoinBase coinbase] at mem lengths
      apply segmentSequenceLockTimes_of_mem _ mem
      rw [map_fst_zip (Nat.le_of_eq lengths.symm)]
      exact checked.inputs_nodup
  unfold stageResolvedTransaction evaluateTransaction resolvedCoins
  simp only [shape, ensure, if_true, ok_bind]
  rw [addTransactionToStage_congr recorded]

theorem foldlM_stageResolvedTransaction {inputs : List (CTransaction × List SegmentCoinSnapshot)}
    (checked : ∀ input ∈ inputs, CheckedTransaction input.1)
    (agree : ∀ input ∈ inputs, TimesAgree times input) (stage : BlockSpendStageResult) :
    inputs.foldlM (stageResolvedTransaction ctx collection) stage =
      (inputs.map resolvedCoins).foldlM (evaluateTransaction
        ⟨ctx.height, ctx.previousMedianTimePast, times⟩ ctx.spendOptions collection)
        stage := by
  induction inputs generalizing stage with
  | nil => rfl
  | cons input inputs ih =>
    rw [forall_mem_cons] at checked agree
    rw [map_cons, foldlM_cons, foldlM_cons,
      stageResolvedTransaction_eq_evaluateTransaction checked.1 agree.1]
    congr 1
    funext next
    exact ih checked.2 agree.2 next

end Transactions

/-! ## Blocks -/

/-- Evaluate a block with the coins and times of its inputs, and check its reward. -/
def evaluateSegmentBlock (collection : ScriptCheckPlanCollection)
    (input : SegmentBlockView × List (List SegmentCoinSnapshot)) :
    BlockSpendResult BlockSpendStageResult := do
  let stage ← (input.1.transactions.zip input.2).foldlM
    (stageResolvedTransaction input.1.context collection) BlockSpendStageResult.empty
  checkBlockReward input.1 stage.effects.fees
  pure stage

variable {collection : ScriptCheckPlanCollection} {rows : List (List SegmentCoinSnapshot)}
  {block : SegmentBlockView}

theorem evaluateSegmentBlock_eq_ok {times : COutPoint → Int32 → Int64}
    (checked : ∀ tx ∈ block.transactions, CheckedTransaction tx)
    (agree : ∀ input ∈ block.transactions.zip rows, TimesAgree times input)
    {stage : BlockSpendStageResult} :
    evaluateSegmentBlock collection (block, rows) = .ok stage ↔
      evaluateBlock ⟨block.context.height, block.context.previousMedianTimePast, times⟩
          block.context.spendOptions collection
          (block.transactions.zip (rows.map (map coin))) = .ok stage ∧
        checkBlockReward block stage.effects.fees = .ok () := by
  have sameCoins : (block.transactions.zip rows).map resolvedCoins =
      block.transactions.zip (rows.map (map coin)) := by
    rw [zip_map_right]
    rfl
  have checkedInputs : ∀ input ∈ block.transactions.zip rows, CheckedTransaction input.1 :=
    fun input mem => checked input.1 (of_mem_zip mem).1
  rw [evaluateSegmentBlock, evaluateBlock, bind_eq_ok,
    foldlM_stageResolvedTransaction checkedInputs agree, sameCoins]
  constructor
  · rintro ⟨res, eval, later⟩
    obtain ⟨⟨⟩, rewarded, ret⟩ := bind_eq_ok.mp later
    cases ret
    exact ⟨eval, rewarded⟩
  · rintro ⟨eval, rewarded⟩
    exact ⟨stage, eval, bind_eq_ok.mpr ⟨(), rewarded, rfl⟩⟩

theorem validateResolvedSegmentBlockSpend_eq {found : SegmentInputCoins} {index : Nat}
    (valid : StructurallyValid block.transactions)
    (rowsFound : found[index]? = some rows)
    (lengths : rows.length = block.transactions.length) :
    validateResolvedSegmentBlockSpend block ⟨.complete, none, found⟩ index collection =
      evaluateSegmentBlock collection (block, rows) := by
  obtain ⟨coinbase, later, transactionsEq, isCoinbase, -⟩ := valid.coinbase_first
  have coinbaseFirst : block.transactions.head?.any CTransaction.isCoinBase = true := by
    rw [transactionsEq, head?_cons, Option.any_some, isCoinbase]
  unfold validateResolvedSegmentBlockSpend
  simp only [coinbaseFirst, rowsFound, lengths, beq_self_eq_true, ensure, if_true,
    resolvedJoinError, pure_eq_ok, ok_bind]
  rfl

/-! ## Segments -/

section Segments

variable {snap : SegmentLedger} {spendState : SegmentSpendBatchView}
  {blocks : List SegmentBlockView} {collection : ScriptCheckPlanCollection}

theorem segmentJoinError_eq_ok {joined : SegmentSpentOutputJoin} :
    segmentJoinError blocks joined = .ok () ↔ joined.status = .complete := by
  unfold segmentJoinError
  cases joined.status with
  | complete => simp
  | backendMismatch => simp
  | missingOrSpent | duplicateSpend | invalidSpendOrder =>
    cases joined.failedLookup with
    | none => simp
    | some lookup =>
      cases blockFound : blocks[lookup.blockIndex]? with
      | none => simp [blockFound]
      | some block =>
        cases txFound : block.transactions[lookup.lookup.transactionIndex]? <;>
          simp [blockFound, txFound]

variable {found : SegmentInputCoins} {rows : List (List SegmentCoinSnapshot)}

theorem length_rows (grid : resolvedBlocks snap blocks = found.map (map (map some)))
    {index : Nat} {block : SegmentBlockView}
    (blockFound : blocks[index]? = some block) (rowsFound : found[index]? = some rows) :
    rows.length = block.transactions.length := by
  obtain ⟨before, rowsEq⟩ := getElem?_resolvedBlocks snap blockFound
  rw [grid, getElem?_map, rowsFound] at rowsEq
  have lengths := congrArg length (Option.some.inj rowsEq)
  rwa [length_map, Ledger.length_resolved, SegmentBlockView.transfers, length_map] at lengths

theorem all_length_eq {ctx : SegmentBlockContext} {txs : List CTransaction} {ledger : SegmentLedger}
    (grid : ledger.resolved (txs.map (segmentTransfer ctx)) = rows.map (map some)) :
    ((txs.zip rows).all fun tx => tx.1.isCoinBase || tx.2.length == tx.1.vin.length) = true := by
  induction txs generalizing ledger rows with
  | nil => rfl
  | cons tx txs ih =>
    cases rows with
    | nil => rfl
    | cons row rows =>
      obtain ⟨here, later⟩ := cons.inj grid
      have length := congrArg length here
      rw [length_map, length_map] at length
      rw [zip_cons_cons, all_cons, ih later, Bool.and_true]
      cases coinbase : tx.isCoinBase with
      | true => rfl
      | false => simpa [segmentTransfer, CTransaction.spentOutpoints, coinbase] using length.symm

/-- The coins of a replay pass the assertion. -/
theorem summarizeSegmentSpend_eq (grid : resolvedBlocks snap blocks = found.map (map (map some))) :
    summarizeSegmentSpend blocks ⟨.complete, none, found⟩ =
      .ok (segmentSpendSummary blocks ⟨.complete, none, found⟩) := by
  have passes : ((blocks.zip found).all fun block => (block.1.transactions.zip block.2).all fun tx =>
      tx.1.isCoinBase || tx.2.length == tx.1.vin.length) = true := by
    induction blocks generalizing snap found with
    | nil => rfl
    | cons block blocks ih =>
      cases found with
      | nil => rfl
      | cons rows found =>
        obtain ⟨here, later⟩ := cons.inj grid
        rw [zip_cons_cons, all_cons, ih later, all_length_eq here]
        rfl
  simp only [summarizeSegmentSpend, if_true, passes]
  rfl

section Checked

open SegmentUtxoSnapshotBackend

variable (answers : AnswersFrom snap spendState)
  (checkOn : ∀ block ∈ blocks, block.context.spendOptions.checkNoUnspentOutputOverwrite = true)
  {validation : SegmentSpendValidation}

include answers checkOn

/-- Validation of a segment, without any condition on the transactions: the outputs are free,
the replay finds every coin, and the blocks pass with these coins. -/
theorem validateSegmentSpend_iff_replay {step : SegmentBlockView × List (List SegmentCoinSnapshot) →
      BlockSpendResult BlockSpendStageResult}
    (agree : ∀ {found index block rows}, resolvedBlocks snap blocks = found.map (map (map some)) →
      blocks[index]? = some block → found[index]? = some rows →
      validateResolvedSegmentBlockSpend block ⟨.complete, none, found⟩ index collection =
        step (block, rows)) :
    validateSegmentSpend blocks (ofBatchView spendState) collection = .ok validation ↔
      FreeBlocks snap blocks ∧
        ∃ coins final stages, replaySegment snap isSpendable blocks = .ok (coins, final) ∧
          (blocks.zip coins).mapM step = .ok stages ∧
          validation = ⟨⟨.complete, none, coins⟩, stages,
            segmentSpendSummary blocks ⟨.complete, none, coins⟩⟩ := by
  have loop : ∀ coins final, replaySegment snap isSpendable blocks = .ok (coins, final) →
      (blocks.zipIdx.mapM fun block => validateResolvedSegmentBlockSpend block.1
        ⟨.complete, none, coins⟩ block.2 collection) = (blocks.zip coins).mapM step := by
    intro coins final replayed
    have grid := (replayBlocks_eq_ok.mp replayed).2.1
    apply mapM_zipIdx_eq_mapM_zip (length_of_grid grid)
    intro index block rows blockFound rowsFound
    rw [Nat.zero_add]
    exact agree grid blockFound rowsFound
  rw [validateSegmentSpend]
  simp only [bind_eq_ok]
  constructor
  · rintro ⟨⟨⟩, free, joined, joins, ⟨⟩, complete, stages, staged, summary, summarized, ret⟩
    obtain ⟨coins, final, replayed, rfl⟩ := (joinSegmentSpentOutputs_eq_complete answers).mp
      ⟨joins, segmentJoinError_eq_ok.mp complete⟩
    rw [loop coins final replayed] at staged
    rw [summarizeSegmentSpend_eq (replayBlocks_eq_ok.mp replayed).2.1] at summarized
    cases summarized
    cases ret
    exact ⟨(checkSegmentNoUnspentOutputOverwrite_eq_ok checkOn answers).mp free, coins, final,
      stages, replayed, staged, rfl⟩
  · rintro ⟨free, coins, final, stages, replayed, staged, rfl⟩
    obtain ⟨joins, complete⟩ := (joinSegmentSpentOutputs_eq_complete answers).mpr
      ⟨coins, final, replayed, rfl⟩
    refine ⟨(), (checkSegmentNoUnspentOutputOverwrite_eq_ok checkOn answers).mpr free, _, joins,
      (), segmentJoinError_eq_ok.mpr complete, stages, ?_, _,
      summarizeSegmentSpend_eq (replayBlocks_eq_ok.mp replayed).2.1, rfl⟩
    rw [loop coins final replayed, staged]

/-- Validation of a segment: the outputs are free, the inputs find coins, and the blocks
pass with them. -/
theorem validateSegmentSpend_eq_ok
    (valid : ∀ block ∈ blocks, StructurallyValid block.transactions) :
    validateSegmentSpend blocks (ofBatchView spendState) collection = .ok validation ↔
      FreeBlocks snap blocks ∧
        ∃ found stages, resolvedBlocks snap blocks = found.map (map (map some)) ∧
          (blocks.zip found).mapM (evaluateSegmentBlock collection) = .ok stages ∧
          validation = ⟨⟨.complete, none, found⟩, stages,
            segmentSpendSummary blocks ⟨.complete, none, found⟩⟩ := by
  have nodup : ∀ block ∈ blocks, ∀ tx ∈ block.transactions, tx.spentOutpoints.Nodup :=
    fun block mem tx txMem => spentOutpoints_nodup ((valid block mem).checked tx txMem)
  rw [validateSegmentSpend_iff_replay answers checkOn fun grid blockFound rowsFound =>
    validateResolvedSegmentBlockSpend_eq (valid _ (mem_of_getElem? blockFound)) rowsFound
      (length_rows grid blockFound rowsFound)]
  simp only [replaySegment, replayBlocks_eq_ok]
  constructor
  · rintro ⟨free, found, -, stages, ⟨-, grid, -⟩, rest⟩
    exact ⟨free, found, stages, grid, rest⟩
  · rintro ⟨free, found, stages, grid, rest⟩
    exact ⟨free, found, _, stages, ⟨nodup, grid, rfl⟩, rest⟩

end Checked

end Segments

end Champy
