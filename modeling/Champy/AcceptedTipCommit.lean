import Champy.OneByOneSpend
import Champy.SegmentSequential

/-!
# The accepted-tip commit path

`PrepareAcceptedTipCommitWork` validates a block that extends the tip as a segment of
one block: it joins the inputs and evaluates the block with them.  `ConnectPrepared`
validates and stages the block in a workspace.  The ordinary path also looks for outputs
of the block that are still unspent, and the accepted-tip path has no such step.
-/

namespace Champy

open LawfulSpendWorkspace SnapshotSpendState CBlock SpendWorkspace Exec

def completeCoreBlockScriptChecks (checker : BlockScriptChecker)
    (checks : List TransactionScriptCheckPlan) : BlockSpendResult Unit := do
  checks.forM checker.check
  checker.complete

/-- The spend validation of `PrepareAcceptedTipCommitWork`. -/
def prepareAcceptedTipSpend (segmentBlock : SegmentBlockView)
    (segmentSpendState : SegmentSpendBatchView) (checker : BlockScriptChecker) :
    BlockSpendResult BlockSpendEffects := do
  let joinedInputs ← joinSegmentSpentOutputs [segmentBlock]
    (SegmentUtxoSnapshotBackend.ofBatchView segmentSpendState)
  let blockStage ← validateResolvedSegmentBlockSpend segmentBlock joinedInputs 0 checker.collection
  completeCoreBlockScriptChecks checker blockStage.scriptChecks
  pure blockStage.effects

/-- The spend stage of `ConnectPrepared`. -/
def connectPreparedSpend {W : Type} [SpendWorkspace W] (block : SegmentBlockView)
    (workspace : W) (checker : BlockScriptChecker) : BlockSpendResult BlockSpendEffects :=
  let spendEffects := do
    let staged ← validateAndStageBlockTransactions block.transactions workspace checker
      block.context.consensus.spend block.context.spendOptions
    pure staged.1
  completeSpendStage block.transactions block.context.consensus.blockSubsidy spendEffects checker

theorem completeSpendStage_eq_ok {txs : List CTransaction} {blockSubsidy : CAmount}
    {spendEffects : BlockSpendResult BlockSpendEffects} {checker : BlockScriptChecker}
    {effects : BlockSpendEffects} :
    completeSpendStage txs blockSubsidy spendEffects checker = .ok effects ↔
      spendEffects = .ok effects ∧ checkCoinbaseReward txs blockSubsidy effects = .ok () ∧
        checker.complete = .ok () := by
  have rewardedIff : (spendEffects >>= fun found =>
      checkCoinbaseReward txs blockSubsidy found >>= fun _ => pure found) = .ok effects ↔
      spendEffects = .ok effects ∧ checkCoinbaseReward txs blockSubsidy effects = .ok () := by
    simp only [bind_eq_ok]
    constructor
    · rintro ⟨found, staged, ⟨⟩, rewarded, ret⟩
      cases ret
      exact ⟨staged, rewarded⟩
    · intro accepted
      exact ⟨effects, accepted.1, (), accepted.2, rfl⟩
  unfold completeSpendStage
  rw [← and_assoc, ← rewardedIff]
  dsimp only
  generalize (spendEffects >>= fun found =>
    checkCoinbaseReward txs blockSubsidy found >>= fun _ => pure found) = rewarded
  cases rewarded with
  | ok found =>
    dsimp only
    rw [bind_eq_ok]
    constructor
    · rintro ⟨⟨⟩, completed, ret⟩
      exact ⟨ret, completed⟩
    · intro accepted
      exact ⟨(), accepted.2, accepted.1⟩
  | error failure =>
    cases failure with
    | fault reason => simp
    | reject reason =>
      cases checker.complete with
      | ok value => simp [reject]
      | error completeFailure => cases completeFailure <;> simp [reject]

section Paths

variable {W : Type} [SpendWorkspace W] [LawfulSpendWorkspace W] {ws : W}
  {snap : SegmentLedger} {spendState : SegmentSpendBatchView}
  {block : SegmentBlockView} {checker : BlockScriptChecker} {effects : BlockSpendEffects}

variable {stage : BlockSpendStageResult}

theorem resolvedJoin_complete {joined : SegmentSpentOutputJoin} {index : Nat}
    {collection : ScriptCheckPlanCollection}
    (accepted : validateResolvedSegmentBlockSpend block joined index collection =
      .ok stage) : joined.status = .complete := by
  unfold validateResolvedSegmentBlockSpend at accepted
  obtain ⟨⟨⟩, -, accepted⟩ := bind_eq_ok.mp accepted
  cases found : joined.inputCoinsByBlock[index]? with
  | none => simp [found] at accepted
  | some coins =>
    rw [found] at accepted
    obtain ⟨⟨⟩, joins, -⟩ := bind_eq_ok.mp accepted
    unfold resolvedJoinError at joins
    cases status : joined.status with
    | complete => rfl
    | backendMismatch => simp [status] at joins
    | missingOrSpent | duplicateSpend | invalidSpendOrder =>
      rw [status] at joins
      dsimp only at joins
      split at joins <;> simp at joins

theorem prepareAcceptedTipSpend_eq_ok (answers : AnswersFrom snap spendState)
    (valid : StructurallyValid block.transactions) :
    prepareAcceptedTipSpend block spendState checker = .ok effects ↔
      ∃ rows stage, snap.resolved block.transfers = rows.map (List.map some) ∧
        evaluateSegmentBlock checker.collection (block, rows) = .ok stage ∧
        completeCoreBlockScriptChecks checker stage.scriptChecks = .ok () ∧
        stage.effects = effects := by
  have nodup : ∀ other ∈ [block], ∀ tx ∈ other.transactions, tx.spentOutpoints.Nodup := by
    intro other mem tx txMem
    rw [List.mem_singleton.mp mem] at txMem
    exact spentOutpoints_nodup (valid.checked tx txMem)
  rw [prepareAcceptedTipSpend]
  simp only [bind_eq_ok]
  constructor
  · rintro ⟨joined, joins, stage, evaluates, ⟨⟩, completed, ret⟩
    cases ret
    have complete : joined.status = .complete := resolvedJoin_complete evaluates
    obtain ⟨found, grid, rfl⟩ := (joinSegmentSpentOutputs_complete_iff answers nodup).mp
      ⟨joins, complete⟩
    cases found with
    | nil => cases grid
    | cons rows found =>
      have blockFound : [block][0]? = some block := rfl
      have lengths := length_rows grid blockFound rfl
      rw [validateResolvedSegmentBlockSpend_eq valid rfl lengths] at evaluates
      exact ⟨rows, stage, (List.cons.inj grid).1, evaluates, completed, rfl⟩
  · rintro ⟨rows, stage, grid, evaluates, completed, rfl⟩
    have wholeGrid : resolvedBlocks snap [block] = [rows].map (List.map (List.map some)) := by
      rw [resolvedBlocks, grid]
      rfl
    obtain ⟨joins, -⟩ := (joinSegmentSpentOutputs_complete_iff answers nodup).mpr
      ⟨[rows], wholeGrid, rfl⟩
    have blockFound : [block][0]? = some block := rfl
    have lengths := length_rows wholeGrid blockFound rfl
    refine ⟨_, joins, stage, ?_, (), completed, rfl⟩
    rw [validateResolvedSegmentBlockSpend_eq valid rfl lengths]
    exact evaluates

theorem completeCoreBlockScriptChecks_eq_ok {rows : List (List SegmentCoinSnapshot)}
    {times : COutPoint → Int32 → Int64}
    (checked : ∀ tx ∈ block.transactions, CheckedTransaction tx)
    (agree : ∀ input ∈ block.transactions.zip rows, TimesAgree times input)
    (evaluates : evaluateSegmentBlock checker.collection (block, rows) = .ok stage) :
    completeCoreBlockScriptChecks checker stage.scriptChecks = .ok () ↔
      submitBlockScriptChecksForSpendStage stage.scriptChecks checker = .ok () ∧
        checker.complete = .ok () := by
  have submitEq : submitBlockScriptChecksForSpendStage stage.scriptChecks checker =
      stage.scriptChecks.forM checker.check := by
    unfold submitBlockScriptChecksForSpendStage
    by_cases wants : checker.wantsChecks = true
    · rw [if_pos wants]
    · obtain ⟨eval, -⟩ := (evaluateSegmentBlock_eq_ok checked agree).mp evaluates
      have plans := evaluateBlock_plans eval
      rw [BlockScriptChecker.collection, if_neg wants] at plans
      have noPlans : stage.scriptChecks = [] := by
        rw [plans]
        exact List.flatMap_eq_nil_iff.mpr fun input _ => by simp [transactionPlans]
      rw [if_neg wants, noPlans]
      rfl
  rw [submitEq, completeCoreBlockScriptChecks, bind_eq_ok]
  constructor
  · rintro ⟨⟨⟩, submitted, completed⟩
    exact ⟨submitted, completed⟩
  · intro accepted
    exact ⟨(), accepted.1, accepted.2⟩

def timedCoins (workspace : W) : SegmentLedger :=
  fun outpoint => (coins workspace outpoint).map fun coin =>
    ⟨coin, previousMedianTimePast workspace outpoint coin.height⟩

/-- The batch view of the accepted-tip path on the coins and times of a workspace. -/
def acceptedTipView (workspace : W) : SegmentSpendBatchView :=
  segmentSpendBatchViewAdapter (fun outpoints => outpoints.map (coins workspace))
    (previousMedianTimePast workspace)

theorem answersFrom_acceptedTipView (ws : W) :
    AnswersFrom (timedCoins ws) (acceptedTipView ws) := by
  intro points
  have answersEq : (points.zip (points.map (coins ws))).map
      (fun entry => entry.2.map fun coin => (⟨coin, previousMedianTimePast ws
        entry.1 coin.height⟩ : SegmentCoinSnapshot)) = points.map (timedCoins ws) := by
    induction points with
    | nil => rfl
    | cons point points ih => rw [List.map_cons, List.zip_cons_cons, List.map_cons, ih]; rfl
  simp [acceptedTipView, segmentSpendBatchViewAdapter, assertThat, answersEq]

end Paths

/-- A block passes the ordinary path exactly when it passes the accepted-tip path and
none of its outputs is unspent, with the same effects. -/
theorem connectPreparedSpend_iff_prepareAcceptedTipSpend {W : Type} [SpendWorkspace W]
    [LawfulSpendWorkspace W] {hashPair : Uint256 → Uint256 → Uint256}
    {source : CBlock × SegmentBlockContext} {structuralOptions : BlockStructuralConsensusOptions}
    (structural : validateBlockStructuralStage hashPair source.1 structuralOptions = .ok ())
    (distinct : DistinctTxids source.1.vtx)
    (checkOn : source.2.spendOptions.checkNoUnspentOutputOverwrite = true) {workspace : W}
    (valid : Valid workspace)
    (admits : AdmitsHeight W source.2.height)
    (newTime : ∀ outpoint, coins workspace outpoint = none →
      SpendWorkspace.previousMedianTimePast workspace outpoint source.2.height =
        source.2.previousMedianTimePast)
    (scriptChecker : BlockScriptChecker) (effects : BlockSpendEffects) :
    connectPreparedSpend (CBlock.segmentView source) workspace scriptChecker = .ok effects ↔
      NoUnspentOutput (coins workspace) source.1.vtx ∧
        prepareAcceptedTipSpend (CBlock.segmentView source) (acceptedTipView workspace)
          scriptChecker = .ok effects := by
  have structurallyValid := structurallyValid_of_stage structural
  have shows : ShowsLedger (timedCoins workspace) (segmentView source).context workspace := by
    refine ⟨valid, admits, ?_, ?_, ?_⟩
    · funext outpoint
      simp [timedCoins, Ledger.mapValues, Option.map_map, Function.comp_def]
    · intro outpoint coin held
      obtain ⟨found, -, rfl⟩ := Option.map_eq_some_iff.mp held
      rfl
    · intro outpoint absent
      exact newTime outpoint (Option.map_eq_none_iff.mp absent)
  have stagedIff : ∀ found : BlockSpendEffects, (do
      let staged ← validateAndStageBlockTransactions (segmentView source).transactions
        workspace scriptChecker (segmentView source).context.consensus.spend
        (segmentView source).context.spendOptions
      pure staged.1) = Except.ok found ↔
      ∃ staged, validateAndStageBlockTransactions (segmentView source).transactions
        workspace scriptChecker (segmentView source).context.consensus.spend
        (segmentView source).context.spendOptions = .ok (found, staged) := by
    intro found
    rw [bind_eq_ok]
    constructor
    · rintro ⟨⟨staged, after⟩, accepted, returned⟩
      cases returned
      exact ⟨after, accepted⟩
    · rintro ⟨after, accepted⟩
      exact ⟨(found, after), accepted, rfl⟩
  rw [connectPreparedSpend, completeSpendStage_eq_ok, stagedIff, ← and_assoc,
    shows.spendStage_iff structurallyValid distinct checkOn,
    prepareAcceptedTipSpend_eq_ok (answersFrom_acceptedTipView workspace) structurallyValid]
  constructor
  · rintro ⟨⟨unspent, rows, stage, grid, evaluates, submitted, rfl⟩, completed⟩
    refine ⟨unspent, rows, stage, grid, evaluates, ?_, rfl⟩
    exact (completeCoreBlockScriptChecks_eq_ok structurallyValid.checked (fun input mem =>
      shows.timesAgree structurallyValid.checked (shows.free unspent) grid mem) evaluates).mpr
      ⟨submitted, completed⟩
  · rintro ⟨unspent, rows, stage, grid, evaluates, completed, rfl⟩
    have scripts := (completeCoreBlockScriptChecks_eq_ok structurallyValid.checked
      (fun input mem => shows.timesAgree structurallyValid.checked (shows.free unspent) grid mem)
      evaluates).mp completed
    exact ⟨⟨unspent, rows, stage, grid, evaluates, scripts.1, rfl⟩, scripts.2⟩

/-- The sample coinbase at height 5, with a subsidy that covers it. -/
def sampleCoinbaseSource : CBlock × SegmentBlockContext :=
  (CBlock.ofCoinbase 0 sampleCoinbase, ⟨1, 0, 5, 0, ⟨0, 0, true⟩, 5000000000⟩)

/-- A coinbase whose output is still unspent passes the accepted-tip path, and the ordinary
path rejects it. -/
theorem sampleOverwritten_acceptedTip_only :
    validateBlockStructuralStage (fun _ _ => 0) sampleCoinbaseSource.1 ⟨true⟩ = .ok () ∧
      DistinctTxids sampleCoinbaseSource.1.vtx ∧
      sampleCoinbaseSource.2.spendOptions.checkNoUnspentOutputOverwrite = true ∧
      (∃ effects, prepareAcceptedTipSpend (CBlock.segmentView sampleCoinbaseSource)
        (acceptedTipView (sampleOverwritten.beginBlockSpend ⟨5, 0⟩))
        BlockScriptChecker.skipping = .ok effects) ∧
      ¬ ∃ effects, connectPreparedSpend (CBlock.segmentView sampleCoinbaseSource)
        (sampleOverwritten.beginBlockSpend ⟨5, 0⟩)
        BlockScriptChecker.skipping = .ok effects := by
  refine ⟨sampleCoinbase_accepted _ _ _, sampleCoinbase_distinct, rfl, ⟨_, rfl⟩, ?_⟩
  rintro ⟨effects, accepted⟩
  cases accepted

theorem connectPreparedSpend_iff_prepareAcceptedTipSpend_sampleSpend :
    ∃ effects, connectPreparedSpend (CBlock.segmentView sampleSource)
        (sampleFunded.beginBlockSpend ⟨5, 0⟩) BlockScriptChecker.accepting = .ok effects := by
  have valid : Valid (sampleFunded.beginBlockSpend ⟨5, 0⟩) :=
    trivial
  have newTime : ∀ outpoint, coins (sampleFunded.beginBlockSpend ⟨5, 0⟩) outpoint = none →
      previousMedianTimePast (sampleFunded.beginBlockSpend ⟨5, 0⟩) outpoint 5 = 0 := by
    intro outpoint absent
    change (sampleFunded.timeOf outpoint).getD 0 = 0
    rw [timeOf_of_absent sampleFunded _ absent, Option.getD_none]
  exact ⟨_, (connectPreparedSpend_iff_prepareAcceptedTipSpend
    sampleSpendBlock_accepted sampleSpendBlock_distinct rfl valid trivial newTime
    BlockScriptChecker.accepting _).mpr ⟨sampleFunded_free, rfl⟩⟩

end Champy
