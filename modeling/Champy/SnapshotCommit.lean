import Champy.BlockStaging
import Champy.OneByOneSpend
import Champy.SnapshotSpendLaws

/-!
# Committing what was staged

The effects of a block are a log: the coins that each transaction spent and created.
`CommitSpendState` replays the log on the state from which the workspace began, and
compares each spent coin.  The coins in the log come from the join, and not from the
staged view.  They are the same, since a coin that is there can only leave it by being
spent, and the join lets nothing be spent twice.
-/

namespace Champy

open List TransactionCoinEffects Ledger CreatedCoinEffect

/-! ## What staging did -/

/-- The effects of transactions whose coins are known. -/
def blockCoinEffects (height : Int32) (inputs : List (CTransaction × List CoinSnapshot)) :
    List TransactionCoinEffects :=
  inputs.map fun input => transactionCoinEffects height input.1 input.2

namespace SnapshotSpendState

section Staged

variable {spending : BlockSpendContext} {options : BlockSpendConsensusOptions}
  {collection : ScriptCheckPlanCollection} {stage : BlockSpendStageResult}
  {workspace : SnapshotSpendWorkspace} {result : BlockSpendStageResult × SnapshotSpendWorkspace}

theorem checkNoCoins_snapshot {points : List COutPoint} {checked : SnapshotSpendWorkspace}
    (passed : checkNoCoins points workspace = .ok checked) : checked = workspace := by
  induction points with
  | nil =>
    cases passed
    rfl
  | cons point points ih =>
    rw [checkNoCoins] at passed
    split at passed
    · cases passed
    · exact ih passed

theorem stageTransaction_snapshot {tx : CTransaction} {values : List CoinSnapshot} {index : Nat}
    (staged : stageTransaction spending options collection (stage, workspace)
      ((tx, values), index) = .ok result) :
    (∃ taken, workspace.staged.ledger.apply (tx.transfer spending.blockHeight) =
        some (taken, result.2.staged.ledger)) ∧
      values.length = tx.spentOutpoints.length ∧
      result.1.effects.transactionEffects = stage.effects.transactionEffects ++
        [transactionCoinEffects spending.blockHeight tx values] ∧
      result.2 = ⟨workspace.staged.staging (transactionCoinEffects spending.blockHeight tx values),
        workspace.previousMedianTimePast⟩ := by
  obtain ⟨⟨next, effects⟩, added, stagedEffects⟩ := Exec.bind_eq_ok.mp staged
  obtain ⟨after, stagedOne, returned⟩ := Exec.bind_eq_ok.mp stagedEffects
  obtain ⟨state, stagedState, afterEq⟩ := Exec.bind_eq_ok.mp stagedOne
  obtain ⟨eval, evaluation, rfl, rfl⟩ := addTransactionToStage_eq_ok.mp added
  obtain ⟨lengths, effectsEq⟩ := evaluateTransactionSpendForBlock_effects evaluation
  cases returned
  cases afterEq
  change workspace.staged.stageEffects eval.coinEffects = .ok state at stagedState
  rw [effectsEq] at stagedState
  obtain ⟨⟨taken, rest, applied⟩, rfl⟩ := stageEffects_eq_ok.mp stagedState
  refine ⟨⟨taken, ?_⟩, lengths, ?_, rfl⟩
  · rw [← transactionCoinEffects_transfer lengths]
    rw [ledger_staging applied]
    exact applied
  · change _ ++ [eval.coinEffects] = _
    rw [effectsEq]

theorem stageTransactions_snapshot {inputs : List (CTransaction × List CoinSnapshot)} {start : Nat}
    (staged : (inputs.zipIdx start).foldlM (stageTransaction spending options collection)
      (stage, workspace) = .ok result) :
    (∃ taken, workspace.staged.ledger.run
        (blockTransfers (inputs.map Prod.fst) spending.blockHeight) =
          some (taken, result.2.staged.ledger)) ∧
      (∀ input ∈ inputs, input.2.length = input.1.spentOutpoints.length) ∧
      result.1.effects.transactionEffects = stage.effects.transactionEffects ++
        blockCoinEffects spending.blockHeight inputs ∧
      result.2 = ⟨(blockCoinEffects spending.blockHeight inputs).foldl staging
        workspace.staged, workspace.previousMedianTimePast⟩ := by
  induction inputs generalizing stage workspace start with
  | nil =>
    cases staged
    refine ⟨⟨[], rfl⟩, ?_, (append_nil _).symm, rfl⟩
    intro input mem
    cases mem
  | cons input inputs ih =>
    rw [zipIdx_cons, foldlM_cons, Exec.bind_eq_ok] at staged
    obtain ⟨⟨next, middle⟩, first, rest⟩ := staged
    obtain ⟨⟨taken, applied⟩, lengths, effectsEq, middleEq⟩ := stageTransaction_snapshot first
    obtain ⟨⟨later, ran⟩, lengthsRest, effectsRest, afterEq⟩ := ih rest
    refine ⟨⟨taken :: later, ?_⟩, ?_, ?_, ?_⟩
    · exact run_cons_eq_some.mpr ⟨taken, _, later, applied, ran, rfl⟩
    · rw [forall_mem_cons]
      exact ⟨lengths, lengthsRest⟩
    · rw [effectsRest, effectsEq, append_assoc, singleton_append]
      rfl
    · rw [afterEq, show middle = _ from middleEq]
      rfl

end Staged

/-! ## The log replayed -/

section Replay

variable {context : BlockCommitContext} {created : List COutPoint}
  {committed staged : SnapshotSpendState}

/-- A committed state with the coins of a staged one.  Its times are those that the staged view
shows, and the coins that the block created have the time of the block. -/
structure Mirrors (previousMedianTimePast : Int64) (created : List COutPoint)
    (committed staged : SnapshotSpendState) : Prop where
  ledger_eq : committed.ledger = staged.ledger
  times_eq : ∀ outpoint, (committed.timeOf outpoint).getD previousMedianTimePast =
    (staged.timeOf outpoint).getD previousMedianTimePast
  created_time : ∀ outpoint ∈ created, committed.ledger outpoint ≠ none →
    committed.timeOf outpoint = some previousMedianTimePast

theorem mirrors_self (previousMedianTimePast : Int64) (state : SnapshotSpendState) :
    Mirrors previousMedianTimePast [] state state := by
  refine ⟨rfl, fun _ => rfl, ?_⟩
  intro point mem
  cases mem

theorem timeOf_committing (context : BlockCommitContext) (state : SnapshotSpendState)
    (effects : TransactionCoinEffects) (point : COutPoint) :
    (state.committing context effects).timeOf point =
      if point ∈ effects.transfer.createdKeys then some context.previousMedianTimePast
      else without state.timeOf effects.spentOutpoints point := by
  have writes : ∀ (creates : List CreatedCoinEffect) (start : SnapshotSpendState),
      (creates.foldl (fun state create =>
        state.addTimedCoin create.outpoint create.coin context.previousMedianTimePast)
          start).timeOf point =
        if point ∈ creates.map outpoint then
          some context.previousMedianTimePast
        else start.timeOf point := by
    intro creates
    induction creates with
    | nil => simp
    | cons create creates ih =>
      intro start
      rw [foldl_cons, ih, timeOf_addTimedCoin, map_cons]
      by_cases later : point ∈ creates.map outpoint
      · rw [if_pos later, if_pos (mem_cons_of_mem _ later)]
      · rw [if_neg later, Function.update_apply]
        by_cases same : point = create.outpoint
        · rw [if_pos same, if_pos (same ▸ mem_cons_self)]
        · rw [if_neg same, if_neg (not_mem_cons_of_ne_of_not_mem same later)]
  have keys : effects.transfer.createdKeys = effects.creates.map outpoint := by
    rw [Transfer.createdKeys, transfer, map_map]
    rfl
  rw [committing, writes, timeOf_eraseCoins, keys]

theorem Mirrors.next {effects : TransactionCoinEffects} {values : List CoinSnapshot}
    {rest : CoinLedger}
    (mirrors : Mirrors context.previousMedianTimePast created committed staged)
    (applied : staged.ledger.apply effects.transfer = some (values, rest)) :
    Mirrors context.previousMedianTimePast (created ++ effects.transfer.createdKeys)
      (committed.committing context effects) (staged.staging effects) := by
  have appliedBefore := applied
  rw [← mirrors.ledger_eq] at appliedBefore
  obtain ⟨-, -, -, free, restEq⟩ := apply_eq_some.mp applied
  refine ⟨?_, ?_, ?_⟩
  · rw [ledger_committing appliedBefore, ledger_staging applied]
  · intro point
    rw [timeOf_committing, timeOf_staging]
    by_cases creates : point ∈ effects.transfer.createdKeys
    · -- The staged view has no time for it, and shows that of the block.
      have absent : without staged.ledger effects.spentOutpoints point = none := free point creates
      have noTime : without staged.timeOf effects.spentOutpoints point = none := by
        by_cases spent : point ∈ effects.spentOutpoints
        · exact if_pos spent
        · rw [without, if_neg spent]
          rw [without, if_neg spent] at absent
          exact staged.timeOf_of_absent point absent
      rw [if_pos creates, noTime]
      rfl
    · rw [if_neg creates]
      by_cases spent : point ∈ effects.spentOutpoints
      · rw [without, without, if_pos spent, if_pos spent]
      · rw [without, without, if_neg spent, if_neg spent]
        exact mirrors.times_eq point
  · intro point mem held
    rw [timeOf_committing]
    by_cases creates : point ∈ effects.transfer.createdKeys
    · exact if_pos creates
    · rw [if_neg creates]
      rw [ledger_committing appliedBefore, restEq, adding_of_notMem creates] at held
      have notSpent : point ∉ effects.spentOutpoints := by
        intro spent
        exact held (if_pos spent)
      rw [transfer, without, if_neg notSpent, ← mirrors.ledger_eq] at held
      rw [without, if_neg notSpent]
      exact mirrors.created_time point ((mem_append.mp mem).resolve_right creates) held

/-- The whole log: it is replayed without an error if its coins are those that its transfers
take. -/
theorem Mirrors.run {log : List TransactionCoinEffects} {final : CoinLedger}
    (mirrors : Mirrors context.previousMedianTimePast created committed staged)
    (ran : staged.ledger.run (log.map transfer) =
      some (log.map fun effects => effects.spends.map SpentCoinEffect.coin, final))
    (heights : ∀ effects ∈ log, ∀ create ∈ effects.creates,
      create.coin.height = context.blockHeight) :
    ∃ result, log.foldlM (commitTransaction context) committed = .ok result ∧
      Mirrors context.previousMedianTimePast
        (created ++ log.flatMap fun effects => effects.transfer.createdKeys) result
        (log.foldl staging staged) := by
  induction log generalizing created committed staged with
  | nil =>
    refine ⟨committed, rfl, ?_⟩
    rw [flatMap_nil, append_nil]
    exact mirrors
  | cons effects log ih =>
    rw [forall_mem_cons] at heights
    obtain ⟨values, middle, later, applied, rests, taken⟩ := run_cons_eq_some.mp ran
    obtain ⟨rfl, rfl⟩ := cons.inj taken
    have appliedBefore := applied
    rw [← mirrors.ledger_eq] at appliedBefore
    have first : committed.commitTransaction context effects =
        .ok (committed.committing context effects) :=
      commitTransaction_eq_ok.mpr ⟨⟨middle, appliedBefore⟩, heights.1, rfl⟩
    rw [← ledger_staging applied] at rests
    obtain ⟨result, committedRest, mirrorsRest⟩ := ih (mirrors.next applied) rests heights.2
    refine ⟨result, ?_, ?_⟩
    · rw [foldlM_cons, first]
      exact committedRest
    · rw [flatMap_cons, ← append_assoc]
      exact mirrorsRest

end Replay

/-! ## Accepted blocks -/

section Accepted

variable {transactions : List CTransaction} {state : SnapshotSpendState}
  {spending : BlockSpendContext} {options : BlockSpendConsensusOptions}

section Log

variable {height : Int32} {found : List (List CoinSnapshot)}
  (sameLength : found.length = transactions.length)
  (lengths : ∀ input ∈ transactions.zip found, input.2.length = input.1.spentOutpoints.length)

include sameLength lengths

theorem map_transfer_blockCoinEffects :
    (blockCoinEffects height (transactions.zip found)).map transfer =
      blockTransfers transactions height := by
  have transactionsEq : (transactions.zip found).map Prod.fst = transactions :=
    map_fst_zip (Nat.le_of_eq sameLength.symm)
  conv_rhs => rw [← transactionsEq]
  rw [blockCoinEffects, blockTransfers, map_map, map_map]
  apply map_congr_left
  intro input mem
  exact transactionCoinEffects_transfer (lengths input mem)

theorem map_coin_blockCoinEffects :
    ((blockCoinEffects height (transactions.zip found)).map fun effects =>
      effects.spends.map SpentCoinEffect.coin) = found := by
  have foundEq : (transactions.zip found).map Prod.snd = found :=
    map_snd_zip (Nat.le_of_eq sameLength)
  conv_rhs => rw [← foundEq]
  rw [blockCoinEffects, map_map]
  apply map_congr_left
  intro input mem
  change (spentCoinEffects input.1 input.2).map SpentCoinEffect.coin = input.2
  rw [spentCoinEffects, map_map]
  exact map_snd_zip (Nat.le_of_eq (lengths input mem))

end Log

variable {collection : ScriptCheckPlanCollection} {stage : BlockSpendStageResult}
  {after : SnapshotSpendWorkspace}

/-- An accepted block runs on the ledger, and its log has the coins that the run takes. -/
theorem validateAndStageWithPlans_snapshot (structural : StructurallyValid transactions)
    (ok : validateAndStageWithPlans (joinBlockSpentOutputs getCoins) transactions
      (state.beginBlockSpend spending) spending options collection = .ok (stage, after)) :
    ∃ found final, state.ledger.run (blockTransfers transactions spending.blockHeight) =
        some (found, final) ∧
      found.length = transactions.length ∧
      (∀ input ∈ transactions.zip found, input.2.length = input.1.spentOutpoints.length) ∧
      stage.effects.transactionEffects =
        blockCoinEffects spending.blockHeight (transactions.zip found) ∧
      after = ⟨(blockCoinEffects spending.blockHeight (transactions.zip found)).foldl staging state,
        spending.previousMedianTimePast⟩ := by
  obtain ⟨checked, joined, looked, checks, joins, rounds⟩ :=
    (validateAndStageWithPlans_iff structural).mp ok
  -- The overwrite check and the lookups of the join leave the workspace alone.
  obtain rfl : checked = state.beginBlockSpend spending := by
    split at checks
    · exact checkNoCoins_snapshot checks
    · cases checks
      rfl
  have valid : LawfulSpendWorkspace.Valid (state.beginBlockSpend spending) := trivial
  obtain ⟨found, nodup, allFound, rfl, lookedEq⟩ := (joinBlockSpentOutputs_complete_iff
    fun points => (LawfulSpendWorkspace.getCoins_spec valid points).1).mp joins
  rw [getCoins_eq] at lookedEq
  subst lookedEq
  obtain ⟨⟨taken, ran⟩, lengths, effectsEq, afterEq⟩ := stageTransactions_snapshot rounds
  have sameLength := joinedCoins_length allFound
  rw [map_fst_zip (Nat.le_of_eq sameLength.symm)] at ran
  obtain ⟨final, ranFound⟩ := joinedCoins_run structural nodup allFound
    (overwritesNothing_of_run ran)
  exact ⟨found, final, ranFound, sameLength, lengths, effectsEq, afterEq⟩

/-- The effects of an accepted block are a log that the state replays, up to the staged view. -/
theorem commitSpendState_mirrors (structural : StructurallyValid transactions)
    (newBestBlock : Uint256)
    (ok : validateAndStageWithPlans (joinBlockSpentOutputs getCoins) transactions
      (state.beginBlockSpend spending) spending options collection = .ok (stage, after)) :
    ∃ committed, state.commitSpendState
        ⟨newBestBlock, spending.blockHeight, spending.previousMedianTimePast⟩
        stage.effects = .ok committed ∧
      after.previousMedianTimePast = spending.previousMedianTimePast ∧
      Mirrors spending.previousMedianTimePast
        (stage.effects.transactionEffects.flatMap fun effects => effects.transfer.createdKeys)
        committed after.staged := by
  obtain ⟨found, final, ran, sameLength, lengths, effectsEq, rfl⟩ :=
    validateAndStageWithPlans_snapshot structural ok
  rw [← map_coin_blockCoinEffects sameLength lengths,
    ← map_transfer_blockCoinEffects sameLength lengths] at ran
  have heights : ∀ effects ∈ blockCoinEffects spending.blockHeight (transactions.zip found),
      ∀ create ∈ effects.creates, create.coin.height = spending.blockHeight := by
    intro effects mem create createMem
    obtain ⟨input, inputMem, rfl⟩ := mem_map.mp mem
    exact (mem_createdCoinEffects (structural.checked input.1 (of_mem_zip inputMem).1) createMem).1
  obtain ⟨committed, commits, mirrors⟩ := @Mirrors.run
    ⟨newBestBlock, spending.blockHeight, spending.previousMedianTimePast⟩ _ _ _ _ _
    (mirrors_self spending.previousMedianTimePast state) ran heights
  rw [commitSpendState, effectsEq]
  exact ⟨committed, commits, rfl, mirrors⟩

end Accepted

/-! ## The commit in place -/

/-- `CommitSpendState` as it runs: the two members, and the copies of them that it works on. -/
structure CommitFrame where
  members : SnapshotSpendState
  committed : SnapshotSpendState

/-- Steps that change the frame and may return early. -/
abbrev CommitM (α : Type) : Type := ExceptT (Failure BlockCommitError) (StateM CommitFrame) α

/-- A round of a loop, which changes the copies. -/
def commitRound (round : SnapshotSpendState → BlockCommitResult SnapshotSpendState) :
    CommitM Unit :=
  fun frame =>
    match round frame.committed with
    | .ok next => (.ok (), { frame with committed := next })
    | .error failure => (.error failure, frame)

/-- The loops over a list of effects. -/
def commitRounds (context : BlockCommitContext) : List TransactionCoinEffects → CommitM Unit
  | [] => pure ()
  | effects :: log => do
      effects.spends.forM fun spend => commitRound fun state => state.commitSpend spend
      effects.creates.forM fun create => commitRound fun state => state.commitCreate context create
      commitRounds context log

/-- The loops, and the members assigned after them. -/
def commitFrame (context : BlockCommitContext) (effects : BlockSpendEffects) : CommitM Unit := do
  commitRounds context effects.transactionEffects
  modify fun frame => { frame with members := frame.committed }

/-- `CommitSpendState` with what it leaves in the members, also when it fails. -/
def commitInPlace (state : SnapshotSpendState) (context : BlockCommitContext)
    (effects : BlockSpendEffects) : BlockCommitResult Unit × SnapshotSpendState :=
  ((commitFrame context effects ⟨state, state⟩).1,
    (commitFrame context effects ⟨state, state⟩).2.members)

section InPlace

variable {step next : CommitM Unit}
  {round after : SnapshotSpendState → BlockCommitResult SnapshotSpendState}

/-- Steps that leave the members alone, and change the copies as a function that may fail. -/
structure Tracks (step : CommitM Unit)
    (round : SnapshotSpendState → BlockCommitResult SnapshotSpendState) : Prop where
  members_eq : ∀ frame, (step frame).2.members = frame.members
  ok : ∀ frame copies, round frame.committed = .ok copies →
    step frame = (.ok (), ⟨frame.members, copies⟩)

theorem tracks_commitRound (round : SnapshotSpendState → BlockCommitResult SnapshotSpendState) :
    Tracks (commitRound round) round := by
  constructor
  · intro frame
    unfold commitRound
    split <;> rfl
  · intro frame copies returned
    simp only [commitRound, returned]

theorem tracks_pure : Tracks (pure ()) pure := by
  refine ⟨fun _ => rfl, ?_⟩
  intro frame copies returned
  cases returned
  rfl

theorem commitM_seq (step next : CommitM Unit) (frame : CommitFrame) :
    (do step; next : CommitM Unit) frame =
      ExceptT.bindCont (fun _ => next) (step frame).1 (step frame).2 :=
  rfl

theorem Tracks.bind (first : Tracks step round) (second : Tracks next after) :
    Tracks (do step; next) (fun state => round state >>= after) := by
  constructor
  · intro frame
    have kept := first.members_eq frame
    rw [commitM_seq]
    cases returned : (step frame).1 with
    | error failure => exact kept
    | ok done => exact (second.members_eq (step frame).2).trans kept
  · intro frame copies returned
    obtain ⟨middle, roundEq, afterEq⟩ := Exec.bind_eq_ok.mp returned
    rw [commitM_seq, first.ok frame middle roundEq]
    exact second.ok _ _ afterEq

theorem tracks_forM {α : Type} {steps : α → CommitM Unit}
    {rounds : SnapshotSpendState → α → BlockCommitResult SnapshotSpendState}
    (tracks : ∀ item, Tracks (steps item) fun state => rounds state item) (items : List α) :
    Tracks (items.forM steps) (items.foldlM rounds) := by
  induction items with
  | nil => exact tracks_pure
  | cons item items ih => exact (tracks item).bind ih

theorem tracks_commitRounds (context : BlockCommitContext) (log : List TransactionCoinEffects) :
    Tracks (commitRounds context log) (log.foldlM (commitTransaction context)) := by
  induction log with
  | nil => exact tracks_pure
  | cons effects log ih =>
    have spends := tracks_forM (fun spend => tracks_commitRound fun state =>
      state.commitSpend spend) effects.spends
    have creates := tracks_forM (fun create => tracks_commitRound fun state =>
      state.commitCreate context create) effects.creates
    have rounds : (effects :: log).foldlM (commitTransaction context) = fun state =>
        effects.spends.foldlM commitSpend state >>= fun spent =>
          effects.creates.foldlM (commitCreate context) spent >>=
            log.foldlM (commitTransaction context) := by
      funext state
      rw [foldlM_cons, commitTransaction, bind_assoc]
    rw [rounds]
    exact spends.bind (creates.bind ih)

variable {context : BlockCommitContext} {effects : BlockSpendEffects}

/-- The members take the copies over when no round failed. -/
theorem commitInPlace_of_ok {state committed : SnapshotSpendState}
    (commits : state.commitSpendState context effects = .ok committed) :
    state.commitInPlace context effects = (.ok (), committed) := by
  have ran := (tracks_commitRounds context effects.transactionEffects).ok ⟨state, state⟩ committed
    commits
  rw [commitInPlace, commitFrame, commitM_seq, ran]
  rfl

theorem commitInPlace_members {state after : SnapshotSpendState}
    {failure : Failure BlockCommitError}
    (failed : state.commitInPlace context effects = (.error failure, after)) : after = state := by
  have kept := (tracks_commitRounds context effects.transactionEffects).members_eq ⟨state, state⟩
  rw [commitInPlace, commitFrame, commitM_seq] at failed
  cases returned : (commitRounds context effects.transactionEffects ⟨state, state⟩).1 with
  | error early =>
    rw [returned] at failed
    cases failed
    exact kept
  | ok done =>
    rw [returned] at failed
    cases failed

end InPlace

/-- The effects of a block that was accepted on a workspace of a state commit on that state, and
leave the coins of the staged view, with the times that it shows and that of the block for new
coins.  A commit that fails leaves the state as it was. -/
theorem commitInPlace_agrees_and_atomic :
    (∀ (hashPair : Uint256 → Uint256 → Uint256) (block : CBlock)
      (structuralOptions : BlockStructuralConsensusOptions) (state : SnapshotSpendState)
      (scriptChecker : BlockScriptChecker) (spendContext : BlockSpendContext)
      (options : BlockSpendConsensusOptions) (effects : BlockSpendEffects)
      (after : SnapshotSpendWorkspace) (newBestBlock : Uint256),
      validateBlockStructuralStage hashPair block structuralOptions = .ok () →
      validateAndStageBlockTransactions block.vtx (state.beginBlockSpend spendContext)
        scriptChecker spendContext options = .ok (effects, after) →
      ∃ committed, state.commitInPlace
          ⟨newBestBlock, spendContext.blockHeight, spendContext.previousMedianTimePast⟩ effects =
            (.ok (), committed) ∧
        (∀ outpoint, committed.coins.lookup outpoint =
          (SpendLookupBackend.getCoin after outpoint).1) ∧
        (∀ outpoint coinHeight, (committed.times.lookup outpoint).getD
            spendContext.previousMedianTimePast =
          SpendWorkspace.previousMedianTimePast after outpoint coinHeight) ∧
        ∀ transaction ∈ effects.transactionEffects, ∀ create ∈ transaction.creates,
          committed.coins.lookup create.outpoint ≠ none →
            committed.times.lookup create.outpoint = some spendContext.previousMedianTimePast) ∧
      ∀ (state after : SnapshotSpendState) (context : BlockCommitContext)
        (effects : BlockSpendEffects) (failure : Failure BlockCommitError),
        state.commitInPlace context effects = (.error failure, after) → after = state := by
  refine ⟨?_, fun _ _ _ _ _ => commitInPlace_members⟩
  intro hashPair block structuralOptions state scriptChecker spendContext options effects after
    newBestBlock structural accepted
  obtain ⟨stage, staged, -, rfl⟩ := validateAndStageBlockTransactions_iff.mp accepted
  obtain ⟨committed, commits, timeEq, mirrors⟩ :=
    commitSpendState_mirrors (structurallyValid_of_stage structural) newBestBlock staged
  refine ⟨committed, commitInPlace_of_ok commits, ?_, ?_, ?_⟩
  · intro outpoint
    exact congrFun mirrors.ledger_eq outpoint
  · intro outpoint coinHeight
    change _ = (after.staged.times.lookup outpoint).getD after.previousMedianTimePast
    rw [timeEq]
    exact mirrors.times_eq outpoint
  · intro transaction mem create createMem held
    apply mirrors.created_time create.outpoint _ held
    apply mem_flatMap.mpr
    refine ⟨transaction, mem, ?_⟩
    rw [Transfer.createdKeys, transfer, map_map]
    exact mem_map_of_mem createMem

/-- A log that takes the funded coin, and then the same coin again. -/
def sampleDoubleLog : BlockSpendEffects :=
  let spend : TransactionCoinEffects := ⟨[⟨⟨9, 0⟩, ⟨⟨10, [0x51]⟩, 1, false⟩⟩], []⟩
  ⟨[spend, spend], 0, 0, 0⟩

/-- The sample block on the funded snapshot, and a log that fails after a first effect. -/
theorem commitInPlace_agrees_and_atomic_sampleSpend : (∃ effects after committed,
      validateAndStageBlockTransactions sampleSpendBlock.vtx (sampleFunded.beginBlockSpend ⟨5, 0⟩)
          BlockScriptChecker.accepting ⟨5, 0⟩ ⟨0, 0, true⟩ = .ok (effects, after) ∧
      sampleFunded.commitInPlace ⟨1, 5, 0⟩ effects = (.ok (), committed) ∧
      ∀ outpoint, committed.coins.lookup outpoint = (SpendLookupBackend.getCoin after outpoint).1) ∧
    (sampleFunded.commitTransaction ⟨1, 5, 0⟩ ⟨[⟨⟨9, 0⟩, ⟨⟨10, [0x51]⟩, 1, false⟩⟩], []⟩).isOk ∧
    ∃ failure after, sampleFunded.commitInPlace ⟨1, 5, 0⟩ sampleDoubleLog =
      (.error failure, after) ∧ after = sampleFunded := by
  obtain ⟨agrees, atomic⟩ := commitInPlace_agrees_and_atomic
  obtain ⟨effects, after, stages⟩ : ∃ effects after,
      validateAndStageBlockTransactions sampleSpendBlock.vtx (sampleFunded.beginBlockSpend ⟨5, 0⟩)
          BlockScriptChecker.accepting ⟨5, 0⟩ ⟨0, 0, true⟩ = .ok (effects, after) := ⟨_, _, rfl⟩
  obtain ⟨committed, commits, coins, -, -⟩ := agrees _ _ _ sampleFunded _ _ _ effects after 1
    sampleSpendBlock_accepted stages
  refine ⟨⟨effects, after, committed, stages, commits, coins⟩, rfl, ?_⟩
  obtain ⟨failure, left, failed⟩ : ∃ failure after,
      sampleFunded.commitInPlace ⟨1, 5, 0⟩ sampleDoubleLog = (.error failure, after) :=
    ⟨_, _, rfl⟩
  exact ⟨failure, left, failed, atomic _ _ _ _ _ failed⟩

end SnapshotSpendState

end Champy
