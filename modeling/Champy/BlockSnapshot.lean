import Champy.BlockEvaluation
import Champy.RelatedRuns
import Champy.SnapshotSpendLaws

/-!
# The snapshot for one block

`SnapshotCoreBlockConnectionState` copies only some coins to a snapshot state: those
that the plan of the block looks up, and those at outputs of the block.  Validation of
the block reads no other coin and no other time, so it cannot tell such a snapshot from
one with all coins.
-/

namespace Champy

open List Function Exec SnapshotSpendState

/-- `SnapshotOutpointsForBlock`, as the set in the order of insertion. -/
def snapshotOutpointsForBlock (transactions : List CTransaction) : List COutPoint :=
  let lookups := (planBlockSpentOutputLookups transactions).externalLookups.foldl
    (fun outpoints lookup => outpoints.insert lookup.outpoint) []
  transactions.foldl (fun outpoints tx =>
    tx.outputOutpoints.foldl (fun outpoints outpoint => outpoints.insert outpoint) outpoints) lookups

namespace SnapshotSpendState

/-- `AddSnapshotCoin`, for coins with times and coins without. -/
def addSnapshotCoin (full snapshot : SnapshotSpendState) (outpoint : COutPoint) :
    SnapshotSpendState :=
  match full.coins.lookup outpoint with
  | none => snapshot
  | some coin =>
    match full.times.lookup outpoint with
    | none => snapshot.addCoin outpoint coin
    | some time => snapshot.addTimedCoin outpoint coin time

/-- The coins and times at some outpoints. -/
def restrictTo (full : SnapshotSpendState) (outpoints : List COutPoint) : SnapshotSpendState :=
  outpoints.foldl full.addSnapshotCoin empty

end SnapshotSpendState

/-- `SnapshotCoreBlockConnectionState`: the coins of a view, with the times that a block
index gives them. -/
def snapshotCoreBlockConnectionState (transactions : List CTransaction)
    (getCoin : COutPoint → Option CoinSnapshot) (sequenceLockTimes : COutPoint → Int32 → Int64) :
    SnapshotSpendState :=
  (snapshotOutpointsForBlock transactions).foldl (fun snapshot outpoint =>
    match getCoin outpoint with
    | none => snapshot
    | some coin => snapshot.addTimedCoin outpoint coin (sequenceLockTimes outpoint coin.height))
    empty

/-! ## Which outpoints are there -/

variable {transactions : List CTransaction} {point : COutPoint}

theorem mem_foldl_insert {β : Type} (key : β → COutPoint) {entries : List β}
    {points : List COutPoint} :
    point ∈ entries.foldl (fun points entry => points.insert (key entry)) points ↔
      point ∈ points ∨ point ∈ entries.map key := by
  induction entries generalizing points with
  | nil => simp
  | cons entry entries ih =>
    rw [foldl_cons, ih, mem_insert_iff, map_cons, mem_cons]
    tauto

theorem map_outpoint_externalLookups (transactions : List CTransaction) :
    (planBlockSpentOutputLookups transactions).externalLookups.map
      BlockSpentOutputLookup.outpoint = externalOutpoints transactions := by
  rw [planBlockSpentOutputLookups, foldl_planLookup]
  rfl

theorem mem_snapshotOutpointsForBlock : point ∈ snapshotOutpointsForBlock transactions ↔
      point ∈ externalOutpoints transactions ∨ ∃ tx ∈ transactions, point ∈ tx.outputOutpoints := by
  have outputs : ∀ (transactions : List CTransaction) (points : List COutPoint),
      point ∈ transactions.foldl (fun points tx => tx.outputOutpoints.foldl
        (fun points point => points.insert point) points) points ↔
        point ∈ points ∨ ∃ tx ∈ transactions, point ∈ tx.outputOutpoints := by
    intro transactions
    induction transactions with
    | nil => simp
    | cons tx transactions ih =>
      intro points
      have inserted : point ∈ tx.outputOutpoints.foldl
          (fun points point => points.insert point) points ↔
            point ∈ points ∨ point ∈ tx.outputOutpoints.map id :=
        mem_foldl_insert id
      rw [foldl_cons, ih, inserted, map_id]
      simp only [mem_cons, exists_eq_or_imp, or_assoc]
  rw [snapshotOutpointsForBlock, outputs, mem_foldl_insert, map_outpoint_externalLookups]
  simp

theorem spentOutpoints_mem_snapshotOutpoints {tx : CTransaction} (txMem : tx ∈ transactions)
    (mem : point ∈ tx.spentOutpoints) : point ∈ snapshotOutpointsForBlock transactions := by
  rw [mem_snapshotOutpointsForBlock]
  have spent : point ∈ (extractBlockSpentOutputLookups transactions).map
      BlockSpentOutputLookup.outpoint := by
    rw [map_outpoint_extractBlockSpentOutputLookups]
    exact mem_flatMap.mpr ⟨tx, txMem, mem⟩
  obtain ⟨lookup, lookupMem, rfl⟩ := mem_map.mp spent
  cases created : (createdByTransaction transactions).lookup lookup.outpoint with
  | none =>
    left
    refine mem_map_of_mem (mem_filter.mpr ⟨lookupMem, ?_⟩)
    rw [isExternalLookup, created]
    rfl
  | some creator =>
    right
    rw [lookup_createdByTransaction] at created
    obtain ⟨bound, creates, -⟩ := findIdx?_eq_some_iff_getElem.mp created
    exact ⟨_, getElem_mem bound,
      CTransaction.outputOutpoints_of_spendable (of_decide_eq_true creates)⟩

theorem outputOutpoints_mem_snapshotOutpoints {tx : CTransaction} (txMem : tx ∈ transactions)
    (mem : point ∈ tx.outputOutpoints) : point ∈ snapshotOutpointsForBlock transactions :=
  mem_snapshotOutpointsForBlock.mpr (Or.inr ⟨tx, txMem, mem⟩)

/-! ## States that agree on some outpoints -/

namespace SnapshotSpendState

/-- The same coins and times at some outpoints. -/
structure AgreeOn (outpoints : List COutPoint) (first second : SnapshotSpendState) : Prop where
  ledger_eq : ∀ outpoint ∈ outpoints, first.ledger outpoint = second.ledger outpoint
  timeOf_eq : ∀ outpoint ∈ outpoints, first.timeOf outpoint = second.timeOf outpoint

section Agree

variable {points : List COutPoint} {first second : SnapshotSpendState}

section Agreeing

variable (agree : AgreeOn points first second)

include agree

theorem AgreeOn.eraseCoin (point : COutPoint) :
    AgreeOn points (first.eraseCoin point) (second.eraseCoin point) := by
  constructor
  · intro other mem
    rw [ledger_eraseCoin, ledger_eraseCoin, update_apply, update_apply, agree.ledger_eq other mem]
  · intro other mem
    rw [timeOf_eraseCoin, timeOf_eraseCoin, update_apply, update_apply, agree.timeOf_eq other mem]

theorem AgreeOn.insertCoin (point : COutPoint) (coin : CoinSnapshot) :
    AgreeOn points (first.insertCoin point coin) (second.insertCoin point coin) := by
  constructor
  · intro other mem
    rw [ledger_insertCoin, ledger_insertCoin, update_apply, update_apply, agree.ledger_eq other mem]
  · exact agree.timeOf_eq

theorem related_stageSpend {spend : SpentCoinEffect} (mem : spend.outpoint ∈ points) :
    Exec.Related (AgreeOn points) (first.stageSpend spend) (second.stageSpend spend) := by
  have same : first.coins.lookup spend.outpoint = second.coins.lookup spend.outpoint :=
    agree.ledger_eq _ mem
  unfold stageSpend
  rw [same]
  cases second.coins.lookup spend.outpoint with
  | none => exact rfl
  | some coin => exact agree.eraseCoin _

theorem related_stageCreate {create : CreatedCoinEffect} (mem : create.outpoint ∈ points) :
    Exec.Related (AgreeOn points) (first.stageCreate create) (second.stageCreate create) := by
  have same : first.coins.lookup create.outpoint = second.coins.lookup create.outpoint :=
    agree.ledger_eq _ mem
  unfold stageCreate
  rw [same]
  cases second.coins.lookup create.outpoint with
  | none => exact agree.insertCoin _ _
  | some coin => exact rfl

theorem related_stageEffects {effects : TransactionCoinEffects}
    (spends : ∀ spend ∈ effects.spends, spend.outpoint ∈ points)
    (creates : ∀ create ∈ effects.creates, create.outpoint ∈ points) :
    Exec.Related (AgreeOn points) (first.stageEffects effects) (second.stageEffects effects) := by
  apply Exec.Related.bind
  · exact related_foldlM (fun spend mem _ _ related =>
      related_stageSpend related (spends spend mem)) agree
  · intro spent spent' related
    exact related_foldlM (fun create mem _ _ related =>
      related_stageCreate related (creates create mem)) related

end Agreeing

theorem addSnapshotCoin_eq (full snapshot : SnapshotSpendState) (point : COutPoint) :
    (full.addSnapshotCoin snapshot point).ledger = (if full.ledger point = none then
        snapshot.ledger
      else Function.update snapshot.ledger point (full.ledger point)) ∧
    (full.addSnapshotCoin snapshot point).timeOf = (if full.ledger point = none then
        snapshot.timeOf
      else Function.update snapshot.timeOf point (full.timeOf point)) := by
  unfold addSnapshotCoin ledger timeOf
  cases held : full.coins.lookup point with
  | none => exact ⟨rfl, rfl⟩
  | some coin =>
    cases timed : full.times.lookup point with
    | none =>
      exact ⟨FinMap.lookup_insert_eq_update point coin snapshot.coins,
        FinMap.lookup_erase_eq_update point snapshot.times⟩
    | some time =>
      exact ⟨FinMap.lookup_insert_eq_update point coin snapshot.coins,
        FinMap.lookup_insert_eq_update point time snapshot.times⟩

/-- Whether a snapshot has what the full state has at an outpoint. -/
def Copied (full snapshot : SnapshotSpendState) (outpoint : COutPoint) : Prop :=
  snapshot.ledger outpoint = full.ledger outpoint ∧ snapshot.timeOf outpoint = full.timeOf outpoint

/-- Adding an outpoint copies it, if it was blank or copied, and loses no copy. -/
theorem copied_addSnapshotCoin {full snapshot : SnapshotSpendState} (point : COutPoint)
    {other : COutPoint}
    (before : snapshot.ledger other = none ∨ Copied full snapshot other) :
    ((full.addSnapshotCoin snapshot point).ledger other = none ∨
        Copied full (full.addSnapshotCoin snapshot point) other) ∧
      (other = point ∨ Copied full snapshot other →
        Copied full (full.addSnapshotCoin snapshot point) other) := by
  obtain ⟨ledgerEq, timeEq⟩ := full.addSnapshotCoin_eq snapshot point
  by_cases absent : full.ledger point = none
  · rw [if_pos absent] at ledgerEq timeEq
    rw [Copied, ledgerEq, timeEq]
    refine ⟨before, ?_⟩
    rintro (rfl | copied)
    · rcases before with blank | copied
      · rw [blank, absent, snapshot.timeOf_of_absent other blank, full.timeOf_of_absent other absent]
        exact ⟨rfl, rfl⟩
      · exact copied
    · exact copied
  · rw [if_neg absent] at ledgerEq timeEq
    rw [Copied, ledgerEq, timeEq]
    by_cases same : other = point
    · rw [same, update_self, update_self]
      exact ⟨Or.inr ⟨rfl, rfl⟩, fun _ => ⟨rfl, rfl⟩⟩
    · rw [update_of_ne same, update_of_ne same]
      exact ⟨before, fun cases => cases.resolve_left same⟩

theorem agreeOn_restrictTo (full : SnapshotSpendState) (points : List COutPoint) :
    AgreeOn points (full.restrictTo points) full := by
  have loop : ∀ (rest : List COutPoint) (snapshot : SnapshotSpendState) (point : COutPoint),
      (snapshot.ledger point = none ∨ Copied full snapshot point) →
      (point ∈ rest ∨ Copied full snapshot point) →
        Copied full (rest.foldl full.addSnapshotCoin snapshot) point := by
    intro rest
    induction rest with
    | nil => simp
    | cons next rest ih =>
      intro snapshot point before cases
      obtain ⟨after, copies⟩ := copied_addSnapshotCoin next before
      apply ih _ _ after
      rw [mem_cons] at cases
      tauto
  have copied : ∀ point ∈ points, Copied full (full.restrictTo points) point :=
    fun point mem => loop points empty point (Or.inl rfl) (Or.inl mem)
  exact ⟨fun point mem => (copied point mem).1, fun point mem => (copied point mem).2⟩

end Agree

/-- The snapshot of a view is the restriction of a state with all coins of the view. -/
theorem snapshotCoreBlockConnectionState_eq_restrictTo {transactions : List CTransaction}
    {getCoin : COutPoint → Option CoinSnapshot} {sequenceLockTimes : COutPoint → Int32 → Int64}
    {full : SnapshotSpendState} (coins : ∀ point, full.ledger point = getCoin point)
    (times : ∀ point, full.timeOf point =
      (getCoin point).map fun coin => sequenceLockTimes point coin.height) :
    snapshotCoreBlockConnectionState transactions getCoin sequenceLockTimes =
      full.restrictTo (snapshotOutpointsForBlock transactions) := by
  rw [snapshotCoreBlockConnectionState, restrictTo]
  congr 1
  funext snapshot point
  have coin : full.coins.lookup point = getCoin point := coins point
  have time : full.times.lookup point =
      (getCoin point).map fun coin => sequenceLockTimes point coin.height := times point
  rw [addSnapshotCoin, coin, time]
  cases getCoin point <;> rfl

end SnapshotSpendState

/-! ## Validation -/

/-- Workspaces with the same default time whose states agree on some outpoints. -/
def AgreeingWorkspaces (outpoints : List COutPoint) (first second : SnapshotSpendWorkspace) :
    Prop :=
  first.previousMedianTimePast = second.previousMedianTimePast ∧
    SnapshotSpendState.AgreeOn outpoints first.staged second.staged

/-- The same result, with workspaces that agree on the outpoints of the snapshot. -/
def AgreeingResults (transactions : List CTransaction)
    (first second : BlockSpendStageResult × SnapshotSpendWorkspace) : Prop :=
  first.1 = second.1 ∧ AgreeingWorkspaces (snapshotOutpointsForBlock transactions) first.2 second.2

section Validation

variable {points : List COutPoint} {first second : SnapshotSpendWorkspace}

theorem related_checkNoCoins (agree : AgreeingWorkspaces points first second)
    {looked : List COutPoint} (subset : ∀ point ∈ looked, point ∈ points) :
    Exec.Related (AgreeingWorkspaces points) (checkNoCoins looked first)
      (checkNoCoins looked second) := by
  induction looked with
  | nil => exact agree
  | cons point looked ih =>
    rw [forall_mem_cons] at subset
    have same : (first.staged.coins.lookup point).isSome =
        (second.staged.coins.lookup point).isSome :=
      congrArg Option.isSome (agree.2.ledger_eq point subset.1)
    rw [checkNoCoins, checkNoCoins]
    change Exec.Related _ (if (first.staged.coins.lookup point).isSome then _ else _)
      (if (second.staged.coins.lookup point).isSome then _ else _)
    rw [same]
    split
    · exact rfl
    · exact ih subset.2

variable {transactions : List CTransaction} {context : BlockSpendContext}
  {options : BlockSpendConsensusOptions} {collection : ScriptCheckPlanCollection}

theorem related_joinBlockSpentOutputs {W : Type} {lookupCoins : SpendLookupBatch W}
    {blockHeight : Int32} {relation : W → W → Prop} {state state' : W}
    (related : relation state state')
    (same : (lookupCoins state (externalOutpoints transactions)).1 =
      (lookupCoins state' (externalOutpoints transactions)).1)
    (after : relation (lookupCoins state (externalOutpoints transactions)).2
      (lookupCoins state' (externalOutpoints transactions)).2) :
    Exec.Related (fun first second => first.1 = second.1 ∧ relation first.2 second.2)
      (joinBlockSpentOutputs lookupCoins transactions blockHeight state)
      (joinBlockSpentOutputs lookupCoins transactions blockHeight state') := by
  unfold joinBlockSpentOutputs
  simp only [map_outpoint_externalLookups, same]
  generalize planFailure transactions (planBlockSpentOutputLookups transactions) = failed
  cases failed with
  | some failure => exact ⟨rfl, related⟩
  | none =>
    dsimp only
    split
    · exact ⟨rfl, after⟩
    · apply related_bind_same
      intro joined _
      cases joined.failure with
      | some failure => exact ⟨rfl, after⟩
      | none =>
        apply related_bind_same
        intro coins _
        exact ⟨rfl, after⟩

/-- One round of the loop: the times and coins that it reads are in the set. -/
theorem related_stageTransaction {tx : CTransaction} (txMem : tx ∈ transactions)
    (coins : List CoinSnapshot) (index : Nat) (stage : BlockSpendStageResult)
    (agree : AgreeingWorkspaces (snapshotOutpointsForBlock transactions) first second) :
    Exec.Related (AgreeingResults transactions)
      (stageTransaction context options collection (stage, first) ((tx, coins), index))
      (stageTransaction context options collection (stage, second) ((tx, coins), index)) := by
  have sameTimes : ∀ input ∈ tx.spentOutpoints.zip coins,
      SpendWorkspace.previousMedianTimePast first input.1 input.2.height =
        SpendWorkspace.previousMedianTimePast second input.1 input.2.height := by
    intro input mem
    have inSet := spentOutpoints_mem_snapshotOutpoints txMem (of_mem_zip mem).1
    have time : first.staged.times.lookup input.1 = second.staged.times.lookup input.1 :=
      agree.2.timeOf_eq input.1 inSet
    change (first.staged.times.lookup input.1).getD first.previousMedianTimePast =
      (second.staged.times.lookup input.1).getD second.previousMedianTimePast
    rw [time, agree.1]
  unfold stageTransaction
  simp only
  rw [addTransactionToStage_congr sameTimes]
  apply related_bind_same
  rintro ⟨next, effects⟩ added
  have built := addTransactionToStage_effects added
  have spends : ∀ spend ∈ effects.spends,
      spend.outpoint ∈ snapshotOutpointsForBlock transactions := by
    intro spend mem
    rw [built, transactionCoinEffects, spentCoinEffects, mem_map] at mem
    obtain ⟨input, inputMem, rfl⟩ := mem
    exact spentOutpoints_mem_snapshotOutpoints txMem (of_mem_zip inputMem).1
  have creates : ∀ create ∈ effects.creates,
      create.outpoint ∈ snapshotOutpointsForBlock transactions := by
    intro create mem
    rw [built] at mem
    have created : create.outpoint ∈ spendableOutpoints tx := by
      rw [← CTransaction.createdKeys_transfer tx context.blockHeight]
      exact mem_map_of_mem (mem_map_of_mem mem)
    exact outputOutpoints_mem_snapshotOutpoints txMem
      (CTransaction.outputOutpoints_of_spendable created)
  have staged := related_stageEffects agree.2 spends creates
  refine Exec.Related.bind (staged.bind fun left right related => ?_)
    fun left right related => ⟨rfl, related⟩
  exact ⟨agree.1, related⟩

theorem related_validateAndStageWithPlans
    (agree : AgreeingWorkspaces (snapshotOutpointsForBlock transactions) first second) :
    Exec.Related (AgreeingResults transactions)
      (validateAndStageWithPlans (joinBlockSpentOutputs getCoins) transactions first context
        options collection)
      (validateAndStageWithPlans (joinBlockSpentOutputs getCoins) transactions second context
        options collection) := by
  have checks : Exec.Related (AgreeingWorkspaces (snapshotOutpointsForBlock transactions))
      (if options.checkNoUnspentOutputOverwrite then
        checkBlockNoUnspentOutputOverwrite transactions first else pure first)
      (if options.checkNoUnspentOutputOverwrite then
        checkBlockNoUnspentOutputOverwrite transactions second else pure second) := by
    split
    · apply related_checkNoCoins agree
      intro point mem
      obtain ⟨tx, txMem, outputMem⟩ := mem_flatMap.mp mem
      exact outputOutpoints_mem_snapshotOutpoints txMem outputMem
    · exact agree
  have stages : ∀ workspace : SnapshotSpendWorkspace,
      validateAndStageWithPlans (joinBlockSpentOutputs getCoins)
      transactions workspace context options collection =
      assertThat (!transactions.isEmpty) >>= fun _ =>
        (if options.checkNoUnspentOutputOverwrite then
          checkBlockNoUnspentOutputOverwrite transactions workspace else pure workspace) >>=
        fun checked => joinBlockSpentOutputs getCoins transactions context.blockHeight checked
          >>= fun joined => joinError transactions joined.1 >>= fun _ =>
            (transactions.zip joined.1.inputCoinsByTransaction).zipIdx.foldlM
              (stageTransaction context options collection)
              (BlockSpendStageResult.empty, joined.2) := by
    intro workspace
    unfold validateAndStageWithPlans
    cases options.checkNoUnspentOutputOverwrite <;> rfl
  rw [stages, stages]
  apply related_bind_same
  intro _ _
  apply checks.bind
  intro left right agree
  refine Exec.Related.bind (related_joinBlockSpentOutputs agree ?_ ?_) ?_
  · rw [getCoins_eq, getCoins_eq]
    apply map_congr_left
    intro point mem
    exact agree.2.ledger_eq point (mem_snapshotOutpointsForBlock.mpr (Or.inl mem))
  · rw [getCoins_eq, getCoins_eq]
    exact agree
  · rintro ⟨joined, looked⟩ ⟨_, looked'⟩ ⟨rfl, agree⟩
    apply related_bind_same
    intro _ _
    apply related_foldlM
    · rintro ⟨⟨tx, coins⟩, index⟩ mem ⟨stage, left⟩ ⟨_, right⟩ ⟨rfl, agree⟩
      have txMem : tx ∈ transactions := (of_mem_zip (fst_mem_of_mem_zipIdx mem)).1
      exact related_stageTransaction txMem coins index stage agree
    · exact ⟨rfl, agree⟩

end Validation

/-- On the snapshot for a block, validation of the block gives what it gives on all
coins: the same effects, or the same error. -/
theorem validateAndStage_restrictTo (full : SnapshotSpendState) (block : CBlock)
    (scriptChecker : BlockScriptChecker) (spendContext : BlockSpendContext)
    (options : BlockSpendConsensusOptions) :
    (validateAndStageBlockTransactions block.vtx
        ((full.restrictTo (snapshotOutpointsForBlock block.vtx)).beginBlockSpend spendContext)
        scriptChecker spendContext options).map Prod.fst =
      (validateAndStageBlockTransactions block.vtx (full.beginBlockSpend spendContext)
        scriptChecker spendContext options).map Prod.fst := by
  have agree : AgreeingWorkspaces (snapshotOutpointsForBlock block.vtx)
      ((full.restrictTo (snapshotOutpointsForBlock block.vtx)).beginBlockSpend spendContext)
      (full.beginBlockSpend spendContext) :=
    ⟨rfl, full.agreeOn_restrictTo _⟩
  refine Exec.Related.map_eq ?_ fun _ _ same => same
  unfold validateAndStageBlockTransactions validateAndStageWithJoiner
  apply (related_validateAndStageWithPlans agree).bind
  rintro ⟨stage, left⟩ ⟨_, right⟩ ⟨rfl, _⟩
  apply related_bind_same
  intro _ _
  exact rfl

end Champy
