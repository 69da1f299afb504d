import Champy.SegmentPlan

/-!
# The overwrite check of a segment

`CheckSegmentNoUnspentOutputOverwrite` looks at the outputs that a block creates in
two ways: it follows the unspent outputs of the segment, and it looks the outputs
that no earlier block modified up in the snapshot.  Together the two say that no
output that a block creates is unspent on the ledger before the block.
-/

namespace Champy

open List SegmentUtxoSnapshotBackend Exec

/-- No spendable output of a block is unspent when its turn comes. -/
def FreeBlocks (ledger : SegmentLedger) : List SegmentBlockView → Prop
  | [] => True
  | block :: blocks =>
    OutputsFree ledger block.transactions ∧ FreeBlocks (ledger.afterAll block.transfers) blocks

/-! ## The outputs of a block -/

/-- The outputs that are listed for a block are its spendable ones. -/
def OutputsOf (createdOutputs : List SegmentCreatedOutput) (blockIndex : Nat)
    (block : SegmentBlockView) : Prop :=
  ∀ outpoint, (∃ output ∈ createdOutputs, output.blockIndex = blockIndex ∧
      output.outpoint = outpoint) ↔
    ∃ tx ∈ block.transactions, outpoint ∈ spendableOutpoints tx

theorem segmentOutputs_outpoints (ctx : SegmentBlockContext) (index : Nat)
    (tx : CTransaction × Nat) :
    (segmentOutputs ctx index tx).map SegmentCreatedOutput.outpoint = spendableOutpoints tx.1 := by
  rw [segmentOutputs, spendableOutpoints, map_filterMap]
  apply filterMap_congr
  intro output _
  split <;> rfl

variable {output : SegmentCreatedOutput}

theorem segmentOutputs_blockIndex {ctx : SegmentBlockContext} {index : Nat}
    {tx : CTransaction × Nat}
    (mem : output ∈ segmentOutputs ctx index tx) : output.blockIndex = index := by
  obtain ⟨entry, -, chosen⟩ := mem_filterMap.mp mem
  cases unspendable : isUnspendable entry.1.scriptPubKey with
  | true => simp [unspendable] at chosen
  | false =>
    simp only [unspendable, Bool.false_eq_true, if_false, Option.some.injEq] at chosen
    rw [← chosen]

variable {blocks : List SegmentBlockView}

theorem createdOutputs_of_block {index : Nat}
    {block : SegmentBlockView} (found : blocks[index]? = some block) :
    OutputsOf (extractSegmentCreatedOutputs blocks) index block := by
  intro point
  constructor
  · rintro ⟨output, mem, rfl, rfl⟩
    obtain ⟨⟨other, otherIndex⟩, otherMem, mem⟩ := mem_flatMap.mp mem
    obtain ⟨⟨tx, transactionIndex⟩, txMem, mem⟩ := mem_flatMap.mp mem
    have sameIndex := segmentOutputs_blockIndex mem
    have sameBlock : other = block := by
      have otherFound := mem_zipIdx_iff_getElem?.mp otherMem
      rw [← sameIndex, found] at otherFound
      exact (Option.some.inj otherFound).symm
    subst sameBlock
    refine ⟨tx, mem_of_getElem? (mem_zipIdx_iff_getElem?.mp txMem), ?_⟩
    rw [← segmentOutputs_outpoints other.context otherIndex (tx, transactionIndex)]
    exact mem_map_of_mem mem
  · rintro ⟨tx, txMem, mem⟩
    obtain ⟨transactionIndex, txFound⟩ := mem_iff_getElem?.mp txMem
    rw [← segmentOutputs_outpoints block.context index (tx, transactionIndex)] at mem
    obtain ⟨output, outputMem, rfl⟩ := mem_map.mp mem
    refine ⟨output, ?_, segmentOutputs_blockIndex outputMem, rfl⟩
    refine mem_flatMap.mpr ⟨(block, index), mem_zipIdx_iff_getElem?.mpr found, ?_⟩
    exact mem_flatMap.mpr ⟨(tx, transactionIndex), mem_zipIdx_iff_getElem?.mpr txFound, outputMem⟩

theorem createdOutputs_blockIndex (mem : output ∈ extractSegmentCreatedOutputs blocks) :
    ∃ block ∈ blocks, blocks[output.blockIndex]? = some block := by
  obtain ⟨⟨block, index⟩, blockMem, mem⟩ := mem_flatMap.mp mem
  obtain ⟨tx, -, mem⟩ := mem_flatMap.mp mem
  have found := mem_zipIdx_iff_getElem?.mp blockMem
  rw [segmentOutputs_blockIndex mem]
  exact ⟨block, mem_of_getElem? found, found⟩

/-! ## What the walk leaves alone -/

namespace SegmentPlanning

variable {allCreatedOutputs : List SegmentCreatedOutput}

/-- The parts of the walk that the overwrite checks read, after a transaction. -/
structure WalksOver (unspent : FinMap COutPoint SegmentCreatedOutput) (before after : SegmentPlanning) :
    Prop where
  unspent_eq : after.unspentSegmentOutputs = unspent
  created_eq : after.plan.createdOutputs = before.plan.createdOutputs
  checks_eq : after.plan.externalOverwriteChecks = before.plan.externalOverwriteChecks
  modified_eq : ∀ base, before.modifiedBeforeTransaction = base ∪ before.modifiedInBlock →
    after.modifiedBeforeTransaction = base ∪ after.modifiedInBlock

theorem WalksOver.trans {first second third : SegmentPlanning}
    {unspent unspent' : FinMap COutPoint SegmentCreatedOutput}
    (left : WalksOver unspent first second) (right : WalksOver unspent' second third) :
    WalksOver unspent' first third :=
  ⟨right.unspent_eq, right.created_eq.trans left.created_eq, right.checks_eq.trans left.checks_eq,
    fun base start => right.modified_eq base (left.modified_eq base start)⟩

variable (state : SegmentPlanning)

theorem walksOver_planLookup (lookup : SegmentSpentOutputLookup) :
    WalksOver (state.unspentSegmentOutputs.erase lookup.lookup.outpoint) state
      (state.planLookup allCreatedOutputs lookup) := by
  rcases planLookup_cases allCreatedOutputs state lookup with
    ⟨output, held, planned⟩ | ⟨held, seen, planned⟩ | ⟨held, seen, planned⟩
  · rw [planned]
    refine ⟨rfl, rfl, rfl, ?_⟩
    intro base start
    simp [planDependency, modified, start, Finset.union_insert]
  · rw [planned]
    exact ⟨(FinMap.erase_of_absent held).symm, rfl, rfl, fun _ start => start⟩
  · rw [planned]
    refine ⟨(FinMap.erase_of_absent held).symm, rfl, rfl, ?_⟩
    intro base start
    simp [planExternal, modified, start, Finset.union_insert]

theorem walksOver_planOutput (output : SegmentCreatedOutput) :
    WalksOver (state.unspentSegmentOutputs.insert output.outpoint output) state
      (state.planOutput output) := by
  refine ⟨rfl, rfl, rfl, ?_⟩
  intro base start
  simp [planOutput, modified, start, Finset.union_insert]

/-- A loop of rounds that each walk over the unspent outputs in one way. -/
theorem walksOver_foldl {β : Type} (round : SegmentPlanning → β → SegmentPlanning)
    (update : FinMap COutPoint SegmentCreatedOutput → β → FinMap COutPoint SegmentCreatedOutput)
    (walks : ∀ state entry,
      WalksOver (update state.unspentSegmentOutputs entry) state (round state entry))
    (entries : List β) (state : SegmentPlanning) :
    WalksOver (entries.foldl update state.unspentSegmentOutputs) state
      (entries.foldl round state) := by
  induction entries generalizing state with
  | nil => exact ⟨rfl, rfl, rfl, fun _ start => start⟩
  | cons entry entries ih =>
    have first := walks state entry
    have rests := ih (round state entry)
    rw [first.unspent_eq] at rests
    exact first.trans rests

theorem walksOver_planTransaction (ctx : SegmentBlockContext) (index : Nat)
    (state : SegmentPlanning) (tx : CTransaction × Nat) :
    WalksOver (updateUnspentOutputs ctx index state.unspentSegmentOutputs tx) state
      (state.planTransaction allCreatedOutputs ctx index tx) := by
  have lookups := walksOver_foldl (planLookup allCreatedOutputs)
    (fun unspent lookup => unspent.erase lookup.lookup.outpoint) walksOver_planLookup
    (segmentLookups index tx) state
  have outputs := walksOver_foldl planOutput
    (fun unspent output => unspent.insert output.outpoint output) walksOver_planOutput
    (segmentOutputs ctx index tx)
    ((segmentLookups index tx).foldl (planLookup allCreatedOutputs) state)
  rw [lookups.unspent_eq] at outputs
  exact lookups.trans outputs

/-- A point between two blocks. -/
def Boundary (state : SegmentPlanning × Finset COutPoint) : Prop :=
  state.2 = state.1.modifiedBeforeTransaction

theorem planBlock_spec (allCreatedOutputs : List SegmentCreatedOutput) (index : Nat)
    {state : SegmentPlanning × Finset COutPoint} {block : SegmentBlockView}
    (boundary : Boundary state)
    (checkOn : block.context.spendOptions.checkNoUnspentOutputOverwrite = true) :
    let next := planBlock allCreatedOutputs state (block, index)
    Boundary next ∧
      next.1.unspentSegmentOutputs =
        block.transactions.zipIdx.foldl (updateUnspentOutputs block.context index)
          state.1.unspentSegmentOutputs ∧
      next.1.plan.createdOutputs = state.1.plan.createdOutputs ∧
      next.1.plan.externalOverwriteChecks =
        state.1.plan.externalOverwriteChecks ++ state.1.plan.createdOutputs.filter fun output =>
          output.blockIndex == index && output.outpoint ∉ state.1.modifiedBeforeTransaction := by
  have walks := walksOver_foldl (planTransaction allCreatedOutputs block.context index)
    (updateUnspentOutputs block.context index)
    (walksOver_planTransaction block.context index) block.transactions.zipIdx
    (state.1.beginBlock state.2 (block, index))
  have begins : state.1.beginBlock state.2 (block, index) = { state.1 with
      modifiedInBlock := ∅
      plan := { state.1.plan with externalOverwriteChecks :=
        state.1.plan.externalOverwriteChecks ++ state.1.plan.createdOutputs.filter fun output =>
          output.blockIndex == index && output.outpoint ∉ state.2 } } := by
    rw [beginBlock, planOverwriteChecks, if_pos checkOn]
  rw [Boundary] at boundary
  rw [begins] at walks
  unfold planBlock
  rw [begins]
  refine ⟨?_, walks.unspent_eq, walks.created_eq, ?_⟩
  · have start : state.1.modifiedBeforeTransaction = state.2 ∪ ∅ := by
      rw [Finset.union_empty, boundary]
    exact (walks.modified_eq state.2 start).symm
  · refine walks.checks_eq.trans ?_
    simp only [boundary]

end SegmentPlanning

/-! ## Both checks -/

section Checks

open SegmentPlanning

variable {snap : SegmentLedger} {plan : SegmentSpendInputPlan}
  {allCreatedOutputs : List SegmentCreatedOutput}

theorem checkIntraSegmentBlock_eq_ok {unspent unspent' : FinMap COutPoint SegmentCreatedOutput}
    {block : SegmentBlockView × Nat}
    (checkOn : block.1.context.spendOptions.checkNoUnspentOutputOverwrite = true) :
    checkIntraSegmentBlock plan unspent block = .ok unspent' ↔
      (∀ output ∈ plan.createdOutputs, output.blockIndex = block.2 →
        unspent.lookup output.outpoint = none) ∧
      unspent' = block.1.transactions.zipIdx.foldl
        (updateUnspentOutputs block.1.context block.2) unspent := by
  simp only [checkIntraSegmentBlock, checkOn, if_true, bind_eq_ok, ensure_eq_ok,
    exists_const, all_eq_true, pure_eq_ok, Except.ok.injEq, Bool.or_eq_true, bne_iff_ne,
    Option.isNone_iff_eq_none, eq_comm (a := unspent')]
  constructor
  · rintro ⟨free, eq⟩
    exact ⟨fun output mem same => (free output mem).resolve_left (fun ne => ne same), eq⟩
  · rintro ⟨free, eq⟩
    refine ⟨fun output mem => ?_, eq⟩
    by_cases same : output.blockIndex = block.2
    · exact Or.inr (free output mem same)
    · exact Or.inl same

/-- The outputs of a block are free on the ledger exactly when none is an unspent
output of the segment, and those that were not modified are not in the snapshot. -/
theorem freeOutputs_iff {state : SegmentPlanning} {block : SegmentBlockView} {index : Nat}
    (outputs : OutputsOf plan.createdOutputs index block) :
    OutputsFree (state.view snap) block.transactions ↔
      (∀ output ∈ plan.createdOutputs, output.blockIndex = index →
        state.unspentSegmentOutputs.lookup output.outpoint = none) ∧
      ∀ output ∈ plan.createdOutputs.filter fun output =>
        output.blockIndex == index && output.outpoint ∉ state.modifiedBeforeTransaction,
        snap output.outpoint = none := by
  have byOutput : OutputsFree (state.view snap) block.transactions ↔
      ∀ output ∈ plan.createdOutputs, output.blockIndex = index →
        state.view snap output.outpoint = none := by
    constructor
    · intro free output mem here
      obtain ⟨tx, txMem, spendable⟩ := (outputs output.outpoint).mp ⟨output, mem, here, rfl⟩
      exact free tx txMem output.outpoint spendable
    · intro free tx txMem point spendable
      obtain ⟨output, mem, here, rfl⟩ := (outputs point).mpr ⟨tx, txMem, spendable⟩
      exact free output mem here
  rw [byOutput]
  simp only [view_eq_none, mem_filter, Bool.and_eq_true, beq_iff_eq, decide_eq_true_iff]
  constructor
  · intro free
    exact ⟨fun output mem here => (free output mem here).1,
      fun output chosen => (free output chosen.1 chosen.2.1).2 chosen.2.2⟩
  · rintro ⟨unspent, external⟩ output mem here
    exact ⟨unspent output mem here, fun fresh => external output ⟨mem, here, fresh⟩⟩

variable {state : SegmentPlanning × Finset COutPoint} {blocks : List SegmentBlockView}

/-- The blocks of a segment from one on: both checks pass exactly when the outputs
of each block are free on the ledger before it. -/
theorem overwriteChecks_iff {start : Nat} (outputs : ∀ index block, blocks[index]? = some block →
      OutputsOf plan.createdOutputs (start + index) block)
    (created : state.1.plan.createdOutputs = plan.createdOutputs)
    (boundary : Boundary state)
    (checkOn : ∀ block ∈ blocks, block.context.spendOptions.checkNoUnspentOutputOverwrite = true) :
    ((∃ res, (blocks.zipIdx start).foldlM (checkIntraSegmentBlock plan)
        state.1.unspentSegmentOutputs = .ok res) ∧
      ∀ output ∈ ((blocks.zipIdx start).foldl (planBlock allCreatedOutputs)
        state).1.plan.externalOverwriteChecks, snap output.outpoint = none) ↔
      (∀ output ∈ state.1.plan.externalOverwriteChecks, snap output.outpoint = none) ∧
        FreeBlocks (state.1.view snap) blocks := by
  induction blocks generalizing state start with
  | nil => simp [FreeBlocks]
  | cons block blocks ih =>
    rw [forall_mem_cons] at checkOn
    obtain ⟨nextBoundary, nextUnspent, nextCreated, nextChecks⟩ :=
      planBlock_spec allCreatedOutputs start boundary checkOn.1
    have viewNext := view_planBlock snap allCreatedOutputs state block start
    have laterOutputs : ∀ index other, blocks[index]? = some other →
        OutputsOf plan.createdOutputs (start + 1 + index) other := by
      intro index other found
      rw [Nat.add_assoc, Nat.add_comm 1]
      exact outputs (index + 1) other found
    have later := ih laterOutputs (nextCreated.trans created) nextBoundary checkOn.2
    rw [nextChecks, created] at later
    have freeHere : OutputsFree (state.1.view snap) block.transactions ↔ _ :=
      freeOutputs_iff (outputs 0 block rfl)
    have intra : ∀ res, checkIntraSegmentBlock plan state.1.unspentSegmentOutputs
        (block, start) = .ok res ↔ _ := fun _ => checkIntraSegmentBlock_eq_ok checkOn.1
    rw [zipIdx_cons, foldlM_cons, foldl_cons, FreeBlocks, ← viewNext, freeHere]
    simp only [bind_eq_ok, intra]
    rw [forall_mem_append] at later
    constructor
    · rintro ⟨⟨res, next, ⟨free, rfl⟩, rests⟩, checks⟩
      rw [← nextUnspent] at rests
      obtain ⟨⟨before, here⟩, freeLater⟩ := later.mp ⟨⟨res, rests⟩, checks⟩
      exact ⟨before, ⟨free, here⟩, freeLater⟩
    · rintro ⟨before, ⟨free, here⟩, freeLater⟩
      obtain ⟨⟨res, rests⟩, checks⟩ := later.mpr ⟨⟨before, here⟩, freeLater⟩
      rw [nextUnspent] at rests
      exact ⟨⟨res, _, ⟨free, rfl⟩, rests⟩, checks⟩

/-- The walk keeps the created outputs, and takes all overwrite checks from them. -/
theorem foldl_planBlock_created {start : Nat} (boundary : Boundary state)
    (checkOn : ∀ block ∈ blocks, block.context.spendOptions.checkNoUnspentOutputOverwrite = true)
    (checks : ∀ output ∈ state.1.plan.externalOverwriteChecks,
      output ∈ state.1.plan.createdOutputs) :
    ((blocks.zipIdx start).foldl (planBlock allCreatedOutputs)
        state).1.plan.createdOutputs = state.1.plan.createdOutputs ∧
      ∀ output ∈ ((blocks.zipIdx start).foldl (planBlock allCreatedOutputs)
        state).1.plan.externalOverwriteChecks, output ∈ state.1.plan.createdOutputs := by
  induction blocks generalizing state start with
  | nil => exact ⟨rfl, checks⟩
  | cons block blocks ih =>
    rw [forall_mem_cons] at checkOn
    obtain ⟨nextBoundary, -, nextCreated, nextChecks⟩ :=
      planBlock_spec allCreatedOutputs start boundary checkOn.1
    rw [zipIdx_cons, foldl_cons, ← nextCreated]
    apply ih nextBoundary checkOn.2
    intro output mem
    rw [nextChecks] at mem
    rw [nextCreated]
    rcases mem_append.mp mem with before | now
    · exact checks output before
    · exact (mem_filter.mp now).1

end Checks

/-- A batch view that answers from a ledger. -/
def AnswersFrom (snapshot : SegmentLedger)
    (spendState : SegmentSpendBatchView) : Prop :=
  ∀ outpoints, spendState outpoints = .ok (outpoints.map snapshot)

section Segment

open SegmentPlanning

variable {snap : SegmentLedger} {spendState : SegmentSpendBatchView}
  {blocks : List SegmentBlockView}

theorem lookupSegmentCreatedOutputs_eq (answers : AnswersFrom snap spendState)
    (createdOutputs : List SegmentCreatedOutput) :
    lookupSegmentCreatedOutputs createdOutputs spendState = .ok (createdOutputs.map fun output =>
        ⟨output, (snap output.outpoint).map SegmentCoinSnapshot.coin⟩) := by
  rw [lookupSegmentCreatedOutputs, answers]
  simp [assertThat, map_map, zip_map_self, Function.comp_def]

theorem checkOverwriteResult_eq_ok (output : SegmentCreatedOutput)
    (existing : Option CoinSnapshot) :
    checkOverwriteResult (⟨output, existing⟩, output) = .ok () ↔ existing = none := by
  simp [checkOverwriteResult, sameCreatedOutput, bind_eq_ok]

theorem checkNotInSnapshot_eq_ok (answers : AnswersFrom snap spendState)
    {checks : List SegmentCreatedOutput} :
    checkNotInSnapshot blocks checks (ofBatchView spendState) = .ok () ↔
      ∀ output ∈ checks, snap output.outpoint = none := by
  have results : (ofBatchView spendState).lookupCreatedOutputs blocks
      checks = .ok (checks.map fun output =>
        ⟨output, (snap output.outpoint).map SegmentCoinSnapshot.coin⟩) :=
    lookupSegmentCreatedOutputs_eq answers checks
  unfold checkNotInSnapshot
  cases empty : checks.isEmpty with
  | true => simp [isEmpty_iff.mp empty]
  | false =>
    simp only [Bool.false_eq_true, if_false, results, ok_bind, length_map, beq_self_eq_true,
      map_zip_self]
    rw [bind_eq_ok]
    simp only [ensure_eq_ok, exists_const, true_and, forM_eq_ok, forall_mem_map,
      checkOverwriteResult_eq_ok, Option.map_eq_none_iff]

variable (checkOn : ∀ block ∈ blocks,
  block.context.spendOptions.checkNoUnspentOutputOverwrite = true)

include checkOn

theorem planSegmentSpendInputs_created :
    (planSegmentSpendInputs blocks).createdOutputs = extractSegmentCreatedOutputs blocks ∧
      ∀ output ∈ (planSegmentSpendInputs blocks).externalOverwriteChecks,
        output ∈ extractSegmentCreatedOutputs blocks := by
  have boundary : Boundary (start (extractSegmentCreatedOutputs blocks)) := rfl
  have noChecks : ∀ output ∈ (start
      (extractSegmentCreatedOutputs blocks)).1.plan.externalOverwriteChecks,
      output ∈ (start (extractSegmentCreatedOutputs blocks)).1.plan.createdOutputs :=
    fun _ mem => absurd mem not_mem_nil
  exact foldl_planBlock_created boundary checkOn noChecks

theorem checkSegmentNoUnspentOutputOverwrite_eq_ok (answers : AnswersFrom snap spendState) :
    checkSegmentNoUnspentOutputOverwrite blocks (planSegmentSpendInputs blocks)
        (ofBatchView spendState) = .ok () ↔
      FreeBlocks snap blocks := by
  have boundary : Boundary (start (extractSegmentCreatedOutputs blocks)) := rfl
  have created := planSegmentSpendInputs_created checkOn
  have outputs : ∀ index block, blocks[index]? = some block →
      OutputsOf (planSegmentSpendInputs blocks).createdOutputs (0 + index) block := by
    intro index block found
    rw [created.1, Nat.zero_add]
    exact createdOutputs_of_block found
  have both : ((∃ res, blocks.zipIdx.foldlM
        (checkIntraSegmentBlock (planSegmentSpendInputs blocks)) ∅ = .ok res) ∧
      ∀ output ∈ (planSegmentSpendInputs blocks).externalOverwriteChecks,
        snap output.outpoint = none) ↔ _ :=
    overwriteChecks_iff outputs created.1.symm boundary checkOn
  have inSegment : ((planSegmentSpendInputs blocks).externalOverwriteChecks.all fun output =>
      blocks[output.blockIndex]?.any fun block =>
        block.context.spendOptions.checkNoUnspentOutputOverwrite) = true := by
    rw [all_eq_true]
    intro output mem
    obtain ⟨block, blockMem, found⟩ := createdOutputs_blockIndex (created.2 output mem)
    rw [found, Option.any_some]
    exact checkOn block blockMem
  rw [checkSegmentNoUnspentOutputOverwrite, bind_eq_ok]
  constructor
  · rintro ⟨⟨⟩, intra, rests⟩
    obtain ⟨⟨⟩, -, external⟩ := bind_eq_ok.mp rests
    obtain ⟨res, intra, -⟩ := bind_eq_ok.mp intra
    exact (both.mp ⟨⟨res, intra⟩, (checkNotInSnapshot_eq_ok answers).mp external⟩).2
  · intro free
    obtain ⟨⟨res, intra⟩, external⟩ := both.mpr ⟨by simp [start], free⟩
    refine ⟨(), bind_eq_ok.mpr ⟨res, intra, rfl⟩, ?_⟩
    exact bind_eq_ok.mpr ⟨(), ensure_eq_ok.mpr inSegment,
      (checkNotInSnapshot_eq_ok answers).mpr external⟩

end Segment

end Champy
