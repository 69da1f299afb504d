import Champy.SegmentJoin
import Champy.StoppingWalk

/-!
# The replay of a segment

A segment can be replayed on a map of coins: in the order of blocks, transactions and
inputs, each input removes its coin, and at the end of a transaction each of its spendable
outputs puts its coin, over what is there.  The replay stops at the first input that finds
nothing.  `JoinSegmentSpentOutputs` is complete exactly when the replay does not stop, with
the coins that the replay removes.  Otherwise its failed lookup is the input at which the
replay stops, although it collects failures in three passes.
-/

namespace Champy

open SegmentUtxoSnapshotBackend SegmentPlanning List SegmentSpendInputPlan

/-! ## The replay -/

section Replay

variable (ledger : SegmentLedger)

/-- An input removes its coin. -/
def replayInput (lookup : SegmentSpentOutputLookup) :
    Except SegmentSpentOutputLookup (SegmentCoinSnapshot × SegmentLedger) :=
  match ledger lookup.lookup.outpoint with
  | none => .error lookup
  | some coin => .ok (coin, Function.update ledger lookup.lookup.outpoint none)

/-- An output creates its coin, or overwrites one, unless its script is left out. -/
def replayOutput (creates : CScript → Bool) (context : SegmentBlockContext) (tx : CTransaction)
    (ledger : SegmentLedger) (output : CTxOut × Nat) :
    SegmentLedger :=
  if creates output.1.scriptPubKey then
    Function.update ledger (outpointAt tx.hash output.2)
      (some ⟨⟨output.1, context.height, tx.isCoinBase⟩, context.previousMedianTimePast⟩)
  else ledger

variable (creates : CScript → Bool)

def replayTransaction (context : SegmentBlockContext) (blockIndex : Nat)
    (ledger : SegmentLedger) (tx : CTransaction × Nat) :
    Except SegmentSpentOutputLookup
      (List SegmentCoinSnapshot × SegmentLedger) := do
  let spent ← walkEach replayInput ledger (segmentLookups blockIndex tx)
  .ok (spent.1, tx.1.vout.zipIdx.foldl (replayOutput creates context tx.1) spent.2)

def replayBlock (block : SegmentBlockView × Nat) :
    Except SegmentSpentOutputLookup
      (List (List SegmentCoinSnapshot) × SegmentLedger) :=
  walkEach (replayTransaction creates block.1.context block.2) ledger block.1.transactions.zipIdx

/-- The coins that the inputs of a segment remove, or the first input that finds nothing. -/
def replaySegment (blocks : List SegmentBlockView) :
    Except SegmentSpentOutputLookup
      (SegmentInputCoins × SegmentLedger) :=
  walkEach (replayBlock · creates) ledger blocks.zipIdx

def isSpendable (script : CScript) : Bool :=
  !isUnspendable script

end Replay

/-! ## A replay that does not stop -/

section Found

variable {ledger next : SegmentLedger} {coins : List SegmentCoinSnapshot}

theorem replayInputs_eq_ok {lookups : List SegmentSpentOutputLookup} :
    walkEach replayInput ledger lookups = .ok (coins, next) ↔
      ledger.take (lookups.map fun lookup => lookup.lookup.outpoint) = some (coins, next) := by
  induction lookups generalizing ledger coins with
  | nil =>
    constructor
    · intro replayed
      cases replayed
      rfl
    · intro taken
      cases taken
      rfl
  | cons lookup lookups ih =>
    rw [walkEach_cons_eq_ok, map_cons, Ledger.take, replayInput]
    cases held : ledger lookup.lookup.outpoint with
    | none =>
      constructor
      · intro split
        obtain ⟨coin, middle, rest, stepped, -, -⟩ := split
        cases stepped
      · intro taken
        cases taken
    | some coin =>
      constructor
      · intro split
        obtain ⟨first, middle, rest, stepped, later, rfl⟩ := split
        cases stepped
        exact Option.map_eq_some_iff.mpr ⟨(rest, next), ih.mp later, rfl⟩
      · intro taken
        obtain ⟨res, takenRest, same⟩ := Option.map_eq_some_iff.mp taken
        cases same
        exact ⟨coin, _, res.1, rfl, ih.mpr takenRest, rfl⟩

theorem foldl_replayOutput (ctx : SegmentBlockContext) (tx : CTransaction)
    (ledger : SegmentLedger) :
    tx.vout.zipIdx.foldl (replayOutput isSpendable ctx tx) ledger =
      ledger.adding (segmentTransfer ctx tx).creates := by
  rw [segmentTransfer, createdCoinEffects]
  generalize tx.vout.zipIdx = outputs
  induction outputs generalizing ledger with
  | nil => rfl
  | cons output outputs ih =>
    rw [foldl_cons, ih, filterMap_cons, replayOutput, isSpendable]
    cases isUnspendable output.1.scriptPubKey <;> rfl

variable {ctx : SegmentBlockContext}

theorem replayTransaction_eq_ok {index : Nat} {tx : CTransaction × Nat} :
    replayTransaction isSpendable ctx index ledger tx = .ok (coins, next) ↔
      tx.1.spentOutpoints.Nodup ∧ tx.1.spentOutpoints.map ledger = coins.map some ∧
        next = ledger.after (segmentTransfer ctx tx.1) := by
  unfold replayTransaction
  constructor
  · intro replayed
    cases inputs : walkEach replayInput ledger (segmentLookups index tx) with
    | error failure =>
      rw [inputs] at replayed
      cases replayed
    | ok spent =>
      rw [inputs] at replayed
      cases replayed
      have taken := replayInputs_eq_ok.mp inputs
      rw [segmentLookups_outpoints] at taken
      obtain ⟨nodup, found, spentEq⟩ := Ledger.take_eq_some.mp taken
      refine ⟨nodup, found, ?_⟩
      rw [foldl_replayOutput, spentEq]
      rfl
  · intro resolved
    obtain ⟨nodup, found, rfl⟩ := resolved
    have inputs : walkEach replayInput ledger (segmentLookups index tx) =
        .ok (coins, ledger.without tx.1.spentOutpoints) := by
      rw [replayInputs_eq_ok, segmentLookups_outpoints]
      exact Ledger.take_eq_some.mpr ⟨nodup, found, rfl⟩
    rw [inputs]
    simp only [bind, Except.bind, foldl_replayOutput]
    rfl

theorem replayTransactions_eq_ok {index start : Nat}
    {txs : List CTransaction} {rows : List (List SegmentCoinSnapshot)} :
    walkEach (replayTransaction isSpendable ctx index) ledger (txs.zipIdx start) = .ok (rows, next) ↔
      (∀ tx ∈ txs, tx.spentOutpoints.Nodup) ∧
        ledger.resolved (txs.map (segmentTransfer ctx)) = rows.map (map some) ∧
        next = ledger.afterAll (txs.map (segmentTransfer ctx)) := by
  induction txs generalizing ledger start rows with
  | nil =>
    constructor
    · intro replayed
      cases replayed
      exact ⟨nofun, rfl, rfl⟩
    · intro resolved
      obtain ⟨-, found, rfl⟩ := resolved
      rw [eq_nil_of_map_eq_nil found.symm]
      rfl
  | cons tx txs ih =>
    rw [zipIdx_cons, walkEach_cons_eq_ok, forall_mem_cons, map_cons, Ledger.resolved]
    constructor
    · intro split
      obtain ⟨row, middle, rest, stepped, later, rfl⟩ := split
      obtain ⟨nodup, found, rfl⟩ := replayTransaction_eq_ok.mp stepped
      obtain ⟨nodupRest, foundRest, nextEq⟩ := ih.mp later
      refine ⟨⟨nodup, nodupRest⟩, ?_, nextEq⟩
      rw [map_cons, ← foundRest, ← found]
      rfl
    · intro resolved
      obtain ⟨⟨nodup, nodupRest⟩, found, nextEq⟩ := resolved
      cases rows with
      | nil => cases found
      | cons row rest =>
        obtain ⟨foundRow, foundRest⟩ := cons.inj found
        exact ⟨row, _, rest, replayTransaction_eq_ok.mpr ⟨nodup, foundRow, rfl⟩,
          ih.mpr ⟨nodupRest, foundRest, nextEq⟩, rfl⟩

def segmentTransfers (blocks : List SegmentBlockView) :
    List (Transfer COutPoint SegmentCoinSnapshot) :=
  blocks.flatMap SegmentBlockView.transfers

theorem segmentTransfers_cons (block : SegmentBlockView) (blocks : List SegmentBlockView) :
    segmentTransfers (block :: blocks) = block.transfers ++ segmentTransfers blocks :=
  flatMap_cons

theorem segmentTransfers_append (first second : List SegmentBlockView) :
    segmentTransfers (first ++ second) = segmentTransfers first ++ segmentTransfers second :=
  flatMap_append

theorem afterAll_segmentTransfers_cons (ledger : SegmentLedger)
    (block : SegmentBlockView) (blocks : List SegmentBlockView) :
    ledger.afterAll (segmentTransfers (block :: blocks)) =
      (ledger.afterAll block.transfers).afterAll (segmentTransfers blocks) := by
  rw [segmentTransfers_cons]
  exact foldl_append

/-- A replay goes through exactly when no transaction spends an outpoint twice and every
input finds a coin. -/
theorem replayBlocks_eq_ok {start : Nat} {blocks : List SegmentBlockView}
    {found : SegmentInputCoins} :
    walkEach (replayBlock · isSpendable) ledger (blocks.zipIdx start) = .ok (found, next) ↔
      (∀ block ∈ blocks, ∀ tx ∈ block.transactions, tx.spentOutpoints.Nodup) ∧
        resolvedBlocks ledger blocks = found.map (map (map some)) ∧
        next = ledger.afterAll (segmentTransfers blocks) := by
  induction blocks generalizing ledger start found with
  | nil =>
    constructor
    · intro replayed
      cases replayed
      exact ⟨nofun, rfl, rfl⟩
    · intro resolved
      obtain ⟨-, grid, rfl⟩ := resolved
      rw [eq_nil_of_map_eq_nil grid.symm]
      rfl
  | cons block blocks ih =>
    rw [zipIdx_cons, walkEach_cons_eq_ok, forall_mem_cons, resolvedBlocks,
      afterAll_segmentTransfers_cons]
    constructor
    · intro split
      obtain ⟨rows, middle, rest, stepped, later, rfl⟩ := split
      obtain ⟨nodup, rowsFound, rfl⟩ := replayTransactions_eq_ok.mp stepped
      obtain ⟨nodupRest, foundRest, nextEq⟩ := ih.mp later
      refine ⟨⟨nodup, nodupRest⟩, ?_, nextEq⟩
      rw [map_cons, ← rowsFound, ← foundRest]
      rfl
    · intro resolved
      obtain ⟨⟨nodup, nodupRest⟩, grid, nextEq⟩ := resolved
      cases found with
      | nil => cases grid
      | cons rows rest =>
        obtain ⟨rowsFound, foundRest⟩ := cons.inj grid
        exact ⟨rows, _, rest, replayTransactions_eq_ok.mpr ⟨nodup, rowsFound, rfl⟩,
          ih.mpr ⟨nodupRest, foundRest, nextEq⟩, rfl⟩

end Found

/-! ## The plan shows where the replay stops -/

section Plan

variable {snap : SegmentLedger}
  {allCreatedOutputs : List SegmentCreatedOutput}

/-- A part of the plan shows a part of the replay. -/
abbrev PlanShows {S β : Type} (snapshot : SegmentLedger)
    (planning : S → SegmentPlanning) (plan : S → S)
    (replay : SegmentLedger →
      Except SegmentSpentOutputLookup (β × SegmentLedger))
    (lookups : List SegmentSpentOutputLookup) : Prop :=
  Collects (fun state => (planning state).view snapshot)
    (fun state => (planning state).plan.entries snapshot)
    (fun first second => segmentLookupBefore first second = true) plan replay lookups

theorem planShows_planLookup (lookup : SegmentSpentOutputLookup) :
    PlanShows snap id (fun state => state.planLookup allCreatedOutputs lookup)
      (fun ledger => replayInput ledger lookup) [lookup] := by
  refine ⟨?_, ?_, ?_, ?_⟩
  · intro state coin next replayed
    unfold replayInput at replayed
    cases held : state.view snap lookup.lookup.outpoint with
    | none =>
      simp only [id, held] at replayed
      cases replayed
    | some found =>
      simp only [id, held] at replayed
      cases replayed
      refine ⟨view_planLookup lookup, ?_⟩
      intro question mem
      rcases mem_entries_planLookup.mp mem with old | new
      · exact old
      · rw [held] at new
        cases new
  · intro state failed replayed
    unfold replayInput at replayed
    cases held : state.view snap lookup.lookup.outpoint with
    | some found =>
      simp only [id, held] at replayed
      cases replayed
    | none =>
      simp only [id, held] at replayed
      cases replayed
      refine ⟨mem_singleton_self _, ?_, ?_⟩
      · apply mem_entries_planLookup.mpr
        rw [held]
        exact Or.inr rfl
      · intro question mem
        rcases mem_entries_planLookup.mp mem with old | new
        · exact Or.inl old
        · exact Or.inr (Or.inl (Prod.mk.inj new).1)
  · intro state entry mem
    exact mem_entries_planLookup.mpr (Or.inl mem)
  · intro state entry mem
    rcases mem_entries_planLookup.mp mem with old | new
    · exact Or.inl old
    · rw [new]
      exact Or.inr (mem_singleton_self _)

theorem pairwise_zipIdx {α : Type} (items : List α) (start : Nat) :
    (items.zipIdx start).Pairwise fun first second => first.2 < second.2 := by
  have increasing : (range' start items.length).Pairwise (· < ·) := pairwise_lt_range'
  rwa [← zipIdx_map_snd start items, pairwise_map] at increasing

theorem segmentLookups_ordered (index : Nat) (tx : CTransaction × Nat) :
    (segmentLookups index tx).Pairwise fun first second =>
      ∀ early ∈ [first], ∀ late ∈ [second], segmentLookupBefore early late = true := by
  rw [segmentLookups, transactionLookups, map_map, pairwise_map]
  apply (pairwise_zipIdx _ _).imp
  intro first second earlier
  simpa [segmentLookupBefore, lookupBefore] using earlier

theorem transactions_ordered (index : Nat) (txs : List CTransaction) :
    txs.zipIdx.Pairwise fun first second =>
      ∀ early ∈ segmentLookups index first, ∀ late ∈ segmentLookups index second,
        segmentLookupBefore early late = true := by
  apply (pairwise_zipIdx _ _).imp
  intro first second earlier early earlyMem late lateMem
  obtain ⟨earlyBlock, earlyIndex, -⟩ := mem_segmentLookups.mp earlyMem
  obtain ⟨lateBlock, lateIndex, -⟩ := mem_segmentLookups.mp lateMem
  simp [segmentLookupBefore, lookupBefore, earlyBlock, lateBlock, earlyIndex, lateIndex, earlier]

theorem blockIndex_of_mem_segmentBlockLookups {block : SegmentBlockView × Nat}
    {lookup : SegmentSpentOutputLookup} (mem : lookup ∈ segmentBlockLookups block) :
    lookup.blockIndex = block.2 := by
  obtain ⟨tx, -, asked⟩ := mem_flatMap.mp mem
  exact (mem_segmentLookups.mp asked).1

theorem blocks_ordered (blocks : List SegmentBlockView) : blocks.zipIdx.Pairwise fun first second =>
      ∀ early ∈ segmentBlockLookups first, ∀ late ∈ segmentBlockLookups second,
        segmentLookupBefore early late = true := by
  apply (pairwise_zipIdx _ _).imp
  intro first second earlier early earlyMem late lateMem
  simp [segmentLookupBefore, blockIndex_of_mem_segmentBlockLookups earlyMem,
    blockIndex_of_mem_segmentBlockLookups lateMem, earlier]

theorem planShows_planTransaction (ctx : SegmentBlockContext) (index : Nat)
    (tx : CTransaction × Nat) :
    PlanShows snap id (fun state => state.planTransaction allCreatedOutputs ctx index tx)
      (fun ledger => replayTransaction isSpendable ctx index ledger tx)
      (segmentLookups index tx) := by
  have inputs : PlanShows snap id (fun state => (segmentLookups index tx).foldl
        (SegmentPlanning.planLookup allCreatedOutputs) state)
      (fun ledger => walkEach replayInput ledger (segmentLookups index tx))
      ((segmentLookups index tx).flatMap fun lookup => [lookup]) :=
    Collects.each (fun lookup _ => planShows_planLookup lookup) (segmentLookups_ordered index tx)
  rw [flatMap_singleton'] at inputs
  have sameReplay : (fun ledger => replayTransaction isSpendable ctx index ledger tx) =
      fun ledger => (walkEach replayInput ledger (segmentLookups index tx)).map fun spent =>
        (spent.1, tx.1.vout.zipIdx.foldl (replayOutput isSpendable ctx tx.1) spent.2) := by
    funext ledger
    rw [replayTransaction]
    cases walkEach replayInput ledger (segmentLookups index tx) <;> rfl
  rw [sameReplay]
  -- The outputs change what the state means, and no answer.
  apply inputs.reframe id (fun _ state => (segmentOutputs ctx index tx).foldl planOutput state)
    (fun ledger => tx.1.vout.zipIdx.foldl (replayOutput isSpendable ctx tx.1) ledger)
  · intro around
    rfl
  · intro around
    rfl
  · intro around state
    rw [id, view_foldl_planOutput, foldl_replayOutput, segmentOutputs_creates]
    rfl
  · intro around state
    rw [id, plan_foldl_planOutput]
    rfl

theorem planShows_planBlock (block : SegmentBlockView × Nat) : PlanShows snap Prod.fst
      (fun state => planBlock allCreatedOutputs state block)
      (fun ledger => replayBlock ledger isSpendable block) (segmentBlockLookups block) := by
  have txs : PlanShows snap id (fun state => block.1.transactions.zipIdx.foldl
        (planTransaction allCreatedOutputs block.1.context block.2) state)
      (fun ledger => replayBlock ledger isSpendable block) (segmentBlockLookups block) :=
    Collects.each (fun tx _ => planShows_planTransaction block.1.context block.2 tx)
      (transactions_ordered block.2 block.1.transactions)
  have sameReplay : (fun ledger => replayBlock ledger isSpendable block) =
      fun ledger => (replayBlock ledger isSpendable block).map fun res => (res.1, id res.2) := by
    funext ledger
    cases replayBlock ledger isSpendable block <;> rfl
  rw [sameReplay]
  apply txs.reframe (fun state => state.1.beginBlock state.2 block)
    (fun around state => (state, around.2 ∪ state.modifiedInBlock)) id
  · intro around
    exact view_beginBlock around.2 block
  · intro around
    exact entries_beginBlock around.2 block
  · intro around state
    rfl
  · intro around state
    rfl

theorem planShows_planSegment (snap : SegmentLedger)
    (allCreatedOutputs : List SegmentCreatedOutput) (blocks : List SegmentBlockView) :
    PlanShows snap Prod.fst (fun state => blocks.zipIdx.foldl (planBlock allCreatedOutputs) state)
      (fun ledger => replaySegment ledger isSpendable blocks) (segmentAllLookups blocks) :=
  Collects.each (fun block _ => planShows_planBlock block) (blocks_ordered blocks)

end Plan

/-! ## The join reports where the replay stops -/

section Failure

variable {snap : SegmentLedger} {blocks : List SegmentBlockView}

theorem segmentLookupBefore_asymm {first second : SegmentSpentOutputLookup}
    (earlier : segmentLookupBefore first second = true) :
    segmentLookupBefore second first = false := by
  simp only [segmentLookupBefore, lookupBefore, Bool.or_eq_true, Bool.and_eq_true,
    decide_eq_true_eq, beq_iff_eq] at earlier
  simp only [segmentLookupBefore, lookupBefore, Bool.or_eq_false_iff, Bool.and_eq_false_imp,
    decide_eq_false_iff_not, beq_iff_eq]
  omega

theorem segmentLookupBefore_irrefl (lookup : SegmentSpentOutputLookup) :
    segmentLookupBefore lookup lookup = false := by
  simp [segmentLookupBefore, lookupBefore]

theorem mem_failures {plan : SegmentSpendInputPlan} {lookup : SegmentSpentOutputLookup} :
    lookup ∈ (plan.failures snap).map Prod.snd ↔ (lookup, none) ∈ plan.entries snap := by
  rw [mem_entries]
  simp [failures, missingFailure, or_comm, eq_comm (a := none)]

variable {spendState : SegmentSpendBatchView}

theorem failedLookup_of_stops
    (answers : AnswersFrom snap spendState) {failed : SegmentSpentOutputLookup}
    (stopped : replaySegment snap isSpendable blocks = .error failed) :
    ∃ joined, joinSegmentSpentOutputs blocks (ofBatchView spendState) = .ok joined ∧
      joined.status ≠ .complete ∧ joined.failedLookup = some failed := by
  have shows := planShows_planSegment snap (extractSegmentCreatedOutputs blocks) blocks
  have nothingYet : ∀ entry, entry ∉ (start
      (extractSegmentCreatedOutputs blocks)).1.plan.entries snap := by
    simp [entries, start]
  have within : ∀ lookup ∈ (planSegmentSpendInputs blocks).externalLookups,
      lookup ∈ segmentAllLookups blocks := by
    intro lookup mem
    have entry : (lookup, snap lookup.lookup.outpoint) ∈
        (planSegmentSpendInputs blocks).entries snap :=
      mem_entries.mpr (Or.inl ⟨mem, rfl⟩)
    exact (shows.adds _ _ entry).resolve_left (nothingYet _)
  obtain ⟨coins, joins, -⟩ := joinSegmentSpentOutputs_eq answers within
  obtain ⟨-, noted, least⟩ := shows.stops (start (extractSegmentCreatedOutputs blocks)) failed stopped
  have kept : (keepFailures ((planSegmentSpendInputs blocks).failures snap) none).map Prod.snd =
      some failed := by
    apply foldl_keepFirstFailure (fun _ => segmentLookupBefore_asymm)
      (segmentLookupBefore_irrefl failed)
    · intro failure mem
      exact (least failure.2 (mem_failures.mp (mem_map_of_mem mem))).resolve_left (nothingYet _)
    · simp
    · exact Or.inl (mem_failures.mpr noted)
  refine ⟨_, joins, ?_⟩
  cases failure : keepFailures ((planSegmentSpendInputs blocks).failures snap) none with
  | none =>
    rw [failure] at kept
    cases kept
  | some first =>
    rw [failure] at kept
    exact ⟨keepFailures_status failures_status (by simp) first failure, kept⟩

theorem joinSegmentSpentOutputs_eq_complete
    (answers : AnswersFrom snap spendState) {joined : SegmentSpentOutputJoin} :
    (joinSegmentSpentOutputs blocks (ofBatchView spendState) =
        .ok joined ∧ joined.status = .complete) ↔
      ∃ coins final, replaySegment snap isSpendable blocks = .ok (coins, final) ∧
        joined = ⟨.complete, none, coins⟩ := by
  constructor
  · intro complete
    cases replayed : replaySegment snap isSpendable blocks with
    | error failed =>
      obtain ⟨other, joins, incomplete, -⟩ := failedLookup_of_stops answers replayed
      obtain rfl : joined = other := Except.ok.inj (complete.1.symm.trans joins)
      exact absurd complete.2 incomplete
    | ok res =>
      obtain ⟨nodup, grid, -⟩ := replayBlocks_eq_ok.mp replayed
      obtain ⟨found, sameGrid, rfl⟩ :=
        (joinSegmentSpentOutputs_complete_iff answers nodup).mp complete
      have same : res.1 = found := by
        have images := grid.symm.trans sameGrid
        rw [← map_getD_some res.1, images, map_getD_some]
      exact ⟨res.1, res.2, rfl, by rw [same]⟩
  · intro found
    obtain ⟨coins, final, replayed, rfl⟩ := found
    obtain ⟨nodup, grid, -⟩ := replayBlocks_eq_ok.mp replayed
    exact (joinSegmentSpentOutputs_complete_iff answers nodup).mpr ⟨coins, grid, rfl⟩

end Failure

/-- The join of a segment is its replay on the coin map: complete exactly when the replay
finds every coin, with the coins that the replay removes, and otherwise with the first
lookup that the replay misses. -/
theorem joinSegmentSpentOutputs_replay (snapshot : SegmentLedger) (blocks : List SegmentBlockView) :
    ∃ joined, joinSegmentSpentOutputs blocks (ofBatchView
        fun outpoints => .ok (outpoints.map snapshot)) = .ok joined ∧
      (joined.status = .complete ↔
        ∃ coins final, replaySegment snapshot isSpendable blocks = .ok (coins, final)) ∧
      (∀ coins final, replaySegment snapshot isSpendable blocks = .ok (coins, final) →
        joined.inputCoinsByBlock = coins) ∧
      ∀ failed, replaySegment snapshot isSpendable blocks = .error failed →
        joined.failedLookup = some failed := by
  have answers : AnswersFrom snapshot fun outpoints => .ok (outpoints.map snapshot) := fun _ => rfl
  cases replayed : replaySegment snapshot isSpendable blocks with
  | ok result =>
    have complete := (joinSegmentSpentOutputs_eq_complete answers).mpr
      ⟨result.1, result.2, replayed, rfl⟩
    refine ⟨_, complete.1, ⟨fun _ => ⟨result.1, result.2, rfl⟩, fun _ => rfl⟩, ?_, nofun⟩
    intro coins final same
    cases same
    rfl
  | error failed =>
    obtain ⟨joined, joins, incomplete, reported⟩ := failedLookup_of_stops answers replayed
    refine ⟨joined, joins, ⟨fun complete => absurd complete incomplete, nofun⟩, nofun, ?_⟩
    intro other same
    cases same
    exact reported

/-- A snapshot that holds the coin of the sample spend. -/
def sampleSnapshot : SegmentLedger :=
  fun outpoint => if outpoint = ⟨9, 0⟩ then some SegmentCoinSnapshot.unset else none

/-- A block that holds the sample spend twice. -/
def sampleDoubleSpend : SegmentBlockView :=
  ⟨⟨1, 0, 5, 0, ⟨0, 0, true⟩, 5000000000⟩, [sampleCoinbase, sampleSpend, sampleSpend]⟩

theorem joinSegmentSpentOutputs_replay_doubleSpend :
    replaySegment sampleSnapshot isSpendable [sampleDoubleSpend] = .error ⟨⟨⟨9, 0⟩, 2, 0⟩, 0⟩ ∧
      ∃ joined, joinSegmentSpentOutputs [sampleDoubleSpend] (ofBatchView
          fun outpoints => .ok (outpoints.map sampleSnapshot)) = .ok joined ∧
        joined.failedLookup = some ⟨⟨⟨9, 0⟩, 2, 0⟩, 0⟩ := by
  have stopped : replaySegment sampleSnapshot isSpendable [sampleDoubleSpend] =
      .error ⟨⟨⟨9, 0⟩, 2, 0⟩, 0⟩ := rfl
  obtain ⟨joined, joins, -, -, reports⟩ :=
    joinSegmentSpentOutputs_replay sampleSnapshot [sampleDoubleSpend]
  exact ⟨stopped, joined, joins, reports _ stopped⟩

/-- A block in which the output of the sample spend is `OP_RETURN`, and spent. -/
def sampleReturnSpend : SegmentBlockView :=
  ⟨⟨1, 0, 5, 0, ⟨0, 0, true⟩, 5000000000⟩,
    [sampleCoinbase, { sampleSpend with vout := [⟨10, [0x6a]⟩] }, sampleChild]⟩

/-- A replay in which each output creates its coin finds the unspendable one, and the join
does not. -/
theorem sampleReturnSpend_replayed_not_joined :
    (sampleReturnSpend.transactions.map CTransaction.hash).Nodup ∧
      (∃ result, replaySegment sampleSnapshot (fun _ => true) [sampleReturnSpend] = .ok result) ∧
      ∃ joined, joinSegmentSpentOutputs [sampleReturnSpend] (ofBatchView
          fun outpoints => .ok (outpoints.map sampleSnapshot)) = .ok joined ∧
        joined.status ≠ .complete ∧ joined.failedLookup = some ⟨⟨⟨8, 0⟩, 2, 0⟩, 0⟩ :=
  ⟨by decide, ⟨_, rfl⟩, _, rfl, by decide, rfl⟩

end Champy
