import Champy.GridWrites
import Champy.SegmentOverwriteCheck

/-!
# The join of a segment

`JoinSegmentSpentOutputs` writes the coin of each input to its place: those that the
snapshot answered, and those that an earlier transaction of the segment created.  The
join is complete exactly when every input finds a coin on the ledger at its turn, and
then these are the coins in the grid.
-/

namespace Champy

open SegmentCoinSnapshot SegmentUtxoSnapshotBackend List Option SegmentSpendInputPlan
  SegmentSpentOutputLookup

/-! ## The shape of the answers -/

variable (ledger : SegmentLedger)

theorem length_resolvedBlocks
    (blocks : List SegmentBlockView) : (resolvedBlocks ledger blocks).length = blocks.length := by
  induction blocks generalizing ledger with
  | nil => rfl
  | cons block blocks ih => rw [resolvedBlocks, length_cons, length_cons, ih]

variable {blocks : List SegmentBlockView}

theorem length_of_grid {ledger : SegmentLedger} {found : SegmentInputCoins}
    (grid : resolvedBlocks ledger blocks = found.map (map (map some))) :
    blocks.length = found.length := by
  rw [← length_resolvedBlocks ledger blocks, grid, length_map]

variable {block : SegmentBlockView}

theorem getElem?_resolvedBlocks {index : Nat} (found : blocks[index]? = some block) :
    ∃ before : SegmentLedger,
      (resolvedBlocks ledger blocks)[index]? = some (before.resolved block.transfers) := by
  induction blocks generalizing ledger index with
  | nil => cases found
  | cons first blocks ih =>
    cases index with
    | zero =>
      cases found
      exact ⟨ledger, rfl⟩
    | succ index => exact ih _ found

theorem getElem?_transfers {index : Nat} {tx : CTransaction}
    (found : block.transactions[index]? = some tx) :
    block.transfers[index]? = some (segmentTransfer block.context tx) := by
  rw [SegmentBlockView.transfers, getElem?_map, found]
  rfl

section Grid

variable {snap : SegmentLedger} {blocks : List SegmentBlockView}

theorem mem_segmentAllLookups {lookup : SegmentSpentOutputLookup} :
    lookup ∈ segmentAllLookups blocks ↔ ∃ block tx, blocks[lookup.blockIndex]? = some block ∧
        block.transactions[lookup.lookup.transactionIndex]? = some tx ∧
        tx.spentOutpoints[lookup.lookup.inputIndex]? = some lookup.lookup.outpoint := by
  constructor
  · intro mem
    obtain ⟨⟨block, index⟩, blockMem, mem⟩ := mem_flatMap.mp mem
    obtain ⟨⟨tx, transactionIndex⟩, txMem, mem⟩ := mem_flatMap.mp mem
    obtain ⟨rfl, rfl, found⟩ := SegmentPlanning.mem_segmentLookups.mp mem
    exact ⟨block, tx, mem_zipIdx_iff_getElem?.mp blockMem, mem_zipIdx_iff_getElem?.mp txMem, found⟩
  · rintro ⟨block, tx, blockFound, txFound, found⟩
    refine mem_flatMap.mpr ⟨(block, lookup.blockIndex), mem_zipIdx_iff_getElem?.mpr blockFound, ?_⟩
    exact mem_flatMap.mpr ⟨(tx, lookup.lookup.transactionIndex),
      mem_zipIdx_iff_getElem?.mpr txFound,
      SegmentPlanning.mem_segmentLookups.mpr ⟨rfl, rfl, found⟩⟩

theorem mapIdx_eq_map_answers {β : Type} (cell : Nat × Nat × Nat → COutPoint → β)
    (read : Option SegmentCoinSnapshot → β)
    (agree : ∀ lookup ∈ segmentAllLookups blocks, cell lookup.place lookup.lookup.outpoint =
        read (answerAt (resolvedBlocks snap blocks) lookup.place)) :
    (blocks.mapIdx fun index block => block.transactions.mapIdx fun transactionIndex tx =>
      tx.spentOutpoints.mapIdx fun inputIndex point =>
        cell (index, transactionIndex, inputIndex) point) =
      (resolvedBlocks snap blocks).map (map (map read)) := by
  apply mapIdx_eq_map_of_length (length_resolvedBlocks snap blocks).symm
  intro index block rows blockFound rowsFound
  obtain ⟨before, rowsEq⟩ := getElem?_resolvedBlocks snap blockFound
  obtain rfl := Option.some.inj (rowsFound.symm.trans rowsEq)
  apply mapIdx_eq_map_of_length
  · rw [Ledger.length_resolved, SegmentBlockView.transfers, length_map]
  intro transactionIndex tx row txFound rowFound
  apply mapIdx_eq_map_of_length (Ledger.resolved_row (getElem?_transfers txFound) rowFound).symm
  intro inputIndex point answer outpointFound answerFound
  have mem : ⟨⟨point, transactionIndex, inputIndex⟩, index⟩ ∈ segmentAllLookups blocks :=
    mem_segmentAllLookups.mpr ⟨block, tx, blockFound, txFound, outpointFound⟩
  have answerEq : answerAt (resolvedBlocks snap blocks)
      (index, transactionIndex, inputIndex) = answer := by
    rw [answerAt, rowsFound, bind_some, rowFound, bind_some, answerFound]
    rfl
  rw [← answerEq]
  exact agree _ mem

end Grid

/-! ## The loops -/

noncomputable abbrev segmentCells :
    CellAccess SegmentInputCoins (Nat × Nat × Nat) SegmentCoinSnapshot :=
  CellAccess.row.rows.rows

theorem lookupWithinSegment_of_mem
    {lookup : SegmentSpentOutputLookup} (mem : lookup ∈ segmentAllLookups blocks) :
    lookupWithinSegment blocks lookup = true := by
  obtain ⟨block, tx, blockFound, txFound, found⟩ := mem_segmentAllLookups.mp mem
  have bound := (List.getElem?_eq_some_iff.mp found).1
  rw [lookupWithinSegment, blockFound, bind_some, txFound, any_some]
  cases coinbase : tx.isCoinBase with
  | true =>
    rw [spentOutpoints_of_coinBase coinbase] at bound
    exact absurd bound (Nat.not_lt_zero _)
  | false =>
    rw [spentOutpoints_of_notCoinBase coinbase, length_map] at bound
    simpa using bound

/-- The failure that a missing answer reports. -/
def missingFailure (plan : SegmentSpendInputPlan) (lookup : SegmentSpentOutputLookup) :
    SegmentJoinFailure :=
  (if lookupHasInvalidOrderDependency lookup plan.invalidOrderDependencies then
    .invalidSpendOrder else .missingOrSpent, lookup)

/-- All failures of a plan, in the order in which the join meets them. -/
def SegmentSpendInputPlan.failures (snapshot : SegmentLedger)
    (plan : SegmentSpendInputPlan) : List SegmentJoinFailure :=
  plan.duplicateSpends.map (fun duplicate => (.duplicateSpend, duplicate)) ++
    (plan.externalLookups.filter fun lookup => (snapshot lookup.lookup.outpoint).isNone).map
      (missingFailure plan)

/-- The failure that is left of a list of them. -/
def keepFailures (failures : List SegmentJoinFailure) (kept : Option SegmentJoinFailure) :
    Option SegmentJoinFailure :=
  failures.foldl (fun kept next => updateSegmentFailure next.1 next.2 kept) kept

section Failures

variable {failures : List SegmentJoinFailure} {kept : Option SegmentJoinFailure}

theorem keepFailures_eq_none : keepFailures failures kept = none ↔ kept = none ∧ failures = [] := by
  induction failures generalizing kept with
  | nil => simp [keepFailures]
  | cons next failures ih => exact ih.trans (by simp [updateSegmentFailure])

theorem keepFailures_status (each : ∀ failure ∈ failures, failure.1 ≠ .complete)
    (before : ∀ pending, kept = some pending → pending.1 ≠ .complete) :
    ∀ res, keepFailures failures kept = some res → res.1 ≠ .complete := by
  induction failures generalizing kept with
  | nil => exact before
  | cons next failures ih =>
    rw [forall_mem_cons] at each
    exact ih each.2 (keepFirstFailure_status each.1 before)

theorem failures_status {snap : SegmentLedger}
    {plan : SegmentSpendInputPlan} : ∀ failure ∈ plan.failures snap, failure.1 ≠ .complete := by
  intro failure mem
  rcases mem_append.mp mem with duplicate | missing
  · obtain ⟨_, -, rfl⟩ := mem_map.mp duplicate
    nofun
  · obtain ⟨_, -, rfl⟩ := mem_map.mp missing
    rw [missingFailure]
    split <;> nofun

end Failures

section Externals

variable {blocks : List SegmentBlockView}

theorem joinSegmentExternal_of_mem {plan : SegmentSpendInputPlan}
    {lookup : SegmentSpentOutputLookup} (mem : lookup ∈ segmentAllLookups blocks)
    (pending : PendingSegmentJoin) (coin : Option SegmentCoinSnapshot) :
    joinSegmentExternal blocks plan pending (⟨lookup, coin⟩, lookup) =
      match coin with
      | none => .ok ⟨updateSegmentFailure (missingFailure plan lookup).1 lookup pending.failure,
          pending.inputCoins⟩
      | some coin =>
        .ok ⟨pending.failure, segmentCells.write pending.inputCoins lookup.place coin⟩ := by
  have same : (sameLookup lookup lookup && lookupWithinSegment blocks lookup) = true := by
    simp [sameLookup, lookupWithinSegment_of_mem mem]
  unfold joinSegmentExternal
  simp only [same, if_true]
  cases coin <;> rfl

/-- All answers: the join goes on with the failures of missing coins, and if there are none each
coin is in its place. -/
theorem foldlM_joinSegmentExternal (snap : SegmentLedger)
    (plan : SegmentSpendInputPlan) {lookups : List SegmentSpentOutputLookup}
    (within : ∀ lookup ∈ lookups, lookup ∈ segmentAllLookups blocks)
    (pending : PendingSegmentJoin) :
    ∃ res, (lookups.map fun lookup => (SegmentSpentOutputLookupResult.mk lookup
        (snap lookup.lookup.outpoint), lookup)).foldlM (joinSegmentExternal blocks plan)
          pending = .ok res ∧
      res.failure = keepFailures ((lookups.filter fun lookup =>
        (snap lookup.lookup.outpoint).isNone).map (missingFailure plan)) pending.failure ∧
      ((∀ lookup ∈ lookups, snap lookup.lookup.outpoint ≠ none) →
        res.inputCoins = lookups.foldl (fun grid lookup => segmentCells.write grid lookup.place
          ((snap lookup.lookup.outpoint).getD .unset)) pending.inputCoins) := by
  induction lookups generalizing pending with
  | nil => exact ⟨pending, rfl, rfl, fun _ => rfl⟩
  | cons lookup lookups ih =>
    rw [forall_mem_cons] at within
    rw [map_cons, foldlM_cons, joinSegmentExternal_of_mem within.1]
    cases answer : snap lookup.lookup.outpoint with
    | none =>
      obtain ⟨res, looped, failureEq, -⟩ := ih within.2
        ⟨updateSegmentFailure (missingFailure plan lookup).1 lookup pending.failure,
          pending.inputCoins⟩
      refine ⟨res, looped, ?_, fun allFound => absurd answer (allFound lookup mem_cons_self)⟩
      rw [failureEq]
      simp [answer, keepFailures, missingFailure]
    | some coin =>
      obtain ⟨res, looped, failureEq, coinsEq⟩ := ih within.2
        ⟨pending.failure, segmentCells.write pending.inputCoins lookup.place coin⟩
      refine ⟨res, looped, ?_, ?_⟩
      · rw [failureEq]
        simp [answer]
      · intro allFound
        rw [forall_mem_cons] at allFound
        rw [coinsEq allFound.2, foldl_cons, answer]
        rfl

end Externals

/-! ## The join -/

section Join

variable {snap : SegmentLedger} {spendState : SegmentSpendBatchView}
  {blocks : List SegmentBlockView}

theorem lookupSegmentSpentOutputs_eq (answers : AnswersFrom snap spendState)
    (lookups : List SegmentSpentOutputLookup) :
    lookupSegmentSpentOutputs lookups spendState =
      .ok (lookups.map fun lookup => ⟨lookup, snap lookup.lookup.outpoint⟩) := by
  rw [lookupSegmentSpentOutputs, answers]
  simp [Exec.assertThat, List.map_map, zip_map_self, Function.comp_def]

/-- Whether every input of a segment finds a coin. -/
def AllFound (snapshot : SegmentLedger) (blocks : List SegmentBlockView) :
    Prop :=
  ∀ lookup ∈ segmentAllLookups blocks, answerAt (resolvedBlocks snapshot blocks) lookup.place ≠ none

variable {plan : SegmentSpendInputPlan}

section Sorted

variable (sorted : Answers snap (resolvedBlocks snap blocks) (segmentAllLookups blocks) plan)

include sorted

variable {lookup : SegmentSpentOutputLookup}

theorem Answers.external (mem : lookup ∈ plan.externalLookups) :
    lookup ∈ segmentAllLookups blocks ∧ snap lookup.lookup.outpoint =
      answerAt (resolvedBlocks snap blocks) lookup.place :=
  (sorted lookup _).mp (mem_entries.mpr (Or.inl ⟨mem, rfl⟩))

theorem Answers.failures_eq_nil : plan.failures snap = [] ↔ AllFound snap blocks := by
  simp only [SegmentSpendInputPlan.failures, append_eq_nil_iff, map_eq_nil_iff,
    filter_eq_nil_iff, isNone_iff_eq_none]
  constructor
  · rintro ⟨noDuplicates, external⟩ lookup mem
    rcases mem_entries.mp ((sorted lookup _).mpr ⟨mem, rfl⟩) with
      ⟨found, answer⟩ | ⟨edge, -, -, answer⟩ | ⟨duplicate, -⟩
    · rw [answer]
      exact external lookup found
    · rw [answer]
      exact some_ne_none _
    · rw [noDuplicates] at duplicate
      cases duplicate
  · intro allFound
    constructor
    · apply eq_nil_iff_forall_not_mem.mpr
      intro lookup mem
      obtain ⟨seen, answer⟩ := (sorted lookup none).mp
        (mem_entries.mpr (Or.inr (Or.inr ⟨mem, rfl⟩)))
      exact allFound lookup seen answer.symm
    · intro lookup mem
      obtain ⟨seen, answer⟩ := sorted.external mem
      rw [answer]
      exact allFound lookup seen

/-- Every input that finds a coin is at the place of a lookup or of a dependency. -/
theorem Answers.place_mem (allFound : AllFound snap blocks)
    (mem : lookup ∈ segmentAllLookups blocks) :
    lookup.place ∈ plan.externalLookups.map place ∨
      lookup.place ∈ plan.intraSegmentDependencies.map fun edge =>
        edge.lookup.place := by
  rcases mem_entries.mp ((sorted lookup _).mpr ⟨mem, rfl⟩) with
    ⟨found, -⟩ | ⟨edge, dependencyMem, rfl, -⟩ | ⟨-, missing⟩
  · exact Or.inl (mem_map_of_mem found)
  · exact Or.inr (mem_map.mpr ⟨edge, dependencyMem, rfl⟩)
  · exact absurd missing (allFound lookup mem)

end Sorted

open Classical in
theorem fill_emptySegmentInputs (read : Option SegmentCoinSnapshot → SegmentCoinSnapshot)
    {written : Nat × Nat × Nat → Prop}
    (everyPlace : ∀ lookup ∈ segmentAllLookups blocks, written lookup.place) :
    segmentCells.fill (fun place => read (answerAt (resolvedBlocks snap blocks) place)) written
        (emptySegmentInputs blocks) =
      (resolvedBlocks snap blocks).map (map (map read)) := by
  rw [emptySegmentInputs]
  simp only [CellAccess.rows, CellAccess.row, mapIdx_map]
  apply mapIdx_eq_map_answers (fun place _ => if written place then
    read (answerAt (resolvedBlocks snap blocks) place) else unset) read
  intro lookup mem
  exact if_pos (everyPlace lookup mem)

theorem joinWrites_eq
    (sorted : Answers snap (resolvedBlocks snap blocks) (segmentAllLookups blocks) plan)
    (allFound : AllFound snap blocks) :
    plan.intraSegmentDependencies.foldl joinSegmentDependency
        (plan.externalLookups.foldl (fun grid lookup => segmentCells.write grid lookup.place
          ((snap lookup.lookup.outpoint).getD .unset)) (emptySegmentInputs blocks)) =
      (resolvedBlocks snap blocks).map (map (map fun answer =>
        answer.getD unset)) := by
  -- Each write puts the answer of the ledger at its place.
  let values : Nat × Nat × Nat → SegmentCoinSnapshot := fun place =>
    (answerAt (resolvedBlocks snap blocks) place).getD .unset
  have externals : ∀ lookup ∈ plan.externalLookups,
      (snap lookup.lookup.outpoint).getD .unset = values lookup.place := by
    intro lookup mem
    rw [(sorted.external mem).2]
  have dependencies : ∀ edge ∈ plan.intraSegmentDependencies,
      edge.createdOutput.snapshot = values edge.lookup.place := by
    intro edge mem
    have answer := ((sorted edge.lookup _).mp (mem_entries.mpr
      (Or.inr (Or.inl ⟨edge, mem, rfl, rfl⟩)))).2
    change _ = (answerAt (resolvedBlocks snap blocks) edge.lookup.place).getD .unset
    rw [← answer]
    rfl
  have externalWrites := segmentCells.foldl_write plan.externalLookups
    place (fun lookup => (snap lookup.lookup.outpoint).getD .unset)
    externals
  have dependencyWrites := segmentCells.foldl_write plan.intraSegmentDependencies
    (fun edge => edge.lookup.place)
    (fun edge => edge.createdOutput.snapshot) dependencies
  refine (dependencyWrites _).trans ?_
  rw [externalWrites, segmentCells.fill_fill]
  exact fill_emptySegmentInputs (fun answer => answer.getD .unset) fun _ =>
    sorted.place_mem allFound

theorem entry_of_mem (snap : SegmentLedger)
    {lookup : SegmentSpentOutputLookup} (mem : lookup ∈ segmentAllLookups blocks) :
    ∃ rows row answer, (resolvedBlocks snap blocks)[lookup.blockIndex]? = some rows ∧
      rows[lookup.lookup.transactionIndex]? = some row ∧
      row[lookup.lookup.inputIndex]? = some answer ∧
      answerAt (resolvedBlocks snap blocks) lookup.place = answer := by
  obtain ⟨block, tx, blockFound, txFound, outpointFound⟩ := mem_segmentAllLookups.mp mem
  obtain ⟨before, rowsFound⟩ := getElem?_resolvedBlocks snap blockFound
  obtain ⟨now, rowFound⟩ := before.getElem?_resolved (getElem?_transfers txFound)
  have answerFound : ((segmentTransfer block.context tx).spends.map now)[lookup.lookup.inputIndex]? =
      some (now lookup.lookup.outpoint) :=
    (getElem?_map ..).trans (congrArg _ outpointFound)
  refine ⟨_, _, _, rowsFound, rowFound, answerFound, ?_⟩
  rw [answerAt, place, rowsFound, bind_some, rowFound, bind_some, answerFound, join_some]

theorem allFound_iff : AllFound snap blocks ↔ ∃ found : SegmentInputCoins,
        resolvedBlocks snap blocks = found.map (map (map some)) := by
  constructor
  · intro allFound
    refine ⟨(resolvedBlocks snap blocks).map (map (map fun answer =>
      answer.getD unset)), ?_⟩
    -- The grid is read off twice from its own answers, as they are and as coins.
    let answer : Nat × Nat × Nat → COutPoint → Option SegmentCoinSnapshot :=
      fun place _ => answerAt (resolvedBlocks snap blocks) place
    have asIs : _ = (resolvedBlocks snap blocks).map (map (map id)) :=
      mapIdx_eq_map_answers answer id fun _ _ => rfl
    have agree : ∀ lookup ∈ segmentAllLookups blocks, answer lookup.place lookup.lookup.outpoint =
          some ((answerAt (resolvedBlocks snap blocks) lookup.place).getD unset) := by
      intro lookup mem
      obtain ⟨coin, found⟩ := ne_none_iff_exists'.mp (allFound lookup mem)
      change answerAt (resolvedBlocks snap blocks) lookup.place = _
      rw [found, getD_some]
    have asCoins := mapIdx_eq_map_answers answer (fun answer => some (answer.getD unset)) agree
    have same := asIs.symm.trans asCoins
    simpa [List.map_map, Function.comp_def] using same
  · rintro ⟨found, grid⟩ lookup mem
    obtain ⟨rows, row, answer, rowsFound, rowFound, answerFound, answerEq⟩ := entry_of_mem snap mem
    rw [answerEq]
    rw [grid, getElem?_map, map_eq_some_iff] at rowsFound
    obtain ⟨coinRows, -, rfl⟩ := rowsFound
    rw [getElem?_map, map_eq_some_iff] at rowFound
    obtain ⟨coins, -, rfl⟩ := rowFound
    rw [getElem?_map, map_eq_some_iff] at answerFound
    obtain ⟨coin, -, rfl⟩ := answerFound
    exact some_ne_none _

theorem joinSegmentSpentOutputs_eq (answers : AnswersFrom snap spendState)
    (within : ∀ lookup ∈ (planSegmentSpendInputs blocks).externalLookups,
      lookup ∈ segmentAllLookups blocks) :
    ∃ coins, joinSegmentSpentOutputs blocks (ofBatchView spendState) =
        .ok ((keepFailures ((planSegmentSpendInputs blocks).failures snap) none).elim
          ⟨.complete, none, coins⟩ fun failure => ⟨failure.1, some failure.2, coins⟩) ∧
      ((∀ lookup ∈ (planSegmentSpendInputs blocks).externalLookups,
          snap lookup.lookup.outpoint ≠ none) →
        coins = (planSegmentSpendInputs blocks).intraSegmentDependencies.foldl
          joinSegmentDependency ((planSegmentSpendInputs blocks).externalLookups.foldl
            (fun grid lookup => segmentCells.write grid lookup.place
              ((snap lookup.lookup.outpoint).getD .unset)) (emptySegmentInputs blocks))) := by
  obtain ⟨pending, looped, failureEq, coinsEq⟩ :=
    foldlM_joinSegmentExternal snap (planSegmentSpendInputs blocks) within
      ⟨(planSegmentSpendInputs blocks).duplicateSpends.foldl (fun failure duplicate =>
        updateSegmentFailure .duplicateSpend duplicate failure) none, emptySegmentInputs blocks⟩
  have allFailures : pending.failure =
      keepFailures ((planSegmentSpendInputs blocks).failures snap) none := by
    rw [failureEq, SegmentSpendInputPlan.failures, keepFailures, keepFailures, foldl_append,
      foldl_map (l := (planSegmentSpendInputs blocks).duplicateSpends)]
  refine ⟨(planSegmentSpendInputs blocks).intraSegmentDependencies.foldl joinSegmentDependency
    pending.inputCoins, ?_, fun allFound => by rw [coinsEq allFound]⟩
  rw [joinSegmentSpentOutputs, ofBatchView, ← allFailures]
  simp only [lookupSegmentSpentOutputs_eq answers, Exec.ok_bind, Exec.pure_eq_ok,
    joinSegmentSpentOutputsFromExternalLookups, length_map, ne_eq, not_true_eq_false,
    if_false, map_zip_self, looped]
  cases pending.failure <;> rfl

/-- The join is complete exactly when every input finds a coin, and then these are the coins in
the grid. -/
theorem joinSegmentSpentOutputs_spec (answers : AnswersFrom snap spendState)
    (nodup : ∀ block ∈ blocks, ∀ tx ∈ block.transactions, tx.spentOutpoints.Nodup) :
    ∃ joined, joinSegmentSpentOutputs blocks (ofBatchView spendState) = .ok joined ∧
      (joined.status = .complete ↔ AllFound snap blocks) ∧
      (AllFound snap blocks → joined = ⟨.complete, none,
        (resolvedBlocks snap blocks).map (map (map fun answer =>
          answer.getD unset))⟩) := by
  have sorted := answers_planSegmentSpendInputs snap nodup
  obtain ⟨coins, joins, coinsEq⟩ :=
    joinSegmentSpentOutputs_eq answers fun lookup mem => (sorted.external mem).1
  have noFailure : keepFailures ((planSegmentSpendInputs blocks).failures snap) none = none ↔
      AllFound snap blocks := by
    rw [keepFailures_eq_none, ← sorted.failures_eq_nil]
    simp
  refine ⟨_, joins, ?_, ?_⟩
  · rw [← noFailure]
    cases failed : keepFailures ((planSegmentSpendInputs blocks).failures snap) none with
    | none => simp
    | some failure => simpa using keepFailures_status failures_status (by simp) failure failed
  · intro allFound
    rw [noFailure.mpr allFound, elim_none, ← joinWrites_eq sorted allFound, coinsEq]
    intro lookup mem
    obtain ⟨seen, answer⟩ := sorted.external mem
    rw [answer]
    exact allFound lookup seen

theorem map_getD_some (found : SegmentInputCoins) :
    (found.map (map (map some))).map (map (map fun answer =>
      answer.getD unset)) = found := by
  simp [List.map_map, Function.comp_def]

theorem joinSegmentSpentOutputs_complete_iff (answers : AnswersFrom snap spendState)
    (nodup : ∀ block ∈ blocks, ∀ tx ∈ block.transactions, tx.spentOutpoints.Nodup)
    {joined : SegmentSpentOutputJoin} :
    (joinSegmentSpentOutputs blocks (ofBatchView spendState) =
        .ok joined ∧ joined.status = .complete) ↔
      ∃ found, resolvedBlocks snap blocks = found.map (map (map some)) ∧
        joined = ⟨.complete, none, found⟩ := by
  obtain ⟨res, joins, completeIff, completeEq⟩ := joinSegmentSpentOutputs_spec answers nodup
  constructor
  · rintro ⟨joined', complete⟩
    obtain rfl : res = joined := Except.ok.inj (joins.symm.trans joined')
    have allFound := completeIff.mp complete
    obtain ⟨found, grid⟩ := allFound_iff.mp allFound
    refine ⟨found, grid, ?_⟩
    rw [completeEq allFound, grid, map_getD_some]
  · rintro ⟨found, grid, rfl⟩
    have allFound := allFound_iff.mpr ⟨found, grid⟩
    rw [joins, completeEq allFound, grid, map_getD_some]
    exact ⟨rfl, rfl⟩

end Join

end Champy
