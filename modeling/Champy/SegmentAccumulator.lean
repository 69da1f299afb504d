import Champy.CompactTargets
import Champy.LedgerTotals
import Champy.SegmentSequential
import Mathlib.Data.BitVec

/-!
# The accumulator of a segment

`FinalizeSegmentSpend` feeds the outputs that a segment creates and those that it spends into
an accumulator.  `AdditiveSegmentAccumulator` adds the hashes of created coins to a number of
256 bits and subtracts those of spent coins.  For an accepted segment the number moves as the
sum over the set of unspent outputs does, if no outpoint is created while it is unspent.
-/

namespace Champy

open SegmentUtxoSnapshotBackend List SegmentBlockView Ledger

/-! ## The model -/

/-- `ArithToUint256`, with `WriteLE32` at every fourth byte. -/
def ArithUint256.arithToUint256 (a : ArithUint256) : Uint256 :=
  BitVec.ofNat 256 (readLE (a.words.flatMap fun word => writeLE 4 word.toNat))

open ArithUint256

structure SegmentChainstateArtifact where
  bestBlock : Uint256
  height : Int32
  accumulatorRoot : Uint256
  createdOutputs : Nat
  spentOutputs : Nat
  deriving DecidableEq, Repr

/-- The part of an artifact that does not count outputs. -/
def SegmentChainstateArtifact.tip (artifact : SegmentChainstateArtifact) :
    Uint256 × Uint256 × Int32 :=
  (artifact.accumulatorRoot, artifact.bestBlock, artifact.height)

/-- `SegmentAccumulator`: an interface to a state. -/
structure SegmentAccumulator (A : Type) where
  addCreatedOutput : A → SegmentCreatedOutput → A
  addSpentOutput : A → SegmentSpentOutputLookupResult → A
  root : A → Uint256

/-- `AdditiveSegmentAccumulator`, whose state is `m_sum`. -/
def additiveSegmentAccumulator (hashCoin : COutPoint → CoinSnapshot → Uint256) :
    SegmentAccumulator ArithUint256 where
  addCreatedOutput sum output :=
    sum.add (uintToArith256 (hashCoin output.outpoint output.coin))
  addSpentOutput sum input :=
    match input.coin with
    | none => sum
    | some coin =>
      sum.sub (uintToArith256 (hashCoin input.lookup.lookup.outpoint coin.coin))
  root := arithToUint256

/-- The artifact, and the accumulator as the call leaves it. -/
def finalizeSegmentSpend {A : Type} (accumulator : SegmentAccumulator A)
    (blocks : List SegmentBlockView) (summary : SegmentSpendSummary) (state : A) :
    SegmentChainstateArtifact × A :=
  let created := summary.createdOutputs.foldl accumulator.addCreatedOutput state
  let final := summary.spentOutputs.foldl accumulator.addSpentOutput created
  match blocks.getLast? with
  | none => (⟨0, -1, accumulator.root final, summary.createdOutputs.length,
      summary.spentOutputs.length⟩, final)
  | some lastBlock => (⟨lastBlock.context.hash, lastBlock.context.height, accumulator.root final,
      summary.createdOutputs.length, summary.spentOutputs.length⟩, final)

section Final

variable {A : Type} (accumulator : SegmentAccumulator A) {blocks : List SegmentBlockView}
  (summary : SegmentSpendSummary) (state : A)

theorem finalizeSegmentSpend_state : (finalizeSegmentSpend accumulator blocks summary state).2 =
      summary.spentOutputs.foldl accumulator.addSpentOutput
        (summary.createdOutputs.foldl accumulator.addCreatedOutput state) := by
  unfold finalizeSegmentSpend
  cases blocks.getLast? <;> rfl

theorem finalizeSegmentSpend_root :
    (finalizeSegmentSpend accumulator blocks summary state).1.accumulatorRoot =
      accumulator.root (finalizeSegmentSpend accumulator blocks summary state).2 := by
  unfold finalizeSegmentSpend
  cases blocks.getLast? <;> rfl

theorem finalizeSegmentSpend_tip {lastBlock : SegmentBlockView}
    (last : blocks.getLast? = some lastBlock) :
    (finalizeSegmentSpend accumulator blocks summary state).1.tip =
      (accumulator.root (finalizeSegmentSpend accumulator blocks summary state).2,
        lastBlock.context.hash, lastBlock.context.height) := by
  unfold finalizeSegmentSpend
  simp only [last]
  rfl

end Final

/-! ## Words and numbers of 256 bits -/

section Roots

theorem readLE_writeLE_append (width value : Nat) (rest : List UInt8)
    (bound : value < 256 ^ width) :
    readLE (writeLE width value ++ rest) = value + 256 ^ width * readLE rest := by
  induction width generalizing value with
  | zero =>
    have zero : value = 0 := by simpa using bound
    simp [writeLE, zero]
  | succ width ih =>
    have smaller : value / 256 < 256 ^ width := by
      rw [Nat.pow_succ'] at bound
      exact Nat.div_lt_of_lt_mul bound
    have power : (256 : Nat) ^ (width + 1) = 256 * 256 ^ width := Nat.pow_succ'
    have whole := Nat.mod_add_div value 256
    rw [writeLE, cons_append, readLE_cons, ih _ smaller, UInt8.toNat_ofNat', power,
      Nat.mul_add, Nat.mul_assoc]
    omega

theorem toNat_arithToUint256 (a : ArithUint256) : (arithToUint256 a).toNat = a.toNat := by
  have bytes : ∀ words : List UInt32,
      readLE (words.flatMap fun word => writeLE 4 word.toNat) = wordsToNat words := by
    intro words
    induction words with
    | nil => rfl
    | cons word words ih =>
      rw [flatMap_cons, readLE_writeLE_append 4 _ _ word.toNat_lt, ih, wordsToNat]
      rfl
  rw [arithToUint256, bytes, BitVec.toNat_ofNat]
  exact Nat.mod_eq_of_lt a.toNat_lt

@[simp]
theorem arithToUint256_uintToArith256 (a : Uint256) : arithToUint256 (uintToArith256 a) = a := by
  apply BitVec.eq_of_toNat_eq
  rw [toNat_arithToUint256, toNat_uintToArith256]

variable (first second : ArithUint256)

theorem arithToUint256_add :
    arithToUint256 (first.add second) = arithToUint256 first + arithToUint256 second := by
  apply BitVec.eq_of_toNat_eq
  rw [BitVec.toNat_add, toNat_arithToUint256, toNat_arithToUint256, toNat_arithToUint256,
    Words.toNat_add]

theorem arithToUint256_sub :
    arithToUint256 (first.sub second) = arithToUint256 first - arithToUint256 second := by
  apply BitVec.eq_of_toNat_eq
  rw [BitVec.toNat_sub, toNat_arithToUint256, toNat_arithToUint256, toNat_arithToUint256,
    Words.toNat_sub_mod, Nat.add_comm]

end Roots

/-! ## Acceptance, block by block -/

section Acceptance

variable {snapshot : SegmentLedger} {spendState : SegmentSpendBatchView}
  {blocks : List SegmentBlockView} {collection : ScriptCheckPlanCollection}

/-- The stage of a block with the coins of its own inputs. -/
def stageRows (collection : ScriptCheckPlanCollection)
    (input : SegmentBlockView × List (List SegmentCoinSnapshot)) :
    BlockSpendResult BlockSpendStageResult :=
  validateResolvedSegmentBlockSpend input.1 ⟨.complete, none, [input.2]⟩ 0 collection

/-- A block of a complete join needs only its own coins. -/
theorem stageRows_eq {block : SegmentBlockView}
    {found : SegmentInputCoins} {rows : List (List SegmentCoinSnapshot)}
    {index : Nat} (rowsFound : found[index]? = some rows) :
    validateResolvedSegmentBlockSpend block ⟨.complete, none, found⟩ index collection =
      stageRows collection (block, rows) := by
  simp only [stageRows, validateResolvedSegmentBlockSpend, rowsFound, getElem?_cons_zero,
    resolvedJoinError]

variable {first second : List SegmentBlockView}

theorem replaySegment_append {coins : SegmentInputCoins} {final : SegmentLedger}
    (replayed : replaySegment snapshot isSpendable (first ++ second) = .ok (coins, final)) :
    ∃ firstCoins secondCoins, coins = firstCoins ++ secondCoins ∧
      replaySegment snapshot isSpendable first =
        .ok (firstCoins, snapshot.afterAll (segmentTransfers first)) ∧
      replaySegment (snapshot.afterAll (segmentTransfers first)) isSpendable second =
        .ok (secondCoins, final) := by
  rw [replaySegment, zipIdx_append] at replayed
  obtain ⟨firstCoins, middle, secondCoins, replayedFirst, replayedSecond, coinsEq⟩ :=
    walkEach_append_eq_ok.mp replayed
  obtain ⟨nodup, grid, rfl⟩ := replayBlocks_eq_ok.mp replayedFirst
  exact ⟨firstCoins, secondCoins, coinsEq, replayedFirst,
    replayBlocks_eq_ok.mpr (replayBlocks_eq_ok.mp replayedSecond)⟩

theorem resolvedBlocks_append :
    resolvedBlocks snapshot (first ++ second) = resolvedBlocks snapshot first ++
      resolvedBlocks (snapshot.afterAll (segmentTransfers first)) second := by
  induction first generalizing snapshot with
  | nil => rfl
  | cons block first ih =>
    rw [cons_append, resolvedBlocks, resolvedBlocks, ih, afterAll_segmentTransfers_cons,
      cons_append]

theorem freeBlocks_append : FreeBlocks snapshot (first ++ second) ↔
      FreeBlocks snapshot first ∧ FreeBlocks (snapshot.afterAll (segmentTransfers first)) second := by
  induction first generalizing snapshot with
  | nil => exact iff_of_eq (true_and _).symm
  | cons block first ih =>
    rw [cons_append, FreeBlocks, FreeBlocks, ih, afterAll_segmentTransfers_cons, and_assoc]

/-- The parts of an accepted segment are accepted, the second one on the coins that the first
one leaves. -/
theorem validateSegmentSpend_append
    {laterState : SegmentSpendBatchView} (answers : AnswersFrom snapshot spendState)
    (answersLater : AnswersFrom (snapshot.afterAll (segmentTransfers first)) laterState)
    (checkOn : ∀ block ∈ first ++ second,
      block.context.spendOptions.checkNoUnspentOutputOverwrite = true)
    {validation : SegmentSpendValidation}
    (ok : validateSegmentSpend (first ++ second)
      (ofBatchView spendState) collection = .ok validation) :
    ∃ firstCoins secondCoins firstValidation secondValidation, validation.summary =
        segmentSpendSummary (first ++ second) ⟨.complete, none, firstCoins ++ secondCoins⟩ ∧
      resolvedBlocks snapshot first = firstCoins.map (map (map some)) ∧
      resolvedBlocks (snapshot.afterAll (segmentTransfers first)) second =
        secondCoins.map (map (map some)) ∧
      validateSegmentSpend first (ofBatchView spendState) collection = .ok firstValidation ∧
      firstValidation.summary = segmentSpendSummary first ⟨.complete, none, firstCoins⟩ ∧
      validateSegmentSpend second (ofBatchView laterState) collection = .ok secondValidation ∧
      secondValidation.summary = segmentSpendSummary second ⟨.complete, none, secondCoins⟩ := by
  obtain ⟨checkFirst, checkSecond⟩ := forall_mem_append.mp checkOn
  obtain ⟨free, coins, final, stages, replayed, staged, rfl⟩ :=
    (validateSegmentSpend_iff_replay answers checkOn fun _ _ => stageRows_eq).mp ok
  obtain ⟨freeFirst, freeSecond⟩ := freeBlocks_append.mp free
  obtain ⟨firstCoins, secondCoins, rfl, replayedFirst, replayedSecond⟩ :=
    replaySegment_append replayed
  have gridFirst := (replayBlocks_eq_ok.mp replayedFirst).2.1
  have gridSecond := (replayBlocks_eq_ok.mp replayedSecond).2.1
  rw [zip_append (length_of_grid gridFirst), mapM_append] at staged
  obtain ⟨firstStages, stagedFirst, staged⟩ := Exec.bind_eq_ok.mp staged
  obtain ⟨secondStages, stagedSecond, -⟩ := Exec.bind_eq_ok.mp staged
  exact ⟨firstCoins, secondCoins, _, _, rfl, gridFirst, gridSecond,
    (validateSegmentSpend_iff_replay answers checkFirst fun _ _ => stageRows_eq).mpr
      ⟨freeFirst, firstCoins, _, firstStages, replayedFirst, stagedFirst, rfl⟩, rfl,
    (validateSegmentSpend_iff_replay answersLater checkSecond fun _ _ => stageRows_eq).mpr
      ⟨freeSecond, secondCoins, final, secondStages, replayedSecond, stagedSecond, rfl⟩, rfl⟩

end Acceptance

/-! ## The summary, without the indices -/

section Summary

/-- The spent outputs that a summary lists for the blocks from one on. -/
def spentEntries (start : Nat) (blocks : List SegmentBlockView)
    (coins : SegmentInputCoins) :
    List (SegmentSpentOutputLookup × SegmentCoinSnapshot) :=
  ((blocks.zip coins).zipIdx start).flatMap fun block =>
    (block.1.1.transactions.zip block.1.2).zipIdx.flatMap fun tx =>
      (segmentLookups block.2 (tx.1.1, tx.2)).zip tx.1.2

/-- What a ledger gives up in a run of transfers. -/
def takenEntries (transfers : List (Transfer COutPoint SegmentCoinSnapshot))
    (taken : List (List SegmentCoinSnapshot)) : List (COutPoint × SegmentCoinSnapshot) :=
  (transfers.zip taken).flatMap fun row => row.1.spends.zip row.2

variable (blocks : List SegmentBlockView)

theorem segmentSpendSummary_spentOutputs (coins : SegmentInputCoins) :
    (segmentSpendSummary blocks ⟨.complete, none, coins⟩).spentOutputs =
      (spentEntries 0 blocks coins).map fun entry => ⟨entry.1, some entry.2⟩ := by
  simp [segmentSpendSummary, spentEntries, map_flatMap]

theorem flatMap_zipIdx {α β : Type} (items : List α) (start : Nat) (image : α → List β) :
    ((items.zipIdx start).flatMap fun item => image item.1) = items.flatMap image := by
  have firsts := congrArg (flatMap image) (zipIdx_map_fst start items)
  rwa [flatMap_map] at firsts

theorem extractSegmentCreatedOutputs_entries :
    (extractSegmentCreatedOutputs blocks).map (fun output => (output.outpoint, output.snapshot)) =
      created (segmentTransfers blocks) := by
  have blockOutputs : ∀ block : SegmentBlockView × Nat,
      (extractBlockCreatedOutputs block.1 block.2).map
        (fun output => (output.outpoint, output.snapshot)) =
        block.1.transfers.flatMap Transfer.creates := by
    intro block
    rw [extractBlockCreatedOutputs, map_flatMap, transfers, flatMap_map]
    simp only [segmentOutputs_creates]
    exact flatMap_zipIdx block.1.transactions 0 fun tx =>
      (segmentTransfer block.1.context tx).creates
  rw [extractSegmentCreatedOutputs, map_flatMap, created, segmentTransfers, flatMap_assoc]
  simp only [blockOutputs]
  exact flatMap_zipIdx blocks 0 fun block => block.transfers.flatMap Transfer.creates

theorem segmentLookups_zip (index : Nat) (tx : CTransaction × Nat)
    (row : List SegmentCoinSnapshot) :
    ((segmentLookups index tx).zip row).map (fun entry => (entry.1.lookup.outpoint, entry.2)) =
      tx.1.spentOutpoints.zip row := by
  rw [← segmentLookups_outpoints index tx, zip_map_left]
  rfl

theorem takenEntries_append {first second : List (Transfer COutPoint SegmentCoinSnapshot)}
    {taken later : List (List SegmentCoinSnapshot)} (lengths : first.length = taken.length) :
    takenEntries (first ++ second) (taken ++ later) =
      takenEntries first taken ++ takenEntries second later := by
  rw [takenEntries, zip_append lengths, flatMap_append]
  rfl

theorem spentEntries_eq {ledger : SegmentLedger}
    {blocks : List SegmentBlockView} {coins : SegmentInputCoins} (start : Nat)
    (grid : resolvedBlocks ledger blocks = coins.map (map (map some))) :
    (spentEntries start blocks coins).map (fun entry => (entry.1.lookup.outpoint, entry.2)) =
      takenEntries (segmentTransfers blocks) coins.flatten := by
  have rowEntries : ∀ block : (SegmentBlockView × List (List SegmentCoinSnapshot)) × Nat,
      (((block.1.1.transactions.zip block.1.2).zipIdx.flatMap fun tx =>
        (segmentLookups block.2 (tx.1.1, tx.2)).zip tx.1.2).map
          fun entry => (entry.1.lookup.outpoint, entry.2)) =
        takenEntries block.1.1.transfers block.1.2 := by
    intro block
    rw [map_flatMap, takenEntries, transfers, zip_map_left, flatMap_map]
    simp only [segmentLookups_zip]
    exact flatMap_zipIdx (block.1.1.transactions.zip block.1.2) 0 fun tx =>
      tx.1.spentOutpoints.zip tx.2
  rw [spentEntries, map_flatMap]
  simp only [rowEntries]
  rw [flatMap_zipIdx (blocks.zip coins) start fun block => takenEntries block.1.transfers block.2]
  induction blocks generalizing ledger coins with
  | nil => rfl
  | cons block blocks ih =>
    cases coins with
    | nil => cases grid
    | cons rows coins =>
      obtain ⟨rowsFound, foundRest⟩ := cons.inj grid
      have lengths : block.transfers.length = rows.length := by
        have lengths := congrArg length rowsFound
        rwa [length_resolved, length_map] at lengths
      rw [zip_cons_cons, flatMap_cons, ih foundRest, flatten_cons,
        segmentTransfers_cons, takenEntries_append lengths]

end Summary

/-! ## The root -/

section Root

variable (hashCoin : COutPoint → CoinSnapshot → Uint256)

def entryHash (entry : COutPoint × SegmentCoinSnapshot) : Uint256 :=
  hashCoin entry.1 entry.2.coin

theorem arithToUint256_created (outputs : List SegmentCreatedOutput) (sum : ArithUint256) :
    arithToUint256 (outputs.foldl (additiveSegmentAccumulator hashCoin).addCreatedOutput sum) =
      arithToUint256 sum + ((outputs.map fun output => (output.outpoint, output.snapshot)).map
        (entryHash hashCoin)).sum := by
  induction outputs generalizing sum with
  | nil => simp
  | cons output outputs ih =>
    rw [foldl_cons, ih, map_cons, map_cons, sum_cons, ← add_assoc]
    congr 1
    exact (arithToUint256_add _ _).trans (by rw [arithToUint256_uintToArith256]; rfl)

theorem arithToUint256_spent (entries : List (SegmentSpentOutputLookup × SegmentCoinSnapshot))
    (sum : ArithUint256) :
    arithToUint256 ((entries.map fun entry =>
        SegmentSpentOutputLookupResult.mk entry.1 (some entry.2)).foldl
          (additiveSegmentAccumulator hashCoin).addSpentOutput sum) =
      arithToUint256 sum - ((entries.map fun entry => (entry.1.lookup.outpoint, entry.2)).map
        (entryHash hashCoin)).sum := by
  induction entries generalizing sum with
  | nil => simp
  | cons entry entries ih =>
    rw [map_cons, foldl_cons, ih, map_cons, map_cons, sum_cons, ← sub_sub]
    congr 1
    exact (arithToUint256_sub _ _).trans (by rw [arithToUint256_uintToArith256]; rfl)

/-- The accumulator over a segment whose inputs took the given coins. -/
def finalizeCoins (blocks : List SegmentBlockView)
    (coins : SegmentInputCoins) (sum : ArithUint256) :
    SegmentChainstateArtifact × ArithUint256 :=
  finalizeSegmentSpend (additiveSegmentAccumulator hashCoin) blocks
    (segmentSpendSummary blocks ⟨.complete, none, coins⟩) sum

theorem root_finalizeCoins {ledger : SegmentLedger}
    {blocks : List SegmentBlockView} {coins : SegmentInputCoins}
    (checkOn : ∀ block ∈ blocks, block.context.spendOptions.checkNoUnspentOutputOverwrite = true)
    (grid : resolvedBlocks ledger blocks = coins.map (map (map some)))
    (sum : ArithUint256) :
    arithToUint256 (finalizeCoins hashCoin blocks coins sum).2 = arithToUint256 sum +
          ((created (segmentTransfers blocks)).map (entryHash hashCoin)).sum -
        ((takenEntries (segmentTransfers blocks) coins.flatten).map (entryHash hashCoin)).sum := by
  have created : (segmentSpendSummary blocks ⟨.complete, none, coins⟩).createdOutputs =
      extractSegmentCreatedOutputs blocks := (planSegmentSpendInputs_created checkOn).1
  rw [finalizeCoins, finalizeSegmentSpend_state, segmentSpendSummary_spentOutputs, created,
    arithToUint256_spent, spentEntries_eq 0 grid, arithToUint256_created, extractSegmentCreatedOutputs_entries]

end Root

/-! ## The set of unspent outputs -/

section Utxo

variable {ledger : SegmentLedger} {blocks : List SegmentBlockView}
  {coins : SegmentInputCoins}

theorem createdKeys_segmentTransfer (context : SegmentBlockContext) (tx : CTransaction) :
    (segmentTransfer context tx).createdKeys = spendableOutpoints tx := by
  rw [Transfer.createdKeys, ← segmentOutputs_creates context 0 (tx, 0), map_map,
    ← segmentOutputs_outpoints context 0 (tx, 0)]
  rfl

/-- The blocks of an accepted segment overwrite nothing if they are structurally valid and
distinct transactions of a block have distinct txids. -/
theorem run_segmentTransfers (free : FreeBlocks ledger blocks)
    (valid : ∀ block ∈ blocks, StructurallyValid block.transactions)
    (distinct : ∀ block ∈ blocks, DistinctTxids block.transactions)
    (grid : resolvedBlocks ledger blocks = coins.map (map (map some))) :
    ledger.run (segmentTransfers blocks) =
      some (coins.flatten, ledger.afterAll (segmentTransfers blocks)) := by
  induction blocks generalizing ledger coins with
  | nil =>
    rw [eq_nil_of_map_eq_nil grid.symm]
    rfl
  | cons block blocks ih =>
    cases coins with
    | nil => cases grid
    | cons rows coins =>
      obtain ⟨rowsFound, foundRest⟩ := cons.inj grid
      obtain ⟨distinctNow, distinctLater⟩ := forall_mem_cons.mp distinct
      obtain ⟨validNow, validLater⟩ := forall_mem_cons.mp valid
      have coherent : Ledger.Coherent ledger block.transfers :=
        coherent_of_structurallyValid (fun _ => rfl)
          (createdKeys_segmentTransfer block.context) validNow distinctNow free.1
      have spends : ∀ transfer ∈ block.transfers, transfer.spends.Nodup :=
        forall_mem_map.mpr fun tx mem => spentOutpoints_nodup (validNow.checked tx mem)
      have ranNow := (run_iff_resolved coherent spends).mpr ⟨rowsFound, rfl⟩
      rw [segmentTransfers_cons, flatten_cons, ← segmentTransfers_cons,
        afterAll_segmentTransfers_cons, segmentTransfers_cons]
      exact run_append ranNow (ih free.2 validLater distinctLater foundRest)

theorem resolved_segmentTransfers (ledger : SegmentLedger) (blocks : List SegmentBlockView) :
    ledger.resolved (segmentTransfers blocks) = (resolvedBlocks ledger blocks).flatten := by
  induction blocks generalizing ledger with
  | nil => rfl
  | cons block blocks ih =>
    rw [segmentTransfers_cons, resolved_append, ih, resolvedBlocks, flatten_cons]

theorem length_segmentTransfers (grid : resolvedBlocks ledger blocks = coins.map (map (map some))) :
    (segmentTransfers blocks).length = coins.flatten.length := by
  rw [← length_resolved ledger, resolved_segmentTransfers, grid, ← map_flatten, length_map]

end Utxo

section Finalize

variable (hashCoin : COutPoint → CoinSnapshot → Uint256)
  (utxo : FinMap COutPoint SegmentCoinSnapshot)

/-- A batch view of a set of unspent outputs. -/
def utxoBatchView : SegmentSpendBatchView :=
  fun outpoints => .ok (outpoints.map utxo.toLedger)

def utxoHash : Uint256 :=
  utxo.totalEntries (entryHash hashCoin)

def utxoAfter (blocks : List SegmentBlockView) : FinMap COutPoint SegmentCoinSnapshot :=
  utxo.afterTransfers (segmentTransfers blocks)

theorem root_eq_utxoHash {utxo : FinMap COutPoint SegmentCoinSnapshot}
    {blocks : List SegmentBlockView} {coins : SegmentInputCoins}
    {final : SegmentLedger}
    (checkOn : ∀ block ∈ blocks, block.context.spendOptions.checkNoUnspentOutputOverwrite = true)
    (grid : resolvedBlocks utxo.toLedger blocks = coins.map (map (map some)))
    (ran : utxo.toLedger.run (segmentTransfers blocks) = some (coins.flatten, final))
    (sum : ArithUint256) :
    (finalizeCoins hashCoin blocks coins sum).1.accumulatorRoot -
        (additiveSegmentAccumulator hashCoin).root sum =
      utxoHash hashCoin (utxoAfter utxo blocks) - utxoHash hashCoin utxo := by
  have moved : ((takenEntries (segmentTransfers blocks) coins.flatten).map
        (entryHash hashCoin)).sum + utxoHash hashCoin (utxoAfter utxo blocks) =
      ((created (segmentTransfers blocks)).map (entryHash hashCoin)).sum + utxoHash hashCoin utxo :=
    FinMap.totalEntries_of_run (entryHash hashCoin) ran
  have root : (finalizeCoins hashCoin blocks coins sum).1.accumulatorRoot = _ :=
    (finalizeSegmentSpend_root ..).trans (root_finalizeCoins hashCoin checkOn grid sum)
  have start : (additiveSegmentAccumulator hashCoin).root sum = arithToUint256 sum := rfl
  rw [root, start, add_sub_assoc, add_sub_cancel_left, sub_eq_sub_iff_add_eq_add, ← moved, add_comm]

theorem tip_append {ledger : SegmentLedger} {first second : List SegmentBlockView}
    {firstCoins secondCoins : SegmentInputCoins}
    (checkOn : ∀ block ∈ first ++ second,
      block.context.spendOptions.checkNoUnspentOutputOverwrite = true)
    (gridFirst : resolvedBlocks ledger first = firstCoins.map (map (map some)))
    (gridSecond : resolvedBlocks (ledger.afterAll (segmentTransfers first)) second =
      secondCoins.map (map (map some))) (nonempty : second ≠ []) (sum : ArithUint256) :
    (finalizeCoins hashCoin second secondCoins
        (finalizeCoins hashCoin first firstCoins sum).2).1.tip =
      (finalizeCoins hashCoin (first ++ second) (firstCoins ++ secondCoins) sum).1.tip := by
  obtain ⟨checkFirst, checkSecond⟩ := forall_mem_append.mp checkOn
  have gridWhole : resolvedBlocks ledger (first ++ second) =
      (firstCoins ++ secondCoins).map (map (map some)) := by
    rw [resolvedBlocks_append, gridFirst, gridSecond, map_append]
  have lastBlock : (first ++ second).getLast? = some (second.getLast nonempty) := by
    rw [getLast?_append_of_ne_nil first nonempty, getLast?_eq_some_getLast nonempty]
  have sameRoot : arithToUint256 (finalizeCoins hashCoin second secondCoins
        (finalizeCoins hashCoin first firstCoins sum).2).2 =
      arithToUint256
        (finalizeCoins hashCoin (first ++ second) (firstCoins ++ secondCoins) sum).2 := by
    rw [root_finalizeCoins hashCoin checkSecond gridSecond,
      root_finalizeCoins hashCoin checkFirst gridFirst,
      root_finalizeCoins hashCoin checkOn gridWhole, segmentTransfers_append,
      created_append, flatten_append,
      takenEntries_append (length_segmentTransfers gridFirst), map_append, map_append,
      sum_append, sum_append]
    abel
  refine (finalizeSegmentSpend_tip _ _ _ (getLast?_eq_some_getLast nonempty)).trans
    (Eq.trans ?_ (finalizeSegmentSpend_tip _ _ _ lastBlock).symm)
  exact congrArg (fun root => (root, _, _)) sameRoot

/-- The root of an accepted segment moves as the sum of the hashes of the unspent outputs
does, if no outpoint is created while it is unspent; structurally valid blocks create none so.
Two parts of a segment, finalized one after the other, end with the root, block and height of
the whole. -/
theorem finalizeSegmentSpend_tracks_utxo (hashSegmentCoin : COutPoint → CoinSnapshot → Uint256)
    {utxo : FinMap COutPoint SegmentCoinSnapshot} {blocks : List SegmentBlockView}
    {collection : ScriptCheckPlanCollection} {validation : SegmentSpendValidation}
    (checkOn : ∀ block ∈ blocks, block.context.spendOptions.checkNoUnspentOutputOverwrite = true)
    (accepted : validateSegmentSpend blocks
      (ofBatchView (utxoBatchView utxo)) collection = .ok validation)
    (sum : ArithUint256) :
    (utxo.toLedger.OverwritesNothing (segmentTransfers blocks) →
      (finalizeSegmentSpend (additiveSegmentAccumulator hashSegmentCoin) blocks
          validation.summary sum).1.accumulatorRoot -
          (additiveSegmentAccumulator hashSegmentCoin).root sum =
        utxoHash hashSegmentCoin (utxoAfter utxo blocks) - utxoHash hashSegmentCoin utxo) ∧
    ((∀ block ∈ blocks, StructurallyValid block.transactions) →
      (∀ block ∈ blocks, DistinctTxids block.transactions) →
      utxo.toLedger.OverwritesNothing (segmentTransfers blocks)) ∧
    ∀ first second, blocks = first ++ second → second ≠ [] → ∃ firstValidation secondValidation,
        validateSegmentSpend first
          (ofBatchView (utxoBatchView utxo)) collection = .ok firstValidation ∧
        validateSegmentSpend second (ofBatchView
          (utxoBatchView (utxoAfter utxo first))) collection = .ok secondValidation ∧
        (finalizeSegmentSpend (additiveSegmentAccumulator hashSegmentCoin) second
          secondValidation.summary
          (finalizeSegmentSpend (additiveSegmentAccumulator hashSegmentCoin) first
            firstValidation.summary sum).2).1.tip =
          (finalizeSegmentSpend (additiveSegmentAccumulator hashSegmentCoin) blocks
            validation.summary sum).1.tip := by
  have answers : AnswersFrom utxo.toLedger (utxoBatchView utxo) := fun _ => rfl
  have parts := (validateSegmentSpend_iff_replay answers checkOn fun _ _ => stageRows_eq).mp accepted
  refine ⟨?_, ?_, ?_⟩
  · intro free
    obtain ⟨-, coins, final, stages, replayed, -, rfl⟩ := parts
    obtain ⟨nodup, grid, -⟩ := replayBlocks_eq_ok.mp replayed
    have spends : ∀ transfer ∈ segmentTransfers blocks, transfer.spends.Nodup := by
      intro transfer mem
      obtain ⟨block, blockMem, mem⟩ := mem_flatMap.mp mem
      obtain ⟨tx, txMem, rfl⟩ := mem_map.mp mem
      exact nodup block blockMem tx txMem
    refine root_eq_utxoHash hashSegmentCoin checkOn grid (free.run_eq_some spends ?_) sum
    rw [resolved_segmentTransfers, grid, map_flatten]
  · intro valid distinct
    obtain ⟨free, coins, final, stages, replayed, -, -⟩ := parts
    exact overwritesNothing_of_run (run_segmentTransfers free valid distinct
      (replayBlocks_eq_ok.mp replayed).2.1)
  · intro first second split nonempty
    subst split
    have answersLater : AnswersFrom (utxo.toLedger.afterAll (segmentTransfers first))
        (utxoBatchView (utxoAfter utxo first)) := by
      intro outpoints
      rw [utxoBatchView, utxoAfter, FinMap.toLedger_afterTransfers]
    obtain ⟨firstCoins, secondCoins, firstValidation, secondValidation, wholeSummary, gridFirst,
      gridSecond, acceptedFirst, firstSummary, acceptedSecond, secondSummary⟩ :=
      validateSegmentSpend_append answers answersLater checkOn accepted
    refine ⟨firstValidation, secondValidation, acceptedFirst, acceptedSecond, ?_⟩
    rw [wholeSummary, firstSummary, secondSummary]
    exact tip_append hashSegmentCoin checkOn gridFirst gridSecond nonempty sum

/-- A set with the coin that the sample spend takes. -/
def sampleUtxo : FinMap COutPoint SegmentCoinSnapshot :=
  Finmap.singleton ⟨9, 0⟩ ⟨⟨⟨10, [0x51]⟩, 1, false⟩, 0⟩

theorem finalizeSegmentSpend_tracks_utxo_sampleSources :
    ∃ validation, validateSegmentSpend (sampleSources.map CBlock.segmentView)
        (ofBatchView (utxoBatchView sampleUtxo)) .collect = .ok validation ∧
      (finalizeSegmentSpend (additiveSegmentAccumulator fun outpoint _ => outpoint.hash)
          (sampleSources.map CBlock.segmentView) validation.summary
            (uintToArith256 0)).1.accumulatorRoot -
          (additiveSegmentAccumulator fun outpoint _ => outpoint.hash).root (uintToArith256 0) =
        utxoHash (fun outpoint _ => outpoint.hash)
            (utxoAfter sampleUtxo (sampleSources.map CBlock.segmentView)) -
          utxoHash (fun outpoint _ => outpoint.hash) sampleUtxo := by
  obtain ⟨validation, accepted⟩ : ∃ validation,
      validateSegmentSpend (sampleSources.map CBlock.segmentView)
        (ofBatchView (utxoBatchView sampleUtxo)) .collect = .ok validation := ⟨_, rfl⟩
  have valid : ∀ block ∈ sampleSources.map CBlock.segmentView,
      StructurallyValid block.transactions := by
    refine forall_mem_map.mpr fun source mem => ?_
    obtain ⟨options, structural⟩ := sampleSources_accepted source mem
    exact structurallyValid_of_stage structural
  have distinct : ∀ block ∈ sampleSources.map CBlock.segmentView,
      DistinctTxids block.transactions := by
    simp only [DistinctTxids]
    decide
  obtain ⟨tracks, overwrites, -⟩ := finalizeSegmentSpend_tracks_utxo
    (fun outpoint _ => outpoint.hash) (by decide) accepted (uintToArith256 0)
  exact ⟨validation, accepted, tracks (overwrites valid distinct)⟩

/-- A block at height 5 that holds its coinbase twice. -/
def sampleRepeatedCoinbase : SegmentBlockView :=
  ⟨⟨1, 0, 5, 0, ⟨0, 0, true⟩, 5000000000⟩, [sampleCoinbase, sampleCoinbase]⟩

/-- A block may hold its coinbase twice.  Both outputs are added, and the set of unspent
outputs has one of them. -/
theorem finalizeSegmentSpend_counts_repeated_coinbase :
    ∃ validation, validateSegmentSpend [sampleRepeatedCoinbase]
        (ofBatchView (utxoBatchView ∅)) .collect = .ok validation ∧
      sampleRepeatedCoinbase.context.spendOptions.checkNoUnspentOutputOverwrite = true ∧
      (finalizeSegmentSpend (additiveSegmentAccumulator fun _ _ => 1)
          [sampleRepeatedCoinbase] validation.summary
          (uintToArith256 0)).1.accumulatorRoot -
          (additiveSegmentAccumulator fun _ _ => 1).root (uintToArith256 0) = 2 ∧
      utxoHash (fun _ _ => 1) (utxoAfter ∅ [sampleRepeatedCoinbase]) -
        utxoHash (fun _ _ => 1) ∅ = 1 := by
  refine ⟨_, rfl, rfl, ?_, ?_⟩
  · decide +kernel
  · decide +kernel

end Finalize

end Champy
