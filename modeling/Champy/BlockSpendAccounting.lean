import Champy.CoinSourceFailures
import Champy.TransactionChecksAgreement

/-!
# The accounts of an accepted block

`assess_block_spends` reads coins from a source and from the outputs that earlier
transactions of the block created, and keeps a tracker of what the block has spent and
created.  When it accepts, the report balances: nothing is spent twice, every spent output
is a coin of the source or of an earlier transaction, and the fees are the exact difference
of what the block takes and gives.  The assertions of the tracker never fail.
-/

namespace Champy

open List

namespace Validation

open Protocol Exec

/-! ## The facts of a transaction -/

def outputTotal (tx : Transaction) : Int :=
  (tx.outputs.map fun output => output.value.toInt).sum

/-- What the facts of an intrinsically valid transaction say, whatever the limits are. -/
structure FactsOf (doubleSha256 : ByteHash) (tx : Transaction)
    (facts : TransactionFacts) : Prop where
  id_eq : facts.id = tx.id doubleSha256
  outputValue_eq : facts.outputValue.toInt = outputTotal tx
  kind_eq : facts.kind = if isCoinbase tx then .coinbase else .ordinary
  inputs_nodup : (tx.inputs.map TxInput.previousOutput).Nodup

theorem foldlM_addOutputValue_total {maxMoney start total : Int64} {outputs : List TxOutput}
    (added : outputs.foldlM (addOutputValue maxMoney) start = .ok total) :
    total.toInt = start.toInt + (outputs.map fun output => output.value.toInt).sum := by
  induction outputs generalizing start with
  | nil =>
    cases added
    rw [map_nil, sum_nil, Int.add_zero]
  | cons output outputs ih =>
    obtain ⟨next, first, rest⟩ := bind_eq_ok.mp added
    simp only [addOutputValue, require, bind_eq_ok, ensure_eq_ok, exists_const] at first
    obtain ⟨-, -, room, -, -, sum⟩ := first
    rw [ih rest, addInt64_eq_ok.mp sum, map_cons, sum_cons, Int.add_assoc]

variable {doubleSha256 : ByteHash}

theorem factsOf_assessTransactionIntrinsic
    {tx : Transaction} {context : TransactionContext} {facts : TransactionFacts}
    (ran : assessTransactionIntrinsic doubleSha256 tx context = .ok facts) :
    FactsOf doubleSha256 tx facts := by
  simp only [assessTransactionIntrinsic, require, bind_eq_ok, ensure_eq_ok,
    exists_const, pure_eq_ok, Except.ok.injEq] at ran
  obtain ⟨-, -, -, outputSum, summed, unique, rules, -, rfl⟩ := ran
  refine ⟨rfl, ?_, rfl, ?_⟩
  · exact (foldlM_addOutputValue_total summed).trans (Int.zero_add _)
  · rw [Bool.not_eq_true'] at unique
    exact (hasDuplicateInputs_eq_false_iff tx).mp unique

theorem factsOf_assessBlockIntrinsic {candidate : Block}
    {context : BlockLocalContext} {facts : BlockFacts}
    (ran : assessBlockIntrinsic doubleSha256 candidate context = .ok facts) :
    List.Forall₂ (FactsOf doubleSha256) candidate.transactions facts.transactions ∧
      ∃ coinbase later, candidate.transactions = coinbase :: later ∧ isCoinbase coinbase = true ∧
        ∀ tx ∈ later, isCoinbase tx = false := by
  simp only [assessBlockIntrinsic, require, bind_eq_ok, ensure_eq_ok, exists_const,
    pure_eq_ok, Except.ok.injEq] at ran
  obtain ⟨-, -, -, -, first, others, transactionFacts, mapped, -, rfl⟩ := ran
  refine ⟨?_, ?_⟩
  · exact forall₂_of_mapM_eq_ok (fun _ _ => factsOf_assessTransactionIntrinsic) mapped
  · cases transactionsEq : candidate.transactions with
    | nil =>
      rw [transactionsEq] at first
      cases first
    | cons coinbase later =>
      rw [transactionsEq] at first others
      refine ⟨coinbase, later, rfl, first, ?_⟩
      intro tx mem
      have notCoinbase := all_eq_true.mp others tx mem
      rwa [Bool.not_eq_true'] at notCoinbase

/-! ## The tracker -/

/-- A tracker that has marked the given points and holds the given outputs. -/
structure TrackerOf (points : List COutPoint) (outputs : List CreatedOutput)
    (tracker : BlockSpendTracker) : Prop where
  spent_iff : ∀ point, point ∈ tracker.spentPoints ↔ point ∈ points
  outputs_eq : tracker.created.map CreatedEntry.output = outputs
  indexed : ∀ point index, tracker.createdByPoint.lookup point = some index →
    ∃ output, outputs[index]? = some output ∧ output.point = point

theorem trackerOf_empty : TrackerOf [] [] BlockSpendTracker.empty := by
  refine ⟨fun _ => Iff.rfl, rfl, ?_⟩
  intro point index found
  cases found

/-- Where the coin of an input comes from. -/
inductive SourcedFrom (coins : CoinSource) (outputs : List CreatedOutput) (point : COutPoint) :
    Coin × SpendSource → Prop
  | coinIndex {coin : Coin} (found : coins point = .found coin) :
      SourcedFrom coins outputs point (coin, .coinIndex)
  | createdOutput {index : Nat} {output : CreatedOutput} (found : outputs[index]? = some output)
      (point_eq : output.point = point) :
      SourcedFrom coins outputs point (BlockSpendTracker.coinOf output, .createdOutput index)

section Tracker

variable {coins : CoinSource} {points : List COutPoint} {outputs : List CreatedOutput}
  {tracker : BlockSpendTracker}

section Tracks

variable (tracks : TrackerOf points outputs tracker)

include tracks

theorem TrackerOf.spent_eq (point : COutPoint) : tracker.spent point = decide (point ∈ points) := by
  rw [BlockSpendTracker.spent, contains_eq_mem, decide_eq_decide]
  exact tracks.spent_iff point

variable {point : COutPoint}

theorem TrackerOf.findUnspentCreated {created : Nat × Coin}
    (found : tracker.findUnspentCreated point = some created) :
    ∃ output, outputs[created.1]? = some output ∧ output.point = point ∧
      created.2 = BlockSpendTracker.coinOf output := by
  unfold BlockSpendTracker.findUnspentCreated at found
  cases indexEq : tracker.createdByPoint.lookup point with
  | none =>
    rw [indexEq] at found
    cases found
  | some index =>
    obtain ⟨output, outputEq, pointEq⟩ := tracks.indexed point index indexEq
    have entryEq := outputEq
    rw [← tracks.outputs_eq, getElem?_map, Option.map_eq_some_iff] at entryEq
    obtain ⟨entry, entryFound, rfl⟩ := entryEq
    simp only [indexEq, entryFound] at found
    split at found
    · cases found
    · cases found
      exact ⟨entry.output, outputEq, pointEq, rfl⟩

variable {input : Coin × SpendSource}

theorem findInputCoin_sourced (found : findInputCoin coins tracker point = .ok input) :
    point ∉ points ∧ SourcedFrom coins outputs point input := by
  simp only [findInputCoin, require, bind_eq_ok, ensure_eq_ok, exists_const] at found
  obtain ⟨notSpent, chosen⟩ := found
  rw [tracks.spent_eq, Bool.not_eq_true', decide_eq_false_iff_not] at notSpent
  refine ⟨notSpent, ?_⟩
  cases overlaid : tracker.findUnspentCreated point with
  | some created =>
    simp only [overlaid] at chosen
    cases chosen
    obtain ⟨output, outputEq, pointEq, coinEq⟩ := tracks.findUnspentCreated overlaid
    rw [coinEq]
    exact .createdOutput outputEq pointEq
  | none =>
    simp only [overlaid, bind_eq_ok] at chosen
    obtain ⟨answer, looked, ret⟩ := chosen
    cases answer with
    | none => cases ret
    | some coin =>
      cases ret
      apply SourcedFrom.coinIndex
      unfold lookupCoin at looked
      split at looked <;> cases looked
      assumption

/-- The assertions hold for a point that is not marked and a source that was found. -/
theorem markSpent_tracks
    (sourced : SourcedFrom coins outputs point input) (notSpent : point ∉ points) :
    ∃ after, tracker.markSpent point input.2 = .ok after ∧
      TrackerOf (points ++ [point]) outputs after := by
  have unmarked : (!tracker.spent point) = true := by
    rw [tracks.spent_eq, Bool.not_eq_true', decide_eq_false_iff_not]
    exact notSpent
  have marked : ∀ other, other ∈ point :: tracker.spentPoints ↔ other ∈ points ++ [point] := by
    intro other
    rw [mem_cons, tracks.spent_iff, mem_append, mem_singleton, or_comm]
  cases sourced with
  | coinIndex found =>
    refine ⟨⟨tracker.created, tracker.createdByPoint, point :: tracker.spentPoints⟩, ?_, marked,
      tracks.outputs_eq, tracks.indexed⟩
    exact bind_eq_ok.mpr ⟨(), assertThat_eq_ok.mpr unmarked, rfl⟩
  | @createdOutput index output found pointEq =>
    have inRange : index < tracker.created.length := by
      have bound := (List.getElem?_eq_some_iff.mp found).1
      rwa [← tracks.outputs_eq, length_map] at bound
    refine ⟨⟨tracker.created.modify index fun entry => ⟨entry.output, true⟩,
      tracker.createdByPoint, point :: tracker.spentPoints⟩, ?_, marked, ?_, tracks.indexed⟩
    · refine bind_eq_ok.mpr ⟨(), assertThat_eq_ok.mpr unmarked, ?_⟩
      exact bind_eq_ok.mpr ⟨(), assertThat_eq_ok.mpr (decide_eq_true inRange), rfl⟩
    · rw [← tracks.outputs_eq]
      apply ext_getElem?
      intro pos
      rw [getElem?_map, getElem?_map, getElem?_modify]
      cases tracker.created[pos]? with
      | none => rfl
      | some entry => by_cases here : index = pos <;> simp [here]

theorem markInputsSpent_tracks {inputs : List TxInput} {found : List (Coin × SpendSource)}
    (sourced : List.Forall₂ (fun input => SourcedFrom coins outputs input.previousOutput) inputs
      found) (nodup : (points ++ inputs.map TxInput.previousOutput).Nodup) :
    ∃ after, markInputsSpent tracker (inputs.zip (found.map Prod.snd)) = .ok after ∧
      TrackerOf (points ++ inputs.map TxInput.previousOutput) outputs after := by
  induction sourced generalizing points tracker with
  | nil => exact ⟨tracker, rfl, by rwa [map_nil, append_nil]⟩
  | @cons input source inputs found first rest ih =>
    have splits : points ++ (input :: inputs).map TxInput.previousOutput =
        (points ++ [input.previousOutput]) ++ inputs.map TxInput.previousOutput := by
      rw [map_cons, append_assoc, singleton_append]
    rw [splits] at nodup ⊢
    have notSpent : input.previousOutput ∉ points := by
      intro mem
      have disjoint := (nodup_append.mp (nodup_append.mp nodup).1).2.2
      exact disjoint _ mem _ (mem_singleton_self _) rfl
    obtain ⟨next, marked, nextTracks⟩ := markSpent_tracks tracks first notSpent
    obtain ⟨after, markedRest, afterTracks⟩ := ih nextTracks nodup
    refine ⟨after, ?_, afterTracks⟩
    exact bind_eq_ok.mpr ⟨next, marked, markedRest⟩

theorem addCreated_tracks {output : CreatedOutput} {after : BlockSpendTracker}
    (added : tracker.addCreated output = some after) :
    TrackerOf points (outputs ++ [output]) after := by
  unfold BlockSpendTracker.addCreated at added
  split at added
  · cases added
  · cases added
    refine ⟨tracks.spent_iff, ?_, ?_⟩
    · rw [map_append, tracks.outputs_eq]
      rfl
    · intro point index found
      have length : tracker.created.length = outputs.length := by
        rw [← tracks.outputs_eq, length_map]
      by_cases same : point = output.point
      · subst same
        change (tracker.createdByPoint.insert output.point _).lookup output.point = _ at found
        rw [Finmap.lookup_insert] at found
        cases found
        exact ⟨output, by rw [length, getElem?_concat_length], rfl⟩
      · change (tracker.createdByPoint.insert output.point _).lookup point = _ at found
        rw [Finmap.lookup_insert_of_ne _ same] at found
        obtain ⟨earlier, earlierEq, pointEq⟩ := tracks.indexed point index found
        have inRange := (List.getElem?_eq_some_iff.mp earlierEq).1
        exact ⟨earlier, by rw [getElem?_append_left inRange, earlierEq], pointEq⟩

end Tracks

end Tracker

/-! ## Assertions -/

def NotAssertion {ε : Type} (failure : Failure ε) : Prop :=
  failure ≠ .fault .assertion

section Assertions

variable {ε : Type}

@[simp]
theorem notAssertion_reject (error : ε) : NotAssertion (.reject error) :=
  nofun

@[simp]
theorem noAssertion_require (cond : Bool) (rule : RuleId) (reason : String) :
    FailsOnly NotAssertion (require cond rule reason) := by
  simp [require]

theorem noAssertion_checkedInt64 (value : Int) :
    FailsOnly NotAssertion (checkedInt64 value : Exec ε Int64) := by
  simp [checkedInt64, abort, NotAssertion]

variable (first second : Int64)

@[simp]
theorem noAssertion_addInt64 : FailsOnly NotAssertion (addInt64 first second : Exec ε Int64) :=
  noAssertion_checkedInt64 _

@[simp]
theorem noAssertion_subInt64 : FailsOnly NotAssertion (subInt64 first second : Exec ε Int64) :=
  noAssertion_checkedInt64 _

variable (doubleSha256 : ByteHash) (coins : CoinSource) (tx : Transaction)

@[simp]
theorem noAssertion_assessTransactionIntrinsic (context : TransactionContext) :
    FailsOnly NotAssertion (assessTransactionIntrinsic doubleSha256 tx context) := by
  have round : ∀ (sum : Int64) (output : TxOutput),
      FailsOnly NotAssertion (addOutputValue context.limits.maxMoney sum output) := by
    simp [addOutputValue]
  simp [assessTransactionIntrinsic, requireInputRules, failsOnly_foldlM round]

@[simp]
theorem noAssertion_assessBlockIntrinsic (candidate : Block) (context : BlockLocalContext) :
    FailsOnly NotAssertion (assessBlockIntrinsic doubleSha256 candidate context) := by
  simp [assessBlockIntrinsic, failsOnly_mapM]

@[simp]
theorem noAssertion_sequenceLocksSatisfied (context : SpendContext) (coins : List Coin) :
    FailsOnly NotAssertion (sequenceLocksSatisfied tx context coins) := by
  have round : ∀ minimum input, FailsOnly NotAssertion
      (Bitcoin.minimumSequenceLock minimum input : VerifyResult (Int64 × Int64)) := by
    simp [Bitcoin.minimumSequenceLock, lastInvalidInt64]
  simp [sequenceLocksSatisfied, Bitcoin.sequenceLocksSatisfied, failsOnly_foldlM round]

@[simp]
theorem noAssertion_lookupCoin (point : COutPoint) :
    FailsOnly NotAssertion (lookupCoin coins point) := by
  unfold lookupCoin
  split <;> simp [reject]

theorem noAssertion_findInputCoin (overlay : BlockSpendTracker) (point : COutPoint) :
    FailsOnly NotAssertion (findInputCoin coins overlay point) := by
  unfold findInputCoin
  cases overlay.findUnspentCreated point with
  | some created => simp
  | none =>
    simp only [failsOnly_bind, noAssertion_require, noAssertion_lookupCoin, true_and]
    intro _ _ answer _
    cases answer <;> simp [invalid, reject]

@[simp]
theorem noAssertion_assessTransactionSpendsWithCoins
    (facts : TransactionFacts) (context : SpendContext) (coins : List Coin) :
    FailsOnly NotAssertion (assessTransactionSpendsWithCoins tx facts context coins) := by
  have round : ∀ (sum : Int64) (coin : Coin),
      FailsOnly NotAssertion (addInputCoin context sum coin) := by
    simp [addInputCoin]
  simp [assessTransactionSpendsWithCoins, failsOnly_foldlM round]

@[simp]
theorem noAssertion_verifyTransactionScripts (interpreter : ScriptInterpreter) (tx : Transaction)
    (spend : SpendContext) (scripts : ScriptContext) (coins : List Coin) :
    FailsOnly NotAssertion
      (verifyTransactionScripts doubleSha256 interpreter tx spend scripts coins) := by
  have script : ∀ res, FailsOnly NotAssertion (requireScript res) := by
    intro res
    cases res <;> simp [requireScript, invalid, reject]
  have loop : ∀ (indices : List Nat) (check : Nat → ScriptExecutionResult),
      FailsOnly NotAssertion (indices.forM fun index => requireScript (check index)) := by
    intro indices check
    induction indices with
    | nil => exact .ok
    | cons index indices ih => exact (script _).bind fun _ => ih
  apply (noAssertion_assessTransactionIntrinsic doubleSha256 tx _).bind fun facts => ?_
  split
  · exact .ok
  · apply (noAssertion_assessTransactionSpendsWithCoins _ _ _ _).bind fun _ => ?_
    exact (loop _ _).bind fun _ => .ok

@[simp]
theorem noAssertion_addSigopCost (maxSigopCost sigopCost transactionCost : Nat) :
    FailsOnly NotAssertion (addSigopCost maxSigopCost sigopCost transactionCost) := by
  simp [addSigopCost]

theorem noAssertion_createOutput (context : BlockSpendContext) (facts : TransactionFacts)
    (progress : SpendProgress) (output : TxOutput × Nat) :
    FailsOnly NotAssertion (createOutput coins context facts progress output) := by
  have overwrite : ∀ (enforced : Bool) (overlay : BlockSpendTracker) (point : COutPoint),
      FailsOnly NotAssertion (requireNoOverwrite coins enforced overlay point) := by
    simp [requireNoOverwrite]
  apply (overwrite _ _ _).bind fun _ => ?_
  split <;> simp [invalid, reject]

end Assertions

/-! ## The accounts -/

section Accounts

variable (doubleSha256 : ByteHash) (coins : CoinSource) (context : BlockSpendContext)

/-- The point and coin of an output of a transaction of the block. -/
def CreatedBy (creator : Transaction) (point : COutPoint) (coin : Coin) : Prop :=
  ∃ index output, creator.outputs[index]? = some output ∧
    point = ⟨creator.id doubleSha256, UInt32.ofNat index⟩ ∧
    coin = ⟨output, context.spend.height, isCoinbase creator, context.spend.previousMedianTimePast⟩

/-- The outputs that a transaction spends: those of its inputs, each a coin of the source or
an output of an earlier transaction. -/
structure SpentBy (earlier : List Transaction) (tx : Transaction) (row : List SpentOutput) :
    Prop where
  points_eq : row.map SpentOutput.point =
    if isCoinbase tx then [] else tx.inputs.map TxInput.previousOutput
  sourced : ∀ spent ∈ row, coins spent.point = .found spent.previousCoin ∨
    ∃ creator ∈ earlier, CreatedBy doubleSha256 context creator spent.point spent.previousCoin

/-- The outputs that each transaction of a list spends. -/
structure SpentRows (transactions : List Transaction) (rows : List (List SpentOutput)) : Prop where
  length_eq : rows.length = transactions.length
  spent : ∀ index tx row, transactions[index]? = some tx → rows[index]? = some row →
    SpentBy doubleSha256 coins context (transactions.take index) tx row

def spentTotal (spentOutputs : List SpentOutput) : Int :=
  (spentOutputs.map fun spent => spent.previousCoin.output.value.toInt).sum

/-- The signature operations of each transaction with the coins that it spends. -/
def sigopTotal (flags : ScriptVerifyFlags) (transactions : List Transaction)
    (rows : List (List SpentOutput)) : Nat :=
  (zipWith (fun tx row => transactionSigopCost tx (row.map SpentOutput.previousCoin) flags)
    transactions rows).sum

/-- What the transactions other than the coinbase pay to their outputs. -/
def paidTotal (transactions : List Transaction) : Int :=
  ((transactions.filter fun tx => !isCoinbase tx).map outputTotal).sum

/-- The local variables after some transactions. -/
structure Accounted (done : List Transaction) (progress : SpendProgress) : Prop where
  rows : ∃ rows, SpentRows doubleSha256 coins context done rows ∧
    progress.spentOutputs = rows.flatten ∧
    progress.sigopCost = sigopTotal context.scripts.flags.mask done rows
  points_nodup : (progress.spentOutputs.map SpentOutput.point).Nodup
  tracks : TrackerOf (progress.spentOutputs.map SpentOutput.point) progress.createdOutputs
    progress.overlay
  created : ∀ output ∈ progress.createdOutputs, ∃ creator ∈ done,
    CreatedBy doubleSha256 context creator output.point (BlockSpendTracker.coinOf output)
  fees : progress.totalFees.toInt = spentTotal progress.spentOutputs - paidTotal done
  sigops : progress.sigopCost ≤ context.maxSigopCost

end Accounts

section Run

variable {doubleSha256 : ByteHash} {interpreter : ScriptInterpreter}
  {coins : CoinSource} {context : BlockSpendContext} {done : List Transaction}
  {progress : SpendProgress} {tx : Transaction} {facts : TransactionFacts}

theorem accounted_start : Accounted doubleSha256 coins context [] .start := by
  refine ⟨⟨[], ⟨rfl, ?_⟩, rfl, rfl⟩, nodup_nil, trackerOf_empty, ?_, rfl, Nat.zero_le _⟩
  · intro index tx row found
    cases found
  · intro output mem
    cases mem

theorem SpentRows.next {rows : List (List SpentOutput)} {row : List SpentOutput}
    (rowsSpent : SpentRows doubleSha256 coins context done rows)
    (rowSpent : SpentBy doubleSha256 coins context done tx row) :
    SpentRows doubleSha256 coins context (done ++ [tx]) (rows ++ [row]) := by
  refine ⟨?_, ?_⟩
  · rw [length_append, length_append, rowsSpent.length_eq]
    rfl
  · intro index other otherRow otherEq rowEq
    rcases Nat.lt_or_ge index done.length with early | late
    · rw [getElem?_append_left early] at otherEq
      rw [getElem?_append_left (rowsSpent.length_eq ▸ early)] at rowEq
      rw [take_append_of_le_length (Nat.le_of_lt early)]
      exact rowsSpent.spent index other otherRow otherEq rowEq
    · have last : index = done.length := by
        have bound := (List.getElem?_eq_some_iff.mp otherEq).1
        rw [length_append, length_singleton] at bound
        omega
      subst last
      rw [getElem?_concat_length] at otherEq
      rw [← rowsSpent.length_eq, getElem?_concat_length] at rowEq
      cases otherEq
      cases rowEq
      rw [take_left]
      exact rowSpent

variable {spend : SpendContext}

theorem foldlM_addInputCoin_total {start total : Int64} {coins : List Coin}
    (added : coins.foldlM (addInputCoin spend) start = .ok total) :
    total.toInt = start.toInt + (coins.map fun coin => coin.output.value.toInt).sum := by
  induction coins generalizing start with
  | nil =>
    cases added
    rw [map_nil, sum_nil, Int.add_zero]
  | cons coin coins ih =>
    obtain ⟨next, first, rest⟩ := bind_eq_ok.mp added
    simp only [addInputCoin, require, bind_eq_ok, ensure_eq_ok, exists_const] at first
    obtain ⟨-, -, room, -, -, sum⟩ := first
    rw [ih rest, addInt64_eq_ok.mp sum, map_cons, sum_cons, Int.add_assoc]

theorem assessTransactionSpendsWithCoins_fee {coins : List Coin} {res : SpendFacts}
    (ran : assessTransactionSpendsWithCoins tx facts spend coins = .ok res) :
    res.fee.toInt = (coins.map fun coin => coin.output.value.toInt).sum -
      facts.outputValue.toInt := by
  simp only [assessTransactionSpendsWithCoins, require, bind_eq_ok, ensure_eq_ok,
    exists_const, pure_eq_ok, Except.ok.injEq] at ran
  obtain ⟨-, inputSum, summed, -, fee, subtracted, -, satisfied, -, -, rfl⟩ := ran
  rw [subInt64_eq_ok.mp subtracted, foldlM_addInputCoin_total summed]
  exact congrArg (· - facts.outputValue.toInt) (Int.zero_add _)

/-- The local variables after the inputs of one more transaction. -/
structure InputsSpent (doubleSha256 : ByteHash) (coins : CoinSource)
    (context : BlockSpendContext) (done : List Transaction) (tx : Transaction)
    (progress next : SpendProgress) (row : List SpentOutput) : Prop where
  row_spent : SpentBy doubleSha256 coins context done tx row
  spentOutputs_eq : next.spentOutputs = progress.spentOutputs ++ row
  createdOutputs_eq : next.createdOutputs = progress.createdOutputs
  points_nodup : (next.spentOutputs.map SpentOutput.point).Nodup
  tracks : TrackerOf (next.spentOutputs.map SpentOutput.point) next.createdOutputs next.overlay
  fees : next.totalFees.toInt = progress.totalFees.toInt + spentTotal row -
    if isCoinbase tx then 0 else outputTotal tx
  sigops_eq : next.sigopCost = progress.sigopCost +
    transactionSigopCost tx (row.map SpentOutput.previousCoin) context.scripts.flags.mask
  sigops_le : next.sigopCost ≤ context.maxSigopCost

theorem addSigopCost_eq_ok {maxSigopCost sigopCost transactionCost total : Nat}
    (added : addSigopCost maxSigopCost sigopCost transactionCost = .ok total) :
    total = sigopCost + transactionCost ∧ total ≤ maxSigopCost := by
  simp only [addSigopCost, require, bind_eq_ok, ensure_eq_ok, exists_const,
    pure_eq_ok, Except.ok.injEq, Bool.and_eq_true, decide_eq_true_eq] at added
  omega

theorem kind_eq_coinbase_iff (factsOf : FactsOf doubleSha256 tx facts) :
    facts.kind = .coinbase ↔ isCoinbase tx = true := by
  rw [factsOf.kind_eq]
  cases isCoinbase tx <;> simp

/-- The outputs that a transaction reports as spent. -/
def spentRow (inputs : List TxInput) (found : List (Coin × SpendSource)) : List SpentOutput :=
  zipWith (fun input coin => ⟨input.previousOutput, coin⟩) inputs (found.map Prod.fst)

section Row

variable {outputs : List CreatedOutput} {inputs : List TxInput}
  {found : List (Coin × SpendSource)}
  (sourced : List.Forall₂ (fun input => SourcedFrom coins outputs input.previousOutput) inputs
    found)
include sourced

theorem spentRow_points :
    (spentRow inputs found).map SpentOutput.point = inputs.map TxInput.previousOutput := by
  induction sourced with
  | nil => rfl
  | @cons input source inputs found first rest ih =>
    rw [map_cons, ← ih]
    rfl

theorem spentRow_coins :
    (spentRow inputs found).map SpentOutput.previousCoin = found.map Prod.fst := by
  induction sourced with
  | nil => rfl
  | @cons input source inputs found first rest ih =>
    rw [map_cons, ← ih]
    rfl

theorem spentRow_total : spentTotal (spentRow inputs found) =
      ((found.map Prod.fst).map fun coin => coin.output.value.toInt).sum := by
  rw [← spentRow_coins sourced, map_map]
  rfl

theorem spentRow_sourced {spent : SpentOutput} (mem : spent ∈ spentRow inputs found) :
    coins spent.point = .found spent.previousCoin ∨ ∃ output ∈ outputs,
      output.point = spent.point ∧ BlockSpendTracker.coinOf output = spent.previousCoin := by
  induction sourced with
  | nil => cases mem
  | @cons input source inputs found first rest ih =>
    rcases mem_cons.mp mem with rfl | later
    · cases first with
      | coinIndex answer => exact Or.inl answer
      | createdOutput outputEq pointEq =>
        exact Or.inr ⟨_, mem_of_getElem? outputEq, pointEq, rfl⟩
    · exact ih later

end Row

section OneTransaction

variable (accounted : Accounted doubleSha256 coins context done progress)

include accounted

variable {found : List (Coin × SpendSource)}

theorem spentBy_spentRow (ordinary : isCoinbase tx = false)
    (sourced : List.Forall₂ (fun input => SourcedFrom coins progress.createdOutputs
      input.previousOutput) tx.inputs found) :
    SpentBy doubleSha256 coins context done tx (spentRow tx.inputs found) := by
  refine ⟨?_, ?_⟩
  · rw [ordinary, if_neg Bool.false_ne_true]
    exact spentRow_points sourced
  · intro spent mem
    rcases spentRow_sourced sourced mem with answer | ⟨output, outputMem, pointEq, coinEq⟩
    · exact Or.inl answer
    · obtain ⟨creator, creatorMem, created⟩ := accounted.created output outputMem
      rw [pointEq, coinEq] at created
      exact Or.inr ⟨creator, creatorMem, created⟩

/-- The coins of the inputs were not spent before. -/
theorem findInputCoins_sourced (factsOf : FactsOf doubleSha256 tx facts)
    (looked : (tx.inputs.mapM fun input =>
      findInputCoin coins progress.overlay input.previousOutput) = .ok found) :
    List.Forall₂ (fun input => SourcedFrom coins progress.createdOutputs input.previousOutput)
        tx.inputs found ∧
      (progress.spentOutputs.map SpentOutput.point ++
        tx.inputs.map TxInput.previousOutput).Nodup := by
  have both : List.Forall₂ (fun input source =>
      input.previousOutput ∉ progress.spentOutputs.map SpentOutput.point ∧
        SourcedFrom coins progress.createdOutputs input.previousOutput source) tx.inputs found := by
    apply forall₂_of_mapM_eq_ok _ looked
    intro input source found
    exact findInputCoin_sourced accounted.tracks found
  refine ⟨both.imp fun _ _ both => both.2, ?_⟩
  refine nodup_append.mpr ⟨accounted.points_nodup, factsOf.inputs_nodup, ?_⟩
  intro point before other here same
  obtain ⟨input, inputMem, rfl⟩ := mem_map.mp here
  obtain ⟨index, inRange, rfl⟩ := getElem_of_mem inputMem
  have fresh := ((forall₂_iff_get.mp both).2 index inRange (both.length_eq ▸ inRange)).1
  exact fresh (same ▸ before)

theorem spendInputs_spent (factsOf : FactsOf doubleSha256 tx facts) {next : SpendProgress}
    (spent : spendInputs doubleSha256 interpreter coins context progress tx facts = .ok next) :
    ∃ row, InputsSpent doubleSha256 coins context done tx progress next row := by
  unfold spendInputs at spent
  cases coinbase : isCoinbase tx with
  | true =>
    rw [if_pos ((kind_eq_coinbase_iff factsOf).mpr coinbase)] at spent
    obtain ⟨total, added, ret⟩ := bind_eq_ok.mp spent
    cases ret
    have row : SpentBy doubleSha256 coins context done tx [] := by
      refine ⟨?_, ?_⟩
      · rw [coinbase]
        rfl
      · intro other mem
        cases mem
    obtain ⟨sigopsEq, sigopsLe⟩ := addSigopCost_eq_ok added
    refine ⟨[], row, (append_nil _).symm, rfl, accounted.points_nodup, accounted.tracks, ?_,
      sigopsEq, sigopsLe⟩
    simp [coinbase, spentTotal]
  | false =>
    have ordinary : ¬ facts.kind = .coinbase := by
      rw [kind_eq_coinbase_iff factsOf, coinbase]
      exact Bool.false_ne_true
    rw [if_neg ordinary] at spent
    simp only [require, bind_eq_ok, ensure_eq_ok, exists_const, pure_eq_ok,
      Except.ok.injEq] at spent
    obtain ⟨found, looked, spend, ran, room, -, -, totalFees, feesAdded, sigopCost,
      sigopsAdded, verified, -, overlay, marked, rfl⟩ := spent
    obtain ⟨sourced, nodup⟩ := findInputCoins_sourced accounted factsOf looked
    have rowSpent := spentBy_spentRow accounted coinbase sourced
    have points : ((progress.spentOutputs ++ spentRow tx.inputs found).map SpentOutput.point) =
        progress.spentOutputs.map SpentOutput.point ++ tx.inputs.map TxInput.previousOutput := by
      rw [map_append, spentRow_points sourced]
    obtain ⟨after, markedAfter, afterTracks⟩ :=
      markInputsSpent_tracks accounted.tracks sourced nodup
    obtain rfl : overlay = after := Except.ok.inj (marked.symm.trans markedAfter)
    obtain ⟨sigopsEq, sigopsLe⟩ := addSigopCost_eq_ok sigopsAdded
    rw [← spentRow_coins sourced] at sigopsEq
    refine ⟨spentRow tx.inputs found, rowSpent, rfl, rfl, ?_, ?_, ?_, sigopsEq, sigopsLe⟩
    · exact points ▸ nodup
    · exact points ▸ afterTracks
    · rw [coinbase, if_neg Bool.false_ne_true, addInt64_eq_ok.mp feesAdded,
        assessTransactionSpendsWithCoins_fee ran, factsOf.outputValue_eq,
        spentRow_total sourced]
      omega

theorem spendInputs_noAssertion (factsOf : FactsOf doubleSha256 tx facts) : FailsOnly NotAssertion
      (spendInputs doubleSha256 interpreter coins context progress tx facts) := by
  unfold spendInputs
  split
  · exact (noAssertion_addSigopCost _ _ _).bind fun _ => .ok
  · rw [failsOnly_bind]
    refine ⟨failsOnly_mapM (fun input => noAssertion_findInputCoin coins _ _) _, ?_⟩
    intro found looked
    obtain ⟨sourced, nodup⟩ := findInputCoins_sourced accounted factsOf looked
    obtain ⟨after, marked, -⟩ := markInputsSpent_tracks accounted.tracks sourced nodup
    simp [marked]

end OneTransaction

variable {middle next : SpendProgress}

/-- One output: it is in the tracker, under the name that the transaction gives it. -/
theorem createOutput_created (factsOf : FactsOf doubleSha256 tx facts) {output : TxOutput × Nat}
    (place : tx.outputs[output.2]? = some output.1)
    (tracks : TrackerOf (middle.spentOutputs.map SpentOutput.point) middle.createdOutputs
      middle.overlay)
    (made : createOutput coins context facts middle output = .ok next) :
    ∃ created, CreatedBy doubleSha256 context tx created.point (BlockSpendTracker.coinOf created) ∧
      next.createdOutputs = middle.createdOutputs ++ [created] ∧
      TrackerOf (next.spentOutputs.map SpentOutput.point) next.createdOutputs next.overlay ∧
      next.spentOutputs = middle.spentOutputs ∧ next.totalFees = middle.totalFees ∧
      next.sigopCost = middle.sigopCost := by
  obtain ⟨-, -, added⟩ := bind_eq_ok.mp made
  have kind : decide (facts.kind = .coinbase) = isCoinbase tx := by
    rw [Bool.eq_iff_iff, decide_eq_true_iff]
    exact kind_eq_coinbase_iff factsOf
  rw [kind, factsOf.id_eq] at added
  split at added
  · cases added
  · rename_i overlay overlaid
    cases added
    exact ⟨_, ⟨output.2, output.1, place, rfl, rfl⟩, rfl, addCreated_tracks tracks overlaid, rfl,
      rfl, rfl⟩

theorem createOutputs_created (factsOf : FactsOf doubleSha256 tx facts)
    {outputs : List (TxOutput × Nat)}
    (places : ∀ output ∈ outputs, tx.outputs[output.2]? = some output.1)
    (tracks : TrackerOf (middle.spentOutputs.map SpentOutput.point) middle.createdOutputs
      middle.overlay)
    (made : outputs.foldlM (createOutput coins context facts) middle = .ok next) :
    (∀ output ∈ next.createdOutputs, output ∈ middle.createdOutputs ∨
        CreatedBy doubleSha256 context tx output.point (BlockSpendTracker.coinOf output)) ∧
      TrackerOf (next.spentOutputs.map SpentOutput.point) next.createdOutputs next.overlay ∧
      next.spentOutputs = middle.spentOutputs ∧ next.totalFees = middle.totalFees ∧
      next.sigopCost = middle.sigopCost := by
  induction outputs generalizing middle with
  | nil =>
    cases made
    exact ⟨fun output mem => Or.inl mem, tracks, rfl, rfl, rfl⟩
  | cons output outputs ih =>
    rw [forall_mem_cons] at places
    obtain ⟨following, first, rest⟩ := bind_eq_ok.mp made
    obtain ⟨created, createdBy, createdEq, followingTracks, spentEq, feesEq, sigopsEq⟩ :=
      createOutput_created factsOf places.1 tracks first
    obtain ⟨laterCreated, nextTracks, laterSpent, laterFees, laterSigops⟩ :=
      ih places.2 followingTracks rest
    refine ⟨?_, nextTracks, laterSpent.trans spentEq, laterFees.trans feesEq,
      laterSigops.trans sigopsEq⟩
    intro other mem
    rcases laterCreated other mem with before | later
    · rw [createdEq, mem_append, mem_singleton] at before
      rcases before with before | rfl
      · exact Or.inl before
      · exact Or.inr createdBy
    · exact Or.inr later

theorem spendTransaction_accounted (accounted : Accounted doubleSha256 coins context done progress)
    (factsOf : FactsOf doubleSha256 tx facts) {next : SpendProgress}
    (spent : spendTransaction doubleSha256 interpreter coins context progress (tx, facts) =
      .ok next) :
    Accounted doubleSha256 coins context (done ++ [tx]) next := by
  obtain ⟨middle, inputs, outputs⟩ := bind_eq_ok.mp spent
  obtain ⟨row, inputsSpent⟩ := spendInputs_spent accounted factsOf inputs
  obtain ⟨created, tracks, spentEq, feesEq, sigopsEq⟩ := createOutputs_created factsOf
    (fun output mem => mem_zipIdx_iff_getElem?.mp mem) inputsSpent.tracks outputs
  obtain ⟨rows, rowsSpent, flattened, counted⟩ := accounted.rows
  refine ⟨⟨rows ++ [row], rowsSpent.next inputsSpent.row_spent, ?_, ?_⟩, ?_, tracks, ?_, ?_, ?_⟩
  · rw [spentEq, inputsSpent.spentOutputs_eq, flattened, flatten_append, flatten_singleton]
  · rw [sigopsEq, inputsSpent.sigops_eq, counted, sigopTotal, sigopTotal,
      zipWith_append rowsSpent.length_eq.symm, sum_append]
    rfl
  · rw [spentEq]
    exact inputsSpent.points_nodup
  · intro output mem
    rcases created output mem with before | now
    · rw [inputsSpent.createdOutputs_eq] at before
      obtain ⟨creator, creatorMem, createdBy⟩ := accounted.created output before
      exact ⟨creator, mem_append_left _ creatorMem, createdBy⟩
    · exact ⟨tx, mem_append_right _ (mem_singleton_self _), now⟩
  · have total : spentTotal (progress.spentOutputs ++ row) =
        spentTotal progress.spentOutputs + spentTotal row := by
      rw [spentTotal, map_append, sum_append]
      rfl
    have paid : paidTotal (done ++ [tx]) =
        paidTotal done + if isCoinbase tx then 0 else outputTotal tx := by
      rw [paidTotal, filter_append, map_append, sum_append]
      cases coinbase : isCoinbase tx <;> simp [coinbase, paidTotal]
    rw [feesEq, inputsSpent.fees, spentEq, inputsSpent.spentOutputs_eq, total, paid, accounted.fees]
    omega
  · rw [sigopsEq]
    exact inputsSpent.sigops_le

theorem spendTransaction_noAssertion
    (accounted : Accounted doubleSha256 coins context done progress)
    (factsOf : FactsOf doubleSha256 tx facts) :
    FailsOnly NotAssertion
      (spendTransaction doubleSha256 interpreter coins context progress (tx, facts)) :=
  (spendInputs_noAssertion accounted factsOf).bind fun _ =>
    failsOnly_foldlM (fun _ _ => noAssertion_createOutput coins context facts _ _) _ _

theorem spendTransactions_accounted {txs : List Transaction} {allFacts : List TransactionFacts}
    (accounted : Accounted doubleSha256 coins context done progress)
    (factsOf : List.Forall₂ (FactsOf doubleSha256) txs allFacts) :
    FailsOnly NotAssertion ((txs.zip allFacts).foldlM
        (spendTransaction doubleSha256 interpreter coins context) progress) ∧
      ∀ next, (txs.zip allFacts).foldlM
          (spendTransaction doubleSha256 interpreter coins context) progress = .ok next →
        Accounted doubleSha256 coins context (done ++ txs) next := by
  induction factsOf generalizing done progress with
  | nil =>
    refine ⟨.ok, ?_⟩
    intro next ret
    cases ret
    rwa [append_nil]
  | @cons tx facts txs allFacts first rest ih =>
    refine ⟨?_, ?_⟩
    · refine failsOnly_bind.mpr ⟨spendTransaction_noAssertion accounted first, ?_⟩
      intro middle spent
      exact (ih (spendTransaction_accounted accounted first spent)).1
    · intro next ret
      obtain ⟨middle, spent, later⟩ := bind_eq_ok.mp ret
      have splits : done ++ tx :: txs = (done ++ [tx]) ++ txs := by
        rw [append_assoc, singleton_append]
      rw [splits]
      exact (ih (spendTransaction_accounted accounted first spent)).2 next later

end Run

/-! ## The report -/

/-- What the facts of an accepted block say about its spends. -/
structure SpendReport (doubleSha256 : ByteHash) (coins : CoinSource)
    (candidate : Block) (context : BlockSpendContext) (facts : BlockFacts) : Prop where
  points_nodup : (facts.spentOutputs.map SpentOutput.point).Nodup
  rows : ∃ rows, SpentRows doubleSha256 coins context candidate.transactions rows ∧
    facts.spentOutputs = rows.flatten ∧
    facts.sigopCost = sigopTotal context.scripts.flags.mask candidate.transactions rows
  fees : facts.totalFees.toInt = spentTotal facts.spentOutputs - paidTotal candidate.transactions
  reward : ∀ coinbase ∈ candidate.transactions.head?,
    outputTotal coinbase ≤ context.subsidy.toInt + facts.totalFees.toInt
  sigops : facts.sigopCost ≤ context.maxSigopCost

/-- An accepted block reports its spends exactly, and no assertion of the tracker fails. -/
theorem assessBlockSpends_report (doubleSha256 : List UInt8 → Uint256)
    (interpreter : ScriptInterpreter) (coins : CoinSource) (candidate : Block)
    (context : BlockSpendContext) :
    (∀ facts, assessBlockSpends doubleSha256 interpreter coins candidate context = .ok facts →
      SpendReport doubleSha256 coins candidate context facts) ∧
    assessBlockSpends doubleSha256 interpreter coins candidate context ≠
      .error (.fault .assertion) := by
  refine ⟨?_, ?_⟩
  · intro facts assessed
    simp only [assessBlockSpends, require, bind_eq_ok, ensure_eq_ok, exists_const,
      pure_eq_ok, Except.ok.injEq] at assessed
    obtain ⟨localFacts, assessedLocal, progress, spent, room, -, -, allowed, summed, within, rfl⟩ :=
      assessed
    obtain ⟨factsOf, coinbase, later, transactionsEq, -, -⟩ :=
      factsOf_assessBlockIntrinsic assessedLocal
    have accounted := (spendTransactions_accounted accounted_start factsOf).2 progress spent
    rw [nil_append] at accounted
    refine ⟨accounted.points_nodup, accounted.rows, accounted.fees, ?_, accounted.sigops⟩
    intro first firstMem
    rw [transactionsEq] at firstMem factsOf
    cases firstMem
    cases factsEq : localFacts.transactions with
    | nil =>
      rw [factsEq] at factsOf
      cases factsOf
    | cons coinbaseFacts laterFacts =>
      rw [factsEq] at factsOf within
      cases factsOf with
      | cons coinbaseOf laterOf =>
        have bound := Int64.le_iff_toInt_le.mp (of_decide_eq_true within)
        rw [addInt64_eq_ok.mp summed] at bound
        rw [← coinbaseOf.outputValue_eq]
        exact bound
  · have never : FailsOnly NotAssertion
        (assessBlockSpends doubleSha256 interpreter coins candidate context) := by
      refine failsOnly_bind.mpr ⟨noAssertion_assessBlockIntrinsic _ _ _, ?_⟩
      intro localFacts assessedLocal
      have factsOf := (factsOf_assessBlockIntrinsic assessedLocal).1
      simp [(spendTransactions_accounted accounted_start factsOf).1]
    intro failed
    exact never _ failed rfl

theorem assessBlockSpends_report_inBlockSpend :
    ∃ facts, assessBlockSpends byteSum (fun _ _ _ _ => .accepts) oneCoinSource inBlockSpend
        inBlockSpendContext = .ok facts ∧
      SpendReport byteSum oneCoinSource inBlockSpend inBlockSpendContext facts := by
  have accepted : (assessBlockSpends byteSum (fun _ _ _ _ => .accepts) oneCoinSource inBlockSpend
      inBlockSpendContext).toOption.isSome = true := by
    decide +kernel
  obtain ⟨facts, returned⟩ := Option.isSome_iff_exists.mp accepted
  have assessed := Exec.toOption_eq_some.mp returned
  exact ⟨facts, assessed, (assessBlockSpends_report _ _ _ _ _).1 facts assessed⟩

end Validation

end Champy
