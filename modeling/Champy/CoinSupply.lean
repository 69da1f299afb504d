import Champy.SegmentSequential

/-!
# The supply of coins

A transaction that is not a coinbase creates at most what it spends less its fee, and a coinbase
pays at most the fees and the subsidy.  The subsidy halves, so no run of blocks adds more than twice
the subsidies of the first period to the value of all coins.
-/

namespace Champy

open List Exec CTransaction SnapshotSpendState CoinSnapshot

/-- A fold whose steps add at most their own amount to a measure. -/
theorem Exec.foldlM_le {σ α ε : Type} {step : σ → α → Exec ε σ} (measure : σ → Int)
    (change : α → Int) (steps : ∀ state value next, step state value = .ok next →
      measure next ≤ measure state + change value) {values : List α} {state final : σ}
    (ran : values.foldlM step state = .ok final) :
    measure final ≤ measure state + (values.map change).sum := by
  induction values generalizing state with
  | nil =>
    cases ran
    simp
  | cons value values ih =>
    obtain ⟨next, first, rest⟩ := bind_eq_ok.mp ran
    have here := steps state value next first
    have later := ih rest
    rw [map_cons, sum_cons]
    omega

def CoinSnapshot.value (coin : CoinSnapshot) : Int :=
  coin.output.nValue.toInt

/-- What the effects of a transaction add to the value of all coins. -/
def TransactionCoinEffects.gain (effects : TransactionCoinEffects) : Int :=
  (effects.creates.map fun create => create.coin.value).sum +
    (effects.spends.map fun spend => -spend.coin.value).sum

def BlockSpendEffects.gain (effects : BlockSpendEffects) : Int :=
  (effects.transactionEffects.map TransactionCoinEffects.gain).sum

/-! ## Commits -/

def SnapshotSpendState.supply (state : SnapshotSpendState) : Int :=
  FinMap.total value state.coins

variable {ctx : BlockCommitContext} {state next : SnapshotSpendState}

theorem supply_commitSpend {spend : SpentCoinEffect} (spent : state.commitSpend spend = .ok next) :
    next.supply ≤ state.supply + -spend.coin.value := by
  obtain ⟨coin, found, rfl, rfl⟩ := commitSpend_eq_ok.mp spent
  have total := FinMap.total_erase_add value found
  change FinMap.total _ (state.coins.erase spend.outpoint) ≤ _
  rw [supply]
  omega

theorem supply_commitCreate {create : CreatedCoinEffect}
    (created : state.commitCreate ctx create = .ok next) :
    next.supply ≤ state.supply + create.coin.value := by
  obtain ⟨absent, -, rfl⟩ := commitCreate_eq_ok.mp created
  change FinMap.total _ (state.coins.insert create.outpoint create.coin) ≤ _
  rw [FinMap.total_insert_of_notMem _ absent, supply, Int.add_comm]

theorem supply_commitTransaction {effects : TransactionCoinEffects}
    (committed : state.commitTransaction ctx effects = .ok next) :
    next.supply ≤ state.supply + effects.gain := by
  obtain ⟨spent, spends, creates⟩ := bind_eq_ok.mp committed
  have spending := foldlM_le supply (fun spend => -spend.coin.value)
    (fun _ _ _ => supply_commitSpend) spends
  have creating := foldlM_le supply (fun create => create.coin.value)
    (fun _ _ _ => supply_commitCreate) creates
  rw [TransactionCoinEffects.gain]
  omega

/-! ## Transactions -/

/-- What the outputs of a transaction pay, those with a negative amount left out. -/
def CTransaction.paid (tx : CTransaction) : Int :=
  (tx.vout.map fun txout => max 0 txout.nValue.toInt).sum

/-- A coinbase issues what it pays. -/
def CTransaction.issued (tx : CTransaction) : Int :=
  if tx.isCoinBase then tx.paid else 0

section Transactions

variable {tx : CTransaction} {coins : List CoinSnapshot} {ctx : TransactionSpendContext}
  {options : BlockSpendConsensusOptions}

theorem paid_nonneg (tx : CTransaction) : 0 ≤ tx.paid := by
  apply sum_nonneg
  intro value mem
  obtain ⟨txout, -, rfl⟩ := mem_map.mp mem
  exact le_max_left _ _

theorem paid_of_getValueOut {total : CAmount}
    (added : (tx.getValueOut : BlockSpendResult CAmount) = .ok total) : tx.paid = total.toInt := by
  obtain ⟨inRange, -, totalEq⟩ := getValueOut_eq_ok.mp added
  rw [paid, totalEq]
  congr 1
  apply map_congr_left
  intro txout mem
  exact max_eq_right (moneyRange_iff.mp (inRange txout mem)).1

theorem created_le_paid (tx : CTransaction) (height : Int32) :
    ((createdCoinEffects tx height).map fun create => create.coin.value).sum ≤ tx.paid := by
  rw [createdCoinEffects, CTransaction.paid]
  generalize tx.vout = outputs
  generalize 0 = start
  induction outputs generalizing start with
  | nil => simp
  | cons txout outputs ih =>
    have later := ih (start + 1)
    rw [zipIdx_cons, filterMap_cons, map_cons, sum_cons]
    cases isUnspendable txout.scriptPubKey with
    | true =>
      simp only [if_true]
      omega
    | false =>
      simp only [Bool.false_eq_true, if_false, map_cons, sum_cons, value] at later ⊢
      omega

theorem gain_transactionCoinEffects (height : Int32)
    (lengths : coins.length = tx.spentOutpoints.length) :
    (transactionCoinEffects height tx coins).gain ≤ tx.paid - (coins.map value).sum := by
  have spends : (spentCoinEffects tx coins).map (fun spend => -spend.coin.value) =
      (coins.map value).map Neg.neg := by
    conv_rhs => rw [← map_snd_zip (Nat.le_of_eq lengths), map_map, map_map]
    rw [spentCoinEffects, map_map]
    rfl
  rw [TransactionCoinEffects.gain, transactionCoinEffects, spends, ← sum_neg, Int.sub_eq_add_neg]
  exact Int.add_le_add_right (created_le_paid tx height) _

theorem addInputCoin_le {spendHeight : Int32} {valueIn next : CAmount} {coin : CoinSnapshot}
    (added : addInputCoin tx spendHeight valueIn coin = .ok next) :
    next.toInt ≤ valueIn.toInt + coin.value := by
  simp only [addInputCoin, addInputValueForBlock, bind_eq_ok, assertThat_eq_ok, ensure_eq_ok,
    exists_const, pure_eq_ok, Except.ok.injEq, addInt64_eq_ok] at added
  obtain ⟨-, -, -, -, -, -, -, sum, sumEq, -, rfl⟩ := added
  exact le_of_eq sumEq

theorem addFeeOfTransaction_le {locktimeFlags : Int32} {fees total : CAmount}
    (notCoinbase : tx.isCoinBase = false)
    (added : addFeeOfTransaction tx coins ctx locktimeFlags fees = .ok total) :
    total.toInt ≤ fees.toInt + (coins.map value).sum - tx.paid := by
  simp only [addFeeOfTransaction, notCoinbase, Bool.false_eq_true, if_false,
    checkTransactionInputCoinsForBlock, checkTransactionInputValuesForBlock,
    addTransactionFeeForBlock, bind_eq_ok, assertThat_eq_ok, ensure_eq_ok, exists_const,
    pure_eq_ok, Except.ok.injEq, addInt64_eq_ok, subInt64_eq_ok] at added
  obtain ⟨_, ⟨-, -, _, ⟨-, valueIn, summed, valueOut, paid, -, fee, feeEq, -, rfl⟩, -, -, -, -, -,
    rfl⟩, sum, sumEq, -, rfl⟩ := added
  have bound := foldlM_le Int64.toInt value (fun _ _ _ => addInputCoin_le) summed
  rw [paid_of_getValueOut paid, sumEq, feeEq]
  change valueIn.toInt ≤ 0 + _ at bound
  omega

theorem gain_evaluateTransactionSpendForBlock {accounting : BlockSpendAccounting}
    {res : TransactionSpendResult}
    (eval : evaluateTransactionSpendForBlock tx coins ctx options accounting = .ok res) :
    res.coinEffects.gain + res.accounting.fees.toInt ≤ accounting.fees.toInt + tx.issued := by
  obtain ⟨lengths, effectsEq⟩ := evaluateTransactionSpendForBlock_effects eval
  have gained := gain_transactionCoinEffects ctx.blockHeight lengths
  rw [← effectsEq] at gained
  simp only [evaluateTransactionSpendForBlock, bind_eq_ok] at eval
  obtain ⟨fees, feesAdded, _, -, _, -, ret⟩ := eval
  cases ret
  dsimp only at gained ⊢
  rw [issued]
  cases coinbase : tx.isCoinBase with
  | true =>
    rw [spentOutpoints_of_coinBase coinbase] at lengths
    obtain rfl := eq_nil_of_length_eq_zero lengths
    simp only [addFeeOfTransaction, coinbase, if_true, bind_eq_ok, pure_eq_ok] at feesAdded
    obtain ⟨_, -, same⟩ := feesAdded
    cases same
    rw [map_nil, sum_nil] at gained
    simp only [if_true]
    omega
  | false =>
    have bound := addFeeOfTransaction_le coinbase feesAdded
    simp only [Bool.false_eq_true, if_false]
    omega

end Transactions

/-! ## Blocks -/

section Blocks

variable {W : Type} [SpendWorkspace W] {txs : List CTransaction} {ctx : BlockSpendContext}
  {options : BlockSpendConsensusOptions} {checker : BlockScriptChecker}
  {effects : BlockSpendEffects}

theorem gain_stageTransaction {collection : ScriptCheckPlanCollection}
    {before after : BlockSpendStageResult × W} {input : (CTransaction × List CoinSnapshot) × Nat}
    (staged : stageTransaction ctx options collection before input = .ok after) :
    after.1.effects.gain + after.1.effects.fees.toInt ≤
      before.1.effects.gain + before.1.effects.fees.toInt + input.1.1.issued := by
  obtain ⟨⟨stage, effects⟩, added, staged⟩ := bind_eq_ok.mp staged
  obtain ⟨ws, -, ret⟩ := bind_eq_ok.mp staged
  cases ret
  obtain ⟨res, eval, rfl, -⟩ := addTransactionToStage_eq_ok.mp added
  have bound := gain_evaluateTransactionSpendForBlock eval
  have gains : (before.1.effects.addTransaction input.1.1 res).gain =
      before.1.effects.gain + res.coinEffects.gain := by
    simp [BlockSpendEffects.gain, BlockSpendEffects.addTransaction]
  change (before.1.effects.addTransaction input.1.1 res).gain + res.accounting.fees.toInt ≤ _
  rw [gains]
  dsimp only at bound
  omega

theorem sum_issued_le (coinbase : CTransaction) {later : List CTransaction}
    (others : ∀ tx ∈ later, tx.isCoinBase = false) (rows : List (List CoinSnapshot)) :
    (((coinbase :: later).zip rows).zipIdx.map fun input => input.1.1.issued).sum ≤
      coinbase.paid := by
  have paid := paid_nonneg coinbase
  cases rows with
  | nil => exact paid
  | cons row rows =>
    have none : ((later.zip rows).zipIdx 1).map (fun input => input.1.1.issued) =
        ((later.zip rows).zipIdx 1).map fun _ => 0 := by
      apply map_congr_left
      intro input mem
      rw [issued, others _ (of_mem_zip (fst_mem_of_mem_zipIdx mem)).1]
      rfl
    have first : coinbase.issued ≤ coinbase.paid := by
      rw [issued]
      split <;> omega
    rw [zip_cons_cons, zipIdx_cons, map_cons, sum_cons, none, map_const', sum_replicate]
    simpa using first

theorem gain_validateAndStage {ws after : W} (valid : StructurallyValid txs)
    (ok : validateAndStageBlockTransactions txs ws checker ctx options = .ok (effects, after)) :
    ∃ coinbase later, txs = coinbase :: later ∧
      effects.gain + effects.fees.toInt ≤ coinbase.paid := by
  obtain ⟨stage, staged, -, rfl⟩ := validateAndStageBlockTransactions_iff.mp ok
  obtain ⟨-, joined, looked, -, -, rounds⟩ := (validateAndStageWithPlans_iff valid).mp staged
  have bound := foldlM_le (fun state => state.1.effects.gain + state.1.effects.fees.toInt)
    (fun input => input.1.1.issued) (fun _ _ _ => gain_stageTransaction) rounds
  obtain ⟨coinbase, later, rfl, -, others⟩ := valid.coinbase_first
  have issued := sum_issued_le coinbase others joined.inputCoinsByTransaction
  change stage.effects.gain + stage.effects.fees.toInt ≤ 0 + 0 + _ at bound
  exact ⟨coinbase, later, rfl, by omega⟩

variable {state final : SnapshotSpendState}

theorem supply_connectBlock {ctx : BlockConsensusContext} (valid : StructurallyValid txs)
    (connected : state.connectBlock checker options ctx txs = .ok (effects, final)) :
    final.supply ≤ state.supply + ctx.blockSubsidy.toInt := by
  obtain ⟨⟨staged, ok⟩, rewarded, committed⟩ := connectBlock_eq_ok.mp connected
  obtain ⟨coinbase, later, rfl, gained⟩ := gain_validateAndStage valid ok
  have supplied : _ ≤ _ + effects.gain :=
    foldlM_le supply TransactionCoinEffects.gain (fun _ _ _ => supply_commitTransaction) committed
  simp only [checkCoinbaseReward, checkCoinbasePaysNoMoreThan, bind_eq_ok, assertThat_eq_ok,
    ensure_eq_ok, exists_const, addInt64_eq_ok, decide_eq_true_eq, Int64.le_iff_toInt_le] at rewarded
  obtain ⟨reward, rewardEq, -, value, paid, bound⟩ := rewarded
  rw [paid_of_getValueOut paid] at gained
  omega

theorem supply_connectBlocks {blocks : List SegmentBlockView} {allEffects : List BlockSpendEffects}
    (valid : ∀ block ∈ blocks, StructurallyValid block.transactions)
    (connected : state.connectBlocks checker blocks = .ok (allEffects, final)) :
    final.supply ≤
      state.supply + (blocks.map fun block => block.context.blockSubsidy.toInt).sum := by
  induction blocks generalizing state allEffects with
  | nil =>
    cases connected
    simp
  | cons block blocks ih =>
    obtain ⟨effects, next, later, first, rest, -⟩ := connectBlocks_cons_eq_ok.mp connected
    obtain ⟨here, others⟩ := forall_mem_cons.mp valid
    have one := supply_connectBlock here first
    change _ ≤ _ + block.context.blockSubsidy.toInt at one
    have all := ih others rest
    rw [map_cons, sum_cons]
    omega

end Blocks

/-! ## Subsidies -/

/-- `CalculateBlockSubsidy`.  Heights are not negative, and parameter sets have an interval. -/
def calculateBlockSubsidy (height nSubsidyHalvingInterval : Int32) : CAmount :=
  let halvings := height.toInt.tdiv nSubsidyHalvingInterval.toInt
  if halvings ≥ 64 then 0 else (50 * coinUnit) >>> Int64.ofInt halvings

def halvedSubsidy (halvings : Nat) : Nat :=
  5000000000 / 2 ^ halvings

theorem toInt_calculateBlockSubsidy {height : Nat} (bounded : height < 2 ^ 31) {interval : Int32}
    (pos : 0 < interval.toInt) :
    (calculateBlockSubsidy (Int32.ofNat height) interval).toInt =
      halvedSubsidy (height / interval.toInt.toNat) := by
  have shifts : ∀ halvings < 64, ((50 * coinUnit) >>> Int64.ofNat halvings).toInt =
      halvedSubsidy halvings := by decide +kernel
  have halvings : (Int32.ofNat height).toInt.tdiv interval.toInt =
      (height / interval.toInt.toNat : Nat) := by
    rw [Int32.toInt_ofNat_of_lt bounded, Int.ofNat_tdiv, Int.toNat_of_nonneg pos.le]
  rw [calculateBlockSubsidy, halvings]
  generalize height / interval.toInt.toNat = count
  split
  · next many =>
    have none : 5000000000 < 2 ^ count :=
      Nat.lt_of_lt_of_le (by decide) (Nat.pow_le_pow_right (by decide) (Int.ofNat_le.mp many))
    rw [halvedSubsidy, Nat.div_eq_of_lt none]
    rfl
  · exact shifts count (by omega)

/-- What the subsidies from a height on can add up to: those of the rest of the period, and as
much again for all later periods. -/
def remainingSubsidy (interval height : Nat) : Nat :=
  (2 * interval - height % interval) * halvedSubsidy (height / interval)

theorem remainingSubsidy_step {interval : Nat} (pos : 0 < interval) (height : Nat) :
    halvedSubsidy (height / interval) + remainingSubsidy interval (height + 1) ≤
      remainingSubsidy interval height := by
  have inside := Nat.mod_lt height pos
  rw [remainingSubsidy, remainingSubsidy, ← Nat.div_add_mod height interval]
  generalize height % interval = rest at inside
  generalize height / interval = halvings
  simp only [Nat.add_assoc, Nat.mul_add_div pos, Nat.mul_add_mod, Nat.mod_eq_of_lt inside,
    Nat.div_eq_of_lt inside, Nat.add_zero]
  by_cases last : rest + 1 = interval
  · have halved : halvedSubsidy (halvings + 1) * 2 ≤ halvedSubsidy halvings := by
      rw [halvedSubsidy, Nat.pow_succ, ← Nat.div_div_eq_div_mul]
      exact Nat.div_mul_le_self _ _
    rw [last, Nat.mod_self, Nat.div_self pos, Nat.sub_zero, Nat.mul_comm 2, Nat.mul_assoc,
      show interval * 2 - rest = 1 + interval by omega, Nat.add_mul, Nat.one_mul, Nat.mul_comm 2]
    exact Nat.add_le_add_left (Nat.mul_le_mul_left _ halved) _
  · have more : rest + 1 < interval := by omega
    rw [Nat.mod_eq_of_lt more, Nat.div_eq_of_lt more, Nat.add_zero halvings,
      show 2 * interval - rest = 1 + (2 * interval - (rest + 1)) by omega, Nat.add_mul, Nat.one_mul]

theorem sum_subsidies_le {interval : Nat} (pos : 0 < interval) (start count : Nat) :
    ((range' start count).map fun height => (halvedSubsidy (height / interval) : Int)).sum +
      remainingSubsidy interval (start + count) ≤ remainingSubsidy interval start := by
  induction count generalizing start with
  | zero => simp
  | succ count ih =>
    have step := remainingSubsidy_step pos start
    have later := ih (start + 1)
    rw [range'_succ, map_cons, sum_cons, show start + (count + 1) = start + 1 + count by omega]
    omega

/-- No run of blocks raises the value of all coins by more than its subsidies, and these stay
below twice those of the first period: with an interval of 210000, below `MAX_MONEY`. -/
theorem connectBlocks_supply_le {hashPair : Uint256 → Uint256 → Uint256}
    {sources : List (CBlock × SegmentBlockContext)}
    (valid : ∀ source ∈ sources, ∃ options,
      validateBlockStructuralStage hashPair source.1 options = .ok ())
    {start : Nat} (heights : start + sources.length ≤ 2 ^ 31) {interval : Int32}
    (pos : 0 < interval.toInt)
    (subsidies : (sources.map fun source => source.2.blockSubsidy) =
      (range' start sources.length).map fun height =>
        calculateBlockSubsidy (Int32.ofNat height) interval)
    {checker : BlockScriptChecker} {state final : SnapshotSpendState}
    {allEffects : List BlockSpendEffects}
    (connected : state.connectBlocks checker (sources.map CBlock.segmentView) =
      .ok (allEffects, final)) :
    final.supply ≤ state.supply + (sources.map fun source => source.2.blockSubsidy.toInt).sum ∧
      (sources.map fun source => source.2.blockSubsidy.toInt).sum ≤
        100 * coinUnit.toInt * interval.toInt := by
  constructor
  · have valids : ∀ block ∈ sources.map CBlock.segmentView,
        StructurallyValid block.transactions := by
      intro block mem
      obtain ⟨source, sourceMem, rfl⟩ := mem_map.mp mem
      obtain ⟨options, ok⟩ := valid source sourceMem
      exact structurallyValid_of_stage ok
    have bound := supply_connectBlocks valids connected
    rw [map_map] at bound
    exact bound
  · have values : (sources.map fun source => source.2.blockSubsidy.toInt) =
        (range' start sources.length).map fun height =>
          (halvedSubsidy (height / interval.toInt.toNat) : Int) := by
      have both := congrArg (map Int64.toInt) subsidies
      rw [map_map, map_map] at both
      refine both.trans (map_congr_left fun height mem => ?_)
      exact toInt_calculateBlockSubsidy (by rw [mem_range'_1] at mem; omega) pos
    have bound := sum_subsidies_le (show 0 < interval.toInt.toNat by omega) start sources.length
    have most : remainingSubsidy interval.toInt.toNat start ≤
        2 * interval.toInt.toNat * 5000000000 :=
      Nat.mul_le_mul (Nat.sub_le _ _) (Nat.div_le_self _ _)
    rw [values, show coinUnit.toInt = 100000000 from rfl]
    omega

/-- The sample blocks above the genesis block. -/
theorem connectBlocks_supply_le_sampleSources :
    ∃ allEffects final, sampleFunded.connectBlocks BlockScriptChecker.accepting
        (sampleSources.map CBlock.segmentView) = .ok (allEffects, final) ∧
      final.supply ≤ sampleFunded.supply + 10000000000 := by
  have subsidies : (sampleSources.map fun source => source.2.blockSubsidy) =
      (range' 1 2).map fun height => calculateBlockSubsidy (Int32.ofNat height) 210000 := by decide
  obtain ⟨allEffects, final, ran⟩ : ∃ allEffects final,
      sampleFunded.connectBlocks BlockScriptChecker.accepting
        (sampleSources.map CBlock.segmentView) = .ok (allEffects, final) := ⟨_, _, rfl⟩
  exact ⟨allEffects, final, ran,
    (connectBlocks_supply_le sampleSources_accepted (by decide) (by decide) subsidies ran).1⟩

end Champy
