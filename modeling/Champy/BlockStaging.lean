import Champy.SpendWorkspaceLaws

/-!
# Staging a block in a lawful workspace

The loop of `ValidateAndStageBlockTransactions` evaluates each transaction and
stages its effects.  When the transfers of the block run on the ledger that the
workspace means, no staging step can fail, so the loop accepts exactly when the
evaluation of the block with the coins that the transfers take accepts.
-/

namespace Champy

open CTransaction SpendWorkspace List

namespace LawfulSpendWorkspace

variable {W : Type} [SpendWorkspace W] [LawfulSpendWorkspace W]

/-- A workspace after staging: what it means, and which median times it kept. -/
structure StagedTo (before : W) (spent : List COutPoint) (rest : CoinLedger)
    (after : W) : Prop where
  valid : Valid after
  coins_eq : coins after = rest
  times_eq : ∀ outpoint, outpoint ∉ spent →
    previousMedianTimePast after outpoint = previousMedianTimePast before outpoint

theorem StagedTo.append {first second third : W} {spent spent' : List COutPoint}
    {middle rest : CoinLedger} (left : StagedTo first spent middle second)
    (right : StagedTo second spent' rest third) : StagedTo first (spent ++ spent') rest third := by
  refine ⟨right.valid, right.coins_eq, ?_⟩
  intro point notSpent
  rw [mem_append, not_or] at notSpent
  rw [right.times_eq point notSpent.2, left.times_eq point notSpent.1]

def transactionContext (context : BlockSpendContext) (workspace : W) :
    TransactionSpendContext :=
  ⟨context.blockHeight, context.previousMedianTimePast, previousMedianTimePast workspace⟩

section Loop

variable {ctx : BlockSpendContext} (options : BlockSpendConsensusOptions)
  (collection : ScriptCheckPlanCollection) (start : W) {ws : W}

/-- One round: staging cannot fail where the ledger admits the transfer. -/
theorem stageTransaction_spec {tx : CTransaction} {values : List CoinSnapshot}
    {rest : CoinLedger} {index : Nat} (valid : Valid ws)
    (checked : CheckedTransaction tx) (admits : AdmitsHeight W ctx.blockHeight)
    (first : index = 0 → tx.spentOutpoints = [])
    (sameTimes : ∀ point ∈ tx.spentOutpoints,
      previousMedianTimePast ws point = previousMedianTimePast start point)
    (applied : (coins ws).apply (tx.transfer ctx.blockHeight) = some (values, rest)) :
    ∃ after, StagedTo ws tx.spentOutpoints rest after ∧
      ∀ stage res, stageTransaction ctx options collection (stage, ws)
          ((tx, values), index) = .ok res ↔
        evaluateTransaction (transactionContext ctx start) options collection stage
          (tx, values) = .ok res.1 ∧ res.2 = after := by
  have lengths : values.length = tx.spentOutpoints.length := by
    have found := congrArg length (Ledger.apply_eq_some.mp applied).2.1
    rw [length_map, length_map] at found
    exact found.symm
  have sameEvaluation : ∀ stage,
      addTransactionToStage (transactionContext ctx ws) options collection stage tx values =
        addTransactionToStage (transactionContext ctx start) options collection stage tx
          values := by
    intro stage
    apply addTransactionToStage_congr
    intro input mem
    rw [sameTimes input.1 (of_mem_zip mem).1]
  have noSpends : index = 0 → (transactionCoinEffects ctx.blockHeight tx values).spends = [] := by
    intro isFirst
    rw [transactionCoinEffects, spentCoinEffects, first isFirst]
    rfl
  have admitted : ∀ create ∈ (transactionCoinEffects ctx.blockHeight tx values).creates,
      AdmitsHeight W create.coin.height ∧ moneyRange create.coin.output.nValue = true ∧
        isUnspendable create.coin.output.scriptPubKey = false := by
    intro create mem
    obtain ⟨height, inRange, spendable, -⟩ := mem_createdCoinEffects checked mem
    exact ⟨height ▸ admits, inRange, spendable⟩
  rw [← transactionCoinEffects_transfer lengths] at applied
  obtain ⟨after, staged, afterValid, afterCoins, afterTimes⟩ :=
    stage_spec valid noSpends admitted applied
  rw [transactionCoinEffects_spentOutpoints lengths] at afterTimes
  refine ⟨after, ⟨afterValid, afterCoins, afterTimes⟩, ?_⟩
  intro stage res
  rw [evaluateTransaction_iff_added, ← sameEvaluation, stageTransaction, Exec.bind_eq_ok]
  constructor
  · rintro ⟨⟨next, effects⟩, added, ret⟩
    obtain rfl := addTransactionToStage_effects added
    change (stageTransactionEffects ws
      (transactionCoinEffects ctx.blockHeight tx values) index >>= _) = _ at ret
    rw [staged] at ret
    cases ret
    exact ⟨⟨_, added⟩, rfl⟩
  · rintro ⟨⟨effects, added⟩, afterEq⟩
    refine ⟨(res.1, effects), added, ?_⟩
    obtain rfl := addTransactionToStage_effects added
    change (stageTransactionEffects ws
      (transactionCoinEffects ctx.blockHeight tx values) index >>= _) = _
    rw [staged, ← afterEq]
    rfl

theorem stageTransactions_spec {done txs : List CTransaction}
    {found : List (List CoinSnapshot)} {final : CoinLedger}
    (staged : StagedTo start (done.flatMap spentOutpoints) (coins ws) ws)
    (checked : ∀ tx ∈ txs, CheckedTransaction tx)
    (admits : AdmitsHeight W ctx.blockHeight)
    (first : done = [] → ∀ tx ∈ txs.head?, tx.spentOutpoints = [])
    (nodup : ((done ++ txs).flatMap spentOutpoints).Nodup)
    (ran : (coins ws).run (blockTransfers txs ctx.blockHeight) = some (found, final)) :
    ∃ after, StagedTo start ((done ++ txs).flatMap spentOutpoints) final after ∧
      ∀ stage res, ((txs.zip found).zipIdx done.length).foldlM
          (stageTransaction ctx options collection) (stage, ws) = .ok res ↔
        (txs.zip found).foldlM
          (evaluateTransaction (transactionContext ctx start) options collection) stage =
            .ok res.1 ∧ res.2 = after := by
  induction txs generalizing done ws found with
  | nil =>
    cases ran
    rw [append_nil]
    refine ⟨ws, staged, ?_⟩
    rintro stage ⟨next, after⟩
    simp [eq_comm]
  | cons tx txs ih =>
    obtain ⟨values, middle, later, applied, rests, rfl⟩ := Ledger.run_cons_eq_some.mp ran
    have splits : done ++ tx :: txs = (done ++ [tx]) ++ txs := by
      rw [append_assoc, singleton_append]
    have notSpent : ∀ point ∈ tx.spentOutpoints, point ∉ done.flatMap spentOutpoints := by
      intro point mem before
      rw [flatMap_append] at nodup
      exact (nodup_append.mp nodup).2.2 point before point
        (mem_flatMap.mpr ⟨tx, mem_cons_self, mem⟩) rfl
    obtain ⟨middleWorkspace, stagedOne, round⟩ :=
      stageTransaction_spec options collection start staged.valid (checked tx mem_cons_self) admits
        (fun isFirst => first (length_eq_zero_iff.mp isFirst) tx rfl)
        (fun point mem => staged.times_eq point (notSpent point mem)) applied
    have stagedBoth : StagedTo start ((done ++ [tx]).flatMap spentOutpoints)
        (coins middleWorkspace) middleWorkspace := by
      rw [flatMap_append, flatMap_singleton, stagedOne.coins_eq]
      exact staged.append stagedOne
    rw [← stagedOne.coins_eq] at rests
    rw [splits] at nodup ⊢
    obtain ⟨after, stagedAll, rounds⟩ := ih stagedBoth
      (fun other mem => checked other (mem_cons_of_mem _ mem)) (by simp) nodup rests
    refine ⟨after, stagedAll, ?_⟩
    intro stage res
    rw [length_append, length_singleton] at rounds
    rw [zip_cons_cons, zipIdx_cons, foldlM_cons, foldlM_cons, Exec.bind_eq_ok, Exec.bind_eq_ok]
    constructor
    · rintro ⟨⟨next, nextWorkspace⟩, stepped, ret⟩
      obtain ⟨eval, rfl⟩ := (round stage _).mp stepped
      obtain ⟨evaluatedRest, afterEq⟩ := (rounds next res).mp ret
      exact ⟨⟨next, eval, evaluatedRest⟩, afterEq⟩
    · rintro ⟨⟨next, eval, evaluatedRest⟩, afterEq⟩
      exact ⟨(next, middleWorkspace), (round stage _).mpr ⟨eval, rfl⟩,
        (rounds next res).mpr ⟨evaluatedRest, afterEq⟩⟩

end Loop

/-! ## The whole block -/

theorem coinbase_spentOutpoints {txs : List CTransaction} (structural : StructurallyValid txs) :
    ∀ tx ∈ txs.head?, tx.spentOutpoints = [] := by
  obtain ⟨coinbase, later, rfl, isCoinbase, -⟩ := structural.coinbase_first
  rintro tx ⟨⟩
  exact spentOutpoints_of_coinBase isCoinbase

section Block

variable {txs : List CTransaction} {ws : W} {ctx : BlockSpendContext}
  {options : BlockSpendConsensusOptions} {collection : ScriptCheckPlanCollection}

theorem overwriteCheck_spec (valid : Valid ws) :
    (∀ {checked : W}, (if options.checkNoUnspentOutputOverwrite = true then
          checkBlockNoUnspentOutputOverwrite txs ws else pure ws) = .ok checked →
      (options.checkNoUnspentOutputOverwrite = true → NoUnspentOutput (coins ws) txs) ∧
        SameMeaning ws checked) ∧
    ((options.checkNoUnspentOutputOverwrite = true → NoUnspentOutput (coins ws) txs) →
      ∃ checked, (if options.checkNoUnspentOutputOverwrite = true then
        checkBlockNoUnspentOutputOverwrite txs ws else pure ws) = .ok checked) := by
  cases options.checkNoUnspentOutputOverwrite with
  | true =>
    obtain ⟨ok, accepts⟩ := checkBlockNoUnspentOutputOverwrite_spec valid txs
    exact ⟨fun checks => ⟨fun _ => (ok checks).1, (ok checks).2⟩,
      fun unspent => accepts (unspent rfl)⟩
  | false =>
    refine ⟨fun checks => ?_, fun _ => ⟨ws, rfl⟩⟩
    cases checks
    exact ⟨nofun, valid, rfl, rfl⟩

variable (valid : Valid ws) (structural : StructurallyValid txs)
include valid structural

variable {res : BlockSpendStageResult × W}

/-- What an accepted block went through: the overwrite check, the join and the rounds. -/
theorem validateAndStageWithPlans_parts
    (ok : validateAndStageWithPlans (joinBlockSpentOutputs getCoins) txs ws
      ctx options collection = .ok res) :
    (options.checkNoUnspentOutputOverwrite = true → NoUnspentOutput (coins ws) txs) ∧
      ∃ found looked, (txs.flatMap spentOutpoints).Nodup ∧
        joinedCoins (coins ws) txs ctx.blockHeight = found.map (map some) ∧
        SameMeaning ws looked ∧
        (txs.zip found).zipIdx.foldlM (stageTransaction ctx options collection)
          (BlockSpendStageResult.empty, looked) = .ok res := by
  obtain ⟨checked, joined, looked, checks, joins, rounds⟩ :=
    (validateAndStageWithPlans_iff structural).mp ok
  obtain ⟨unspent, same⟩ := (overwriteCheck_spec valid).1 checks
  obtain ⟨found, nodup, allFound, rfl, rfl⟩ := (joinBlockSpentOutputs_complete_iff
    fun points => (getCoins_spec same.valid points).1).mp joins
  rw [same.coins_eq] at allFound
  exact ⟨unspent, found, _, nodup, allFound, same.trans (getCoins_spec same.valid _).2, rounds⟩

variable {final : CoinLedger} {found : List (List CoinSnapshot)}

theorem validateAndStageWithPlans_of_run (admits : AdmitsHeight W ctx.blockHeight)
    (unspent : options.checkNoUnspentOutputOverwrite = true → NoUnspentOutput (coins ws) txs)
    (nodup : (txs.flatMap spentOutpoints).Nodup)
    (allFound : joinedCoins (coins ws) txs ctx.blockHeight = found.map (map some))
    (ran : (coins ws).run (blockTransfers txs ctx.blockHeight) = some (found, final)) :
    ∃ after, StagedTo ws (txs.flatMap spentOutpoints) final after ∧
      ∀ res, validateAndStageWithPlans (joinBlockSpentOutputs getCoins) txs ws
          ctx options collection = .ok res ↔
        evaluateBlock (transactionContext ctx ws) options collection
          (txs.zip found) = .ok res.1 ∧ res.2 = after := by
  obtain ⟨checked, checks⟩ := (overwriteCheck_spec valid).2 unspent
  obtain ⟨-, same⟩ := (overwriteCheck_spec valid).1 checks
  have sameBoth := same.trans (getCoins_spec same.valid (externalOutpoints txs)).2
  have joins := (joinBlockSpentOutputs_complete_iff
    fun points => (getCoins_spec same.valid points).1).mpr
      ⟨found, nodup, by rw [same.coins_eq, allFound], rfl, rfl⟩
  have stagedNone : StagedTo ws (([] : List CTransaction).flatMap spentOutpoints)
      (coins (getCoins checked (externalOutpoints txs)).2)
      (getCoins checked (externalOutpoints txs)).2 :=
    ⟨sameBoth.valid, rfl, fun point _ => by rw [sameBoth.times_eq]⟩
  obtain ⟨after, staged, rounds⟩ := stageTransactions_spec options collection ws stagedNone
    structural.checked admits (fun _ => coinbase_spentOutpoints structural) nodup
    (sameBoth.coins_eq ▸ ran)
  refine ⟨after, staged, ?_⟩
  intro res
  rw [validateAndStageWithPlans_iff structural, evaluateBlock, ← rounds]
  constructor
  · rintro ⟨checked', joined, looked', checks', joins', stagedAll⟩
    obtain rfl : checked = checked' := Except.ok.inj (checks.symm.trans checks')
    cases Except.ok.inj (joins'.1.symm.trans joins.1)
    exact stagedAll
  · intro stagedAll
    exact ⟨checked, _, _, checks, joins, stagedAll⟩

/-- With the overwrite check on, a block is accepted exactly when none of its outputs is unspent,
its transfers run and its evaluation accepts the coins that they take. -/
theorem validateAndStageWithPlans_iff_run (distinct : DistinctTxids txs)
    (admits : AdmitsHeight W ctx.blockHeight)
    (checkOn : options.checkNoUnspentOutputOverwrite = true) {stage : BlockSpendStageResult} :
    (∃ after, validateAndStageWithPlans (joinBlockSpentOutputs getCoins) txs ws ctx options
        collection = .ok (stage, after) ∧ coins after = final) ↔
      NoUnspentOutput (coins ws) txs ∧ ∃ found,
        (coins ws).run (blockTransfers txs ctx.blockHeight) = some (found, final) ∧
        evaluateBlock (transactionContext ctx ws) options collection (txs.zip found) =
          .ok stage := by
  constructor
  · rintro ⟨after, ok, rfl⟩
    obtain ⟨unspent, found, -, nodup, allFound, -⟩ :=
      validateAndStageWithPlans_parts valid structural ok
    obtain ⟨final, ran⟩ := (joinedCoins_iff_run structural
      (blockTransfers_coherent structural distinct (unspent checkOn))).mp ⟨nodup, allFound⟩
    obtain ⟨last, staged, accepts⟩ :=
      validateAndStageWithPlans_of_run valid structural admits unspent nodup allFound ran
    obtain ⟨eval, rfl⟩ := (accepts _).mp ok
    exact ⟨unspent checkOn, found, staged.coins_eq ▸ ran, eval⟩
  · rintro ⟨unspent, found, ran, eval⟩
    obtain ⟨nodup, allFound⟩ := (joinedCoins_iff_run structural
      (blockTransfers_coherent structural distinct unspent)).mpr ⟨final, ran⟩
    obtain ⟨after, staged, accepts⟩ := validateAndStageWithPlans_of_run valid structural admits
      (fun _ => unspent) nodup allFound ran
    exact ⟨after, (accepts (stage, after)).mpr ⟨eval, rfl⟩, staged.coins_eq⟩

end Block

end LawfulSpendWorkspace

end Champy
