import Champy.BlockEvaluation

/-!
# What spend validation needs from a workspace

A lawful workspace means a ledger of unspent coins.  Lookups answer from the
ledger, and staging the effects of a transaction applies its transfer whenever
the ledger admits it.  Over every lawful workspace, validating and staging a block
is the same as running its transfers and evaluating each transaction with the
coins that its transfer takes.
-/

namespace Champy

open SpendLookupBackend SpendWorkspace

/-- A workspace that means a ledger. -/
class LawfulSpendWorkspace (W : Type) [SpendWorkspace W] where
  Valid : W → Prop
  coins : W → Ledger COutPoint CoinSnapshot
  /-- The heights that the coins of the workspace can have. -/
  AdmitsHeight : Int32 → Prop
  haveCoin_spec : ∀ {workspace : W}, Valid workspace → ∀ outpoint,
    (haveCoin workspace outpoint).1 = (coins workspace outpoint).isSome ∧
      Valid (haveCoin workspace outpoint).2 ∧
      coins (haveCoin workspace outpoint).2 = coins workspace ∧
      previousMedianTimePast (haveCoin workspace outpoint).2 = previousMedianTimePast workspace
  getCoin_spec : ∀ {workspace : W}, Valid workspace → ∀ outpoint,
    (getCoin workspace outpoint).1 = coins workspace outpoint ∧
      Valid (getCoin workspace outpoint).2 ∧
      coins (getCoin workspace outpoint).2 = coins workspace ∧
      previousMedianTimePast (getCoin workspace outpoint).2 = previousMedianTimePast workspace
  stage_spec : ∀ {workspace : W} {effects : TransactionCoinEffects} {index : Nat}
    {values : List CoinSnapshot} {rest : CoinLedger}, Valid workspace →
    (index = 0 → effects.spends = []) →
    (∀ create ∈ effects.creates, AdmitsHeight create.coin.height ∧
      moneyRange create.coin.output.nValue = true ∧
      isUnspendable create.coin.output.scriptPubKey = false) →
    (coins workspace).apply effects.transfer = some (values, rest) →
    ∃ workspace', stageTransactionEffects workspace effects index =
        .ok workspace' ∧ Valid workspace' ∧ coins workspace' = rest ∧
      ∀ outpoint, outpoint ∉ effects.spentOutpoints →
        previousMedianTimePast workspace' outpoint = previousMedianTimePast workspace outpoint

namespace LawfulSpendWorkspace

variable {W : Type} [SpendWorkspace W] [LawfulSpendWorkspace W] {ws workspace' : W}

/-- A lookup leaves a workspace that means the same. -/
structure SameMeaning (before after : W) : Prop where
  valid : Valid after
  coins_eq : coins after = coins before
  times_eq : previousMedianTimePast after = previousMedianTimePast before

theorem SameMeaning.trans {first second third : W} (left : SameMeaning first second)
    (right : SameMeaning second third) : SameMeaning first third :=
  ⟨right.valid, right.coins_eq.trans left.coins_eq, right.times_eq.trans left.times_eq⟩

theorem getCoins_spec (valid : Valid ws) (points : List COutPoint) :
    (getCoins ws points).1 = points.map (coins ws) ∧ SameMeaning ws (getCoins ws points).2 := by
  induction points generalizing ws with
  | nil => exact ⟨rfl, valid, rfl, rfl⟩
  | cons point points ih =>
    obtain ⟨answer, nextValid, nextCoins, nextTimes⟩ := getCoin_spec valid point
    obtain ⟨answers, rest⟩ := ih nextValid
    refine ⟨?_, SameMeaning.trans ⟨nextValid, nextCoins, nextTimes⟩ rest⟩
    rw [getCoins, List.map_cons, answer, answers, nextCoins]

theorem checkNoCoins_eq_ok (valid : Valid ws) (points : List COutPoint) :
    (∀ {res : W}, checkNoCoins points ws = .ok res →
      (∀ point ∈ points, coins ws point = none) ∧ SameMeaning ws res) ∧
    ((∀ point ∈ points, coins ws point = none) → ∃ res, checkNoCoins points ws = .ok res) := by
  induction points generalizing ws with
  | nil =>
    refine ⟨?_, fun _ => ⟨ws, rfl⟩⟩
    intro res ret
    cases ret
    exact ⟨fun point mem => absurd mem List.not_mem_nil, valid, rfl, rfl⟩
  | cons point points ih =>
    obtain ⟨answer, nextValid, nextCoins, nextTimes⟩ := haveCoin_spec valid point
    obtain ⟨ok, accepts⟩ := ih nextValid
    rw [nextCoins] at ok accepts
    rw [checkNoCoins, answer, List.forall_mem_cons]
    cases held : coins ws point with
    | some coin =>
      refine ⟨?_, ?_⟩
      · intro res ret
        exact absurd ret (Exec.reject_ne_ok _ _)
      · rintro ⟨impossible, -⟩
        cases impossible
    | none =>
      refine ⟨?_, ?_⟩
      · intro res ret
        obtain ⟨free, same⟩ := ok ret
        exact ⟨⟨rfl, free⟩, SameMeaning.trans ⟨nextValid, nextCoins, nextTimes⟩ same⟩
      · rintro ⟨-, free⟩
        exact accepts free

theorem checkBlockNoUnspentOutputOverwrite_spec (valid : Valid ws) (txs : List CTransaction) :
    (∀ {res : W}, checkBlockNoUnspentOutputOverwrite txs ws = .ok res →
      NoUnspentOutput (coins ws) txs ∧ SameMeaning ws res) ∧
    (NoUnspentOutput (coins ws) txs →
      ∃ res, checkBlockNoUnspentOutputOverwrite txs ws = .ok res) := by
  obtain ⟨ok, accepts⟩ := checkNoCoins_eq_ok valid (txs.flatMap CTransaction.outputOutpoints)
  refine ⟨?_, ?_⟩
  · intro res ret
    obtain ⟨free, same⟩ := ok ret
    refine ⟨?_, same⟩
    intro tx txMem point mem
    exact free point (List.mem_flatMap.mpr ⟨tx, txMem, mem⟩)
  · intro unspent
    apply accepts
    intro point mem
    obtain ⟨tx, txMem, mem⟩ := List.mem_flatMap.mp mem
    exact unspent tx txMem point mem

end LawfulSpendWorkspace

end Champy
