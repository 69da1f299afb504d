import Champy.SnapshotSpendState
import Champy.SpendWorkspaceLaws

/-!
# The snapshot spend state means a ledger

Staging effects in a snapshot workspace, and committing them in the state, both
succeed exactly when the ledger of the coins admits the transfer of the effects.
Committing also compares each spent coin with the recorded one.
-/

namespace Champy

open List Ledger SpentCoinEffect SnapshotSpendState Function

namespace SnapshotSpendState

def ledger (state : SnapshotSpendState) : CoinLedger :=
  fun outpoint => state.coins.lookup outpoint

def timeOf (state : SnapshotSpendState) (outpoint : COutPoint) : Option Int64 :=
  state.times.lookup outpoint

section Writes

variable (state : SnapshotSpendState) (point : COutPoint) (coin : CoinSnapshot)

theorem ledger_eraseCoin : (state.eraseCoin point).ledger = update state.ledger point none :=
  FinMap.lookup_erase_eq_update point state.coins

theorem timeOf_eraseCoin : (state.eraseCoin point).timeOf = update state.timeOf point none :=
  FinMap.lookup_erase_eq_update point state.times

theorem ledger_insertCoin :
    (state.insertCoin point coin).ledger = update state.ledger point (some coin) :=
  FinMap.lookup_insert_eq_update point coin state.coins

theorem ledger_addTimedCoin (time : Int64) :
    (state.addTimedCoin point coin time).ledger = update state.ledger point (some coin) :=
  FinMap.lookup_insert_eq_update point coin state.coins

theorem timeOf_addTimedCoin (time : Int64) :
    (state.addTimedCoin point coin time).timeOf = update state.timeOf point (some time) :=
  FinMap.lookup_insert_eq_update point time state.times

theorem timeOf_of_absent (absent : state.ledger point = none) : state.timeOf point = none := by
  by_contra present
  exact state.timed point present absent

end Writes

/-! ## Loops over spends and creates -/

variable (state : SnapshotSpendState) (outpoints : List COutPoint)

def eraseCoins : SnapshotSpendState :=
  outpoints.foldl eraseCoin state

theorem ledger_eraseCoins :
    (state.eraseCoins outpoints).ledger = state.ledger.without outpoints := by
  induction outpoints generalizing state with
  | nil => exact (without_nil _).symm
  | cons point outpoints ih =>
    rw [← without_update, ← ledger_eraseCoin, ← ih]
    rfl

theorem timeOf_eraseCoins :
    (state.eraseCoins outpoints).timeOf = without state.timeOf outpoints := by
  induction outpoints generalizing state with
  | nil => exact (without_nil _).symm
  | cons point outpoints ih =>
    rw [← without_update, ← timeOf_eraseCoin, ← ih]
    rfl

section Loops

variable {ε : Type} {stepSpend : SnapshotSpendState → SpentCoinEffect → Exec ε SnapshotSpendState}
  {passesSpend : SpentCoinEffect → CoinSnapshot → Prop}
  (roundSpend : ∀ state spend res, stepSpend state spend = .ok res ↔
    ∃ coin, state.ledger spend.outpoint = some coin ∧ passesSpend spend coin ∧
      res = state.eraseCoin spend.outpoint)
  {write : SnapshotSpendState → CreatedCoinEffect → SnapshotSpendState}
  {stepCreate : SnapshotSpendState → CreatedCoinEffect → Exec ε SnapshotSpendState}
  {passesCreate : CreatedCoinEffect → Prop}
  (roundCreate : ∀ state create res, stepCreate state create = .ok res ↔
    state.ledger create.outpoint = none ∧ passesCreate create ∧ res = write state create)
  (writes : ∀ state create, (write state create).ledger =
    update state.ledger create.outpoint (some create.coin))
  {state res : SnapshotSpendState} {effects : TransactionCoinEffects}

include roundSpend in
/-- A loop that erases the spent coins after a test succeeds exactly when the
ledger gives coins that pass. -/
theorem foldlM_spend_eq_ok {spends : List SpentCoinEffect} :
    spends.foldlM stepSpend state = .ok res ↔
      ∃ values rest, state.ledger.take (spends.map outpoint) =
          some (values, rest) ∧ List.Forall₂ passesSpend spends values ∧
        res = state.eraseCoins (spends.map outpoint) := by
  induction spends generalizing state with
  | nil =>
    rw [foldlM_nil, Exec.pure_eq_ok, Except.ok.injEq, map_nil, Ledger.take]
    constructor
    · rintro rfl
      exact ⟨[], state.ledger, rfl, .nil, rfl⟩
    · rintro ⟨values, rest, -, -, rfl⟩
      rfl
  | cons spend spends ih =>
    rw [foldlM_cons, Exec.bind_eq_ok, map_cons, Ledger.take]
    constructor
    · rintro ⟨next, stepped, looped⟩
      obtain ⟨coin, held, passed, rfl⟩ := (roundSpend state spend next).mp stepped
      obtain ⟨values, rest, taken, allPassed, rfl⟩ := ih.mp looped
      rw [ledger_eraseCoin] at taken
      exact ⟨coin :: values, rest, by simp [held, taken], .cons passed allPassed, rfl⟩
    · rintro ⟨values, rest, taken, passed, rfl⟩
      cases held : state.ledger spend.outpoint with
      | none => simp [held] at taken
      | some coin =>
        simp only [held, Option.map_eq_some_iff, Prod.mk.injEq] at taken
        obtain ⟨⟨later, final⟩, takenLater, rfl, rfl⟩ := taken
        cases passed with
        | cons passedFirst passedLater =>
          refine ⟨_, (roundSpend state spend _).mpr ⟨coin, held, passedFirst, rfl⟩, ?_⟩
          rw [← ledger_eraseCoin] at takenLater
          exact ih.mpr ⟨later, final, takenLater, passedLater, rfl⟩

include roundCreate writes in
/-- A loop that writes the created coins after a test succeeds exactly when all
pass and the ledger has room for them. -/
theorem foldlM_create_eq_ok {creates : List CreatedCoinEffect} :
    creates.foldlM stepCreate state = .ok res ↔
      (∃ rest, state.ledger.put (creates.map fun create => (create.outpoint, create.coin)) =
          some rest) ∧ (∀ create ∈ creates, passesCreate create) ∧
        res = creates.foldl write state := by
  induction creates generalizing state with
  | nil => simp [put, eq_comm]
  | cons create creates ih =>
    rw [foldlM_cons, Exec.bind_eq_ok, map_cons, put, forall_mem_cons, foldl_cons]
    constructor
    · rintro ⟨next, stepped, looped⟩
      obtain ⟨free, passed, rfl⟩ := (roundCreate state create next).mp stepped
      obtain ⟨⟨rest, filled⟩, allPassed, rfl⟩ := ih.mp looped
      rw [writes] at filled
      exact ⟨⟨rest, by simp [free, filled]⟩, ⟨passed, allPassed⟩, rfl⟩
    · rintro ⟨⟨rest, filled⟩, ⟨passed, allPassed⟩, rfl⟩
      cases free : state.ledger create.outpoint with
      | some coin => simp [free] at filled
      | none =>
        refine ⟨write state create, (roundCreate state create _).mpr ⟨free, passed, rfl⟩, ?_⟩
        simp only [free] at filled
        rw [← writes] at filled
        exact ih.mpr ⟨⟨rest, filled⟩, allPassed, rfl⟩

include writes in
theorem ledger_foldl_write (creates : List CreatedCoinEffect) (state : SnapshotSpendState) :
    (creates.foldl write state).ledger =
      state.ledger.adding (creates.map fun create => (create.outpoint, create.coin)) := by
  induction creates generalizing state with
  | nil => rfl
  | cons create creates ih => rw [foldl_cons, ih, writes, map_cons, adding]

include roundSpend roundCreate writes in
/-- The two loops one after the other apply the transfer of the effects. -/
theorem foldlM_effects_eq_ok :
    (effects.spends.foldlM stepSpend state >>= effects.creates.foldlM stepCreate) = .ok res ↔
      (∃ values rest, state.ledger.apply effects.transfer = some (values, rest) ∧
        List.Forall₂ passesSpend effects.spends values) ∧
      (∀ create ∈ effects.creates, passesCreate create) ∧
      res = effects.creates.foldl write (state.eraseCoins effects.spentOutpoints) := by
  rw [Exec.bind_eq_ok]
  simp only [foldlM_spend_eq_ok roundSpend, foldlM_create_eq_ok roundCreate writes]
  constructor
  · rintro ⟨spent, ⟨values, middle, taken, passed, rfl⟩, ⟨rest, filled⟩, allPassed, rfl⟩
    refine ⟨⟨values, rest, ?_, passed⟩, allPassed, rfl⟩
    obtain ⟨-, -, rfl⟩ := take_eq_some.mp taken
    rw [ledger_eraseCoins] at filled
    exact Option.bind_eq_some_iff.mpr ⟨_, taken, Option.map_eq_some_iff.mpr ⟨rest, filled, rfl⟩⟩
  · rintro ⟨⟨values, rest, applied, passed⟩, allPassed, rfl⟩
    obtain ⟨⟨values', middle⟩, taken, mapped⟩ := Option.bind_eq_some_iff.mp applied
    obtain ⟨rest', filled, pairEq⟩ := Option.map_eq_some_iff.mp mapped
    obtain ⟨rfl, rfl⟩ := Prod.mk.inj pairEq
    refine ⟨_, ⟨values', middle, taken, passed, rfl⟩, ⟨rest', ?_⟩, allPassed, rfl⟩
    obtain ⟨-, -, rfl⟩ := take_eq_some.mp taken
    change put (ledger (state.eraseCoins effects.spentOutpoints)) _ = _
    rw [ledger_eraseCoins]
    exact filled

include writes in
theorem ledger_foldl_write_eraseCoins {values : List CoinSnapshot} {rest : CoinLedger}
    (applied : state.ledger.apply effects.transfer = some (values, rest)) :
    (effects.creates.foldl write (state.eraseCoins effects.spentOutpoints)).ledger = rest := by
  rw [ledger_foldl_write writes, ledger_eraseCoins]
  exact (apply_eq_some.mp applied).2.2.2.2.symm

end Loops

/-! ## Staging -/

def staging (state : SnapshotSpendState) (effects : TransactionCoinEffects) : SnapshotSpendState :=
  effects.creates.foldl (fun state create => state.insertCoin create.outpoint create.coin)
    (state.eraseCoins effects.spentOutpoints)

section Staging

variable {state res : SnapshotSpendState} {effects : TransactionCoinEffects}

theorem stageSpend_eq_ok {spend : SpentCoinEffect} : state.stageSpend spend = .ok res ↔
      ∃ coin, state.ledger spend.outpoint = some coin ∧ True ∧
        res = state.eraseCoin spend.outpoint := by
  unfold stageSpend ledger
  cases state.coins.lookup spend.outpoint <;> simp [eq_comm (a := res)]

theorem stageCreate_eq_ok {create : CreatedCoinEffect} : state.stageCreate create = .ok res ↔
      state.ledger create.outpoint = none ∧ True ∧
        res = state.insertCoin create.outpoint create.coin := by
  unfold stageCreate ledger
  cases state.coins.lookup create.outpoint <;> simp [eq_comm (a := res)]

theorem stageEffects_eq_ok : state.stageEffects effects = .ok res ↔
      (∃ values rest, state.ledger.apply effects.transfer = some (values, rest)) ∧
        res = state.staging effects := by
  rw [stageEffects, foldlM_effects_eq_ok (fun _ _ _ => stageSpend_eq_ok)
    (fun _ _ _ => stageCreate_eq_ok) (fun state create =>
      state.ledger_insertCoin create.outpoint create.coin)]
  constructor
  · rintro ⟨⟨values, rest, applied, -⟩, -, resultEq⟩
    exact ⟨⟨values, rest, applied⟩, resultEq⟩
  · rintro ⟨⟨values, rest, applied⟩, resultEq⟩
    refine ⟨⟨values, rest, applied, forall₂_iff_zip.mpr ⟨?_, fun _ => trivial⟩⟩,
      fun _ _ => trivial, resultEq⟩
    have found := congrArg length (apply_eq_some.mp applied).2.1
    rwa [length_map, length_map, TransactionCoinEffects.transfer,
      TransactionCoinEffects.spentOutpoints, length_map] at found

theorem ledger_staging {values : List CoinSnapshot} {rest : CoinLedger}
    (applied : state.ledger.apply effects.transfer = some (values, rest)) :
    (state.staging effects).ledger = rest :=
  ledger_foldl_write_eraseCoins (fun state create =>
    state.ledger_insertCoin create.outpoint create.coin) applied

theorem timeOf_staging :
    (state.staging effects).timeOf = without state.timeOf effects.spentOutpoints := by
  have inserts : ∀ (creates : List CreatedCoinEffect) (start : SnapshotSpendState),
      (creates.foldl (fun state create => state.insertCoin create.outpoint create.coin)
        start).timeOf = start.timeOf := by
    intro creates
    induction creates with
    | nil => exact fun _ => rfl
    | cons create creates ih => exact fun start => ih _
  rw [staging, inserts, timeOf_eraseCoins]

end Staging

/-! ## Committing -/

def committing (context : BlockCommitContext) (state : SnapshotSpendState)
    (effects : TransactionCoinEffects) : SnapshotSpendState :=
  effects.creates.foldl (fun state create =>
    state.addTimedCoin create.outpoint create.coin context.previousMedianTimePast)
    (state.eraseCoins effects.spentOutpoints)

section Committing

variable {ctx : BlockCommitContext} {state res : SnapshotSpendState}
  {effects : TransactionCoinEffects}

theorem commitSpend_eq_ok {spend : SpentCoinEffect} : state.commitSpend spend = .ok res ↔
      ∃ coin, state.ledger spend.outpoint = some coin ∧ spend.coin = coin ∧
        res = state.eraseCoin spend.outpoint := by
  unfold commitSpend ledger
  cases state.coins.lookup spend.outpoint with
  | none => simp
  | some coin =>
    by_cases same : coin = spend.coin
    · simp [same, eq_comm (a := res)]
    · simp [same]

theorem commitCreate_eq_ok {create : CreatedCoinEffect} : state.commitCreate ctx create = .ok res ↔
      state.ledger create.outpoint = none ∧ create.coin.height = ctx.blockHeight ∧
        res = state.addTimedCoin create.outpoint create.coin ctx.previousMedianTimePast := by
  unfold commitCreate ledger
  by_cases sameHeight : create.coin.height = ctx.blockHeight
  · cases state.coins.lookup create.outpoint <;> simp [sameHeight, eq_comm (a := res)]
  · simp [sameHeight]

theorem commitTransaction_eq_ok : state.commitTransaction ctx effects = .ok res ↔
      (∃ rest, state.ledger.apply effects.transfer = some (effects.spends.map coin, rest)) ∧
      (∀ create ∈ effects.creates, create.coin.height = ctx.blockHeight) ∧
      res = state.committing ctx effects := by
  rw [commitTransaction, foldlM_effects_eq_ok (fun _ _ _ => commitSpend_eq_ok)
    (fun _ _ _ => commitCreate_eq_ok) (fun state create =>
      state.ledger_addTimedCoin create.outpoint create.coin ctx.previousMedianTimePast)]
  have recorded : ∀ values, List.Forall₂ (fun (spend : SpentCoinEffect) coin => spend.coin = coin)
      effects.spends values ↔ effects.spends.map coin = values := by
    intro values
    rw [← forall₂_eq_eq_eq, forall₂_map_left_iff]
  simp only [recorded]
  constructor
  · rintro ⟨⟨values, rest, applied, rfl⟩, heights, resultEq⟩
    exact ⟨⟨rest, applied⟩, heights, resultEq⟩
  · rintro ⟨⟨rest, applied⟩, heights, resultEq⟩
    exact ⟨⟨_, rest, applied, rfl⟩, heights, resultEq⟩

theorem ledger_committing {values : List CoinSnapshot} {rest : CoinLedger}
    (applied : state.ledger.apply effects.transfer = some (values, rest)) :
    (state.committing ctx effects).ledger = rest :=
  ledger_foldl_write_eraseCoins (fun state create =>
    state.ledger_addTimedCoin create.outpoint create.coin ctx.previousMedianTimePast) applied

end Committing

theorem getCoins_eq (ws : SnapshotSpendWorkspace) (outpoints : List COutPoint) :
    getCoins ws outpoints = (outpoints.map ws.staged.ledger, ws) := by
  induction outpoints with
  | nil => rfl
  | cons point outpoints ih =>
    change (_ :: (getCoins ws outpoints).1, (getCoins ws outpoints).2) = _
    rw [ih]
    rfl

end SnapshotSpendState

instance : LawfulSpendWorkspace SnapshotSpendWorkspace where
  Valid _ := True
  coins workspace := workspace.staged.ledger
  AdmitsHeight _ := True
  haveCoin_spec _ _ := ⟨rfl, trivial, rfl, rfl⟩
  getCoin_spec _ _ := ⟨rfl, trivial, rfl, rfl⟩
  stage_spec := by
    intro workspace effects index values rest _ _ _ applied
    have staged := stageEffects_eq_ok.mpr ⟨⟨values, rest, applied⟩, rfl⟩
    refine ⟨{ workspace with staged := workspace.staged.staging effects }, ?_, trivial,
      ledger_staging applied, ?_⟩
    · exact Exec.bind_eq_ok.mpr ⟨_, staged, rfl⟩
    · intro outpoint notSpent
      have kept : (workspace.staged.staging effects).timeOf outpoint =
          workspace.staged.timeOf outpoint := by
        rw [timeOf_staging, without, if_neg notSpent]
      funext height
      exact congrArg (fun time : Option Int64 => time.getD workspace.previousMedianTimePast) kept

end Champy
