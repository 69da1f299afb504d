import Champy.BlockSpentOutputs
import Champy.GridWrites
import Champy.Ledger

/-!
# What the join of a block's spent outputs finds

The join is complete exactly when no outpoint is spent twice and every input has
a coin: the output of an earlier transaction of the block, or else a coin of the
backend.  The coins then stand in the order of the inputs.
-/

namespace Champy

open List Option BlockSpentOutputLookup CTransaction Exec

/-- The unspent outputs that spend validation reads. -/
abbrev CoinLedger : Type := Ledger COutPoint CoinSnapshot

/-- The coin that the join finds for one input. -/
def joinedCoin (coins : CoinLedger) (txs : List CTransaction)
    (height : Int32) (lookup : BlockSpentOutputLookup) : Option CoinSnapshot :=
  match (createdByTransaction txs).lookup lookup.outpoint with
  | none => coins lookup.outpoint
  | some creator =>
    if creator < lookup.transactionIndex then
      (dependencyCoin txs height ⟨lookup, creator, .earlierTransaction⟩).toOption
    else none

/-- The coins of all inputs, or nothing where there is none. -/
def joinedCoins (coins : CoinLedger) (txs : List CTransaction)
    (height : Int32) : List (List (Option CoinSnapshot)) :=
  txs.mapIdx fun transactionIndex tx =>
    tx.spentOutpoints.mapIdx fun inputIndex outpoint =>
      joinedCoin coins txs height ⟨outpoint, transactionIndex, inputIndex⟩

/-! ## The plan -/

def isExternalLookup (created : FinMap COutPoint Nat) (lookup : BlockSpentOutputLookup) : Bool :=
  (created.lookup lookup.outpoint).isNone

def externalOutpoints (txs : List CTransaction) : List COutPoint :=
  ((extractBlockSpentOutputLookups txs).filter
    (isExternalLookup (createdByTransaction txs))).map outpoint

/-- The dependency of a lookup on an earlier transaction. -/
def earlierDependency (created : FinMap COutPoint Nat) (lookup : BlockSpentOutputLookup) :
    Option BlockSpentOutputDependency :=
  (created.lookup lookup.outpoint).bind fun creator =>
    if creator < lookup.transactionIndex then some ⟨lookup, creator, .earlierTransaction⟩ else none

/-- The dependency of a lookup on the same or a later transaction. -/
def invalidDependency (created : FinMap COutPoint Nat) (lookup : BlockSpentOutputLookup) :
    Option BlockSpentOutputDependency :=
  (created.lookup lookup.outpoint).bind fun creator =>
    if creator < lookup.transactionIndex then none
    else some ⟨lookup, creator, .sameOrLaterTransaction⟩

section Names

variable (txs : List CTransaction)

def externalLookups : List BlockSpentOutputLookup :=
  (extractBlockSpentOutputLookups txs).filter (isExternalLookup (createdByTransaction txs))

def earlierDependencies : List BlockSpentOutputDependency :=
  (extractBlockSpentOutputLookups txs).filterMap (earlierDependency (createdByTransaction txs))

end Names

theorem foldl_planLookup (created : FinMap COutPoint Nat) (lookups : List BlockSpentOutputLookup)
    (plan : BlockSpentOutputLookupPlan) :
    lookups.foldl (planLookup created) plan =
      ⟨plan.externalLookups ++ lookups.filter (isExternalLookup created),
        plan.intraBlockDependencies ++ lookups.filterMap (earlierDependency created),
        plan.invalidOrderDependencies ++ lookups.filterMap (invalidDependency created)⟩ := by
  induction lookups generalizing plan with
  | nil => simp
  | cons lookup lookups ih =>
    rw [foldl_cons, ih]
    cases creator : created.lookup lookup.outpoint with
    | none =>
      simp [planLookup, isExternalLookup, earlierDependency, invalidDependency, creator]
    | some index =>
      by_cases earlier : index < lookup.transactionIndex
      · simp [planLookup, isExternalLookup, earlierDependency, invalidDependency, creator, earlier]
      · simp [planLookup, isExternalLookup, earlierDependency, invalidDependency, creator, earlier]

theorem map_outpoint_transactionLookups (tx : CTransaction) (index : Nat) :
    (transactionLookups tx index).map outpoint = tx.spentOutpoints := by
  rw [transactionLookups, List.map_map]
  exact zipIdx_map_fst 0 tx.spentOutpoints

theorem map_outpoint_extractBlockSpentOutputLookups (txs : List CTransaction) :
    (extractBlockSpentOutputLookups txs).map outpoint = txs.flatMap spentOutpoints := by
  rw [extractBlockSpentOutputLookups, map_flatMap]
  simp only [map_outpoint_transactionLookups]
  rw [← flatMap_map Prod.fst spentOutpoints, zipIdx_map_fst]

theorem firstDuplicateLookup_eq_none {seen : List COutPoint}
    {lookups : List BlockSpentOutputLookup} :
    firstDuplicateLookup seen lookups = none ↔ (lookups.map outpoint).Nodup ∧
        ∀ point ∈ lookups.map outpoint, point ∉ seen := by
  induction lookups generalizing seen with
  | nil => simp [firstDuplicateLookup]
  | cons lookup lookups ih =>
    rw [firstDuplicateLookup, map_cons, nodup_cons, forall_mem_cons, contains_eq_mem]
    by_cases before : lookup.outpoint ∈ seen
    · simp [before]
    · simp only [before, decide_false, Bool.false_eq_true, if_false, not_false_eq_true, true_and]
      rw [ih]
      simp only [mem_cons, not_or]
      constructor
      · rintro ⟨nodup, fresh⟩
        exact ⟨⟨fun mem => (fresh lookup.outpoint mem).1 rfl, nodup⟩,
          fun other mem => (fresh other mem).2⟩
      · rintro ⟨⟨notMem, nodup⟩, fresh⟩
        exact ⟨nodup, fun other mem => ⟨fun same => notMem (same ▸ mem), fresh other mem⟩⟩

section Failures

variable {S L : Type} {before : L → L → Bool} {status : S} {lookup : L} {failure : Option (S × L)}

@[simp]
theorem keepFirstFailure_ne_none : keepFirstFailure before status lookup failure ≠ none := by
  cases failure with
  | none => simp [keepFirstFailure]
  | some pending =>
    simp only [keepFirstFailure]
    split <;> simp

theorem keepFirstFailure_status {never : S} (reported : status ≠ never)
    (previous : ∀ pending, failure = some pending → pending.1 ≠ never) :
    ∀ res, keepFirstFailure before status lookup failure = some res → res.1 ≠ never := by
  intro res updated
  cases failure with
  | none =>
    cases updated
    exact reported
  | some pending =>
    simp only [keepFirstFailure] at updated
    split at updated
    · cases updated
      exact reported
    · exact previous res updated

theorem foldl_keepFirstFailure {failures : List (S × L)} {failed : L}
    (asymmetric : ∀ other, before failed other = true → before other failed = false)
    (irreflexive : before failed failed = false)
    (least : ∀ failure ∈ failures, failure.2 = failed ∨ before failed failure.2 = true)
    (leastKept : ∀ pending, failure = some pending →
      pending.2 = failed ∨ before failed pending.2 = true)
    (occurs : failed ∈ failures.map Prod.snd ∨ failure.map Prod.snd = some failed) :
    (failures.foldl (fun kept next => keepFirstFailure before next.1 next.2 kept) failure).map
      Prod.snd = some failed := by
  induction failures generalizing failure with
  | nil => simpa using occurs
  | cons next failures ih =>
    rw [forall_mem_cons] at least
    rw [map_cons, mem_cons] at occurs
    have notBefore : before next.2 failed = false := by
      rcases least.1 with same | earlier
      · rw [same, irreflexive]
      · exact asymmetric _ earlier
    apply ih least.2
    · intro pending kept
      cases failure with
      | none =>
        cases kept
        exact least.1
      | some previous =>
        simp only [keepFirstFailure] at kept
        split at kept
        · cases kept
          exact least.1
        · exact leastKept pending kept
    · rcases occurs with (here | later) | kept
      · right
        cases failure with
        | none => simp [keepFirstFailure, here]
        | some previous =>
          rcases leastKept previous rfl with same | after
          · simp only [keepFirstFailure]
            split <;> simp [here, same]
          · simp [keepFirstFailure, ← here, after]
      · exact Or.inl later
      · right
        cases failure with
        | none => cases kept
        | some previous =>
          obtain rfl : previous.2 = failed := by simpa using kept
          simp [keepFirstFailure, notBefore]

end Failures

variable {txs : List CTransaction}

/-- No failure shows before the lookups exactly when no outpoint is spent twice
and no input spends an output of the same or a later transaction. -/
theorem planFailure_eq_none : planFailure txs (planBlockSpentOutputLookups txs) = none ↔
      (txs.flatMap spentOutpoints).Nodup ∧ ∀ lookup ∈ extractBlockSpentOutputLookups txs,
          invalidDependency (createdByTransaction txs) lookup = none := by
  rw [← map_outpoint_extractBlockSpentOutputLookups, ← filterMap_eq_nil_iff,
    planBlockSpentOutputLookups, foldl_planLookup, planFailure]
  have duplicates : firstDuplicateSpend txs = none ↔
      ((extractBlockSpentOutputLookups txs).map outpoint).Nodup := by
    rw [firstDuplicateSpend, firstDuplicateLookup_eq_none]
    simp
  rw [← duplicates]
  cases firstDuplicateSpend txs <;>
    cases (extractBlockSpentOutputLookups txs).filterMap
      (invalidDependency (createdByTransaction txs)) <;>
    simp [updateFailure]

/-! ## Filling in the coins -/

def BlockSpentOutputLookup.place (lookup : BlockSpentOutputLookup) : Nat × Nat :=
  (lookup.transactionIndex, lookup.inputIndex)

noncomputable abbrev inputCells :
    CellAccess (List (List (Option CoinSnapshot))) (Nat × Nat) (Option CoinSnapshot) :=
  CellAccess.row.rows

theorem setInputCoin_eq_write (coins : List (List (Option CoinSnapshot)))
    (lookup : BlockSpentOutputLookup) (coin : CoinSnapshot) :
    setInputCoin coins lookup coin = inputCells.write coins lookup.place (some coin) :=
  rfl

theorem planFailure_status {plan : BlockSpentOutputLookupPlan}
    {failure : BlockSpentOutputJoinStatus × BlockSpentOutputLookup}
    (failed : planFailure txs plan = some failure) : failure.1 ≠ .complete := by
  have duplicateStatus : ∀ res, ((firstDuplicateSpend txs).elim none fun lookup =>
      updateFailure .duplicateSpend lookup none) = some res → res.1 ≠ .complete := by
    cases firstDuplicateSpend txs with
    | none =>
      intro res impossible
      cases impossible
    | some lookup =>
      intro res updated
      cases updated
      nofun
  unfold planFailure at failed
  cases first : plan.invalidOrderDependencies.head? with
  | none =>
    rw [first] at failed
    exact duplicateStatus failure failed
  | some edge =>
    rw [first] at failed
    exact keepFirstFailure_status (by decide) duplicateStatus failure failed

/-- The external lookups all succeed exactly when no failure is left, and then
each one has written its coin. -/
theorem foldl_joinExternal (coins : CoinLedger)
    (lookups : List BlockSpentOutputLookup) (pending : PendingJoin)
    (before : ∀ failure, pending.failure = some failure → failure.1 ≠ .complete) :
    let res := (lookups.map fun lookup => (lookup, coins lookup.outpoint)).foldl joinExternal
      pending
    (res.failure = none ↔
        pending.failure = none ∧ ∀ lookup ∈ lookups, coins lookup.outpoint ≠ none) ∧
      (∀ failure, res.failure = some failure → failure.1 ≠ .complete) ∧
      ((∀ lookup ∈ lookups, coins lookup.outpoint ≠ none) →
        res.inputCoins = lookups.foldl (fun grid lookup =>
          inputCells.write grid lookup.place (coins lookup.outpoint)) pending.inputCoins) := by
  induction lookups generalizing pending with
  | nil => simpa using before
  | cons lookup lookups ih =>
    rw [map_cons, foldl_cons, forall_mem_cons, foldl_cons]
    obtain ⟨failureIff, statuses, coinsEq⟩ :=
      ih (joinExternal pending (lookup, coins lookup.outpoint)) (by
        unfold joinExternal
        cases coins lookup.outpoint with
        | none => exact keepFirstFailure_status (by decide) before
        | some coin => exact before)
    refine ⟨?_, statuses, ?_⟩
    · rw [failureIff]
      cases found : coins lookup.outpoint with
      | none => simp [joinExternal, updateFailure]
      | some coin => simp [joinExternal]
    · rintro ⟨present, allPresent⟩
      rw [coinsEq allPresent]
      obtain ⟨coin, found⟩ := ne_none_iff_exists'.mp present
      rw [found]
      rfl

theorem foldlM_joinDependency_eq_ok {height : Int32}
    {dependencies : List BlockSpentOutputDependency} {pending res : PendingJoin} :
    dependencies.foldlM (joinDependency txs height) pending = .ok res ↔
      (∀ edge ∈ dependencies, (dependencyCoin txs height edge).toOption ≠ none) ∧
      res = ⟨pending.failure, dependencies.foldl (fun grid edge =>
        inputCells.write grid edge.lookup.place
          (dependencyCoin txs height edge).toOption) pending.inputCoins⟩ := by
  induction dependencies generalizing pending with
  | nil =>
    rw [foldlM_nil, pure_eq_ok, Except.ok.injEq, eq_comm]
    simp
  | cons edge dependencies ih =>
    rw [foldlM_cons, bind_eq_ok, forall_mem_cons, foldl_cons]
    cases found : dependencyCoin txs height edge with
    | error failure => simp [joinDependency, found, Except.toOption]
    | ok coin =>
      simp only [joinDependency, found, ok_bind, pure_eq_ok, Except.ok.injEq,
        exists_eq_left', ih, setInputCoin_eq_write, Except.toOption, ne_eq, reduceCtorEq,
        not_false_eq_true, true_and]

theorem requireInputCoin_eq_ok (coin : Option CoinSnapshot) (res : CoinSnapshot) :
    requireInputCoin coin = .ok res ↔ coin = some res := by
  cases coin <;> simp [requireInputCoin]

theorem mapM_requireInputCoin_eq_ok {grid : List (List (Option CoinSnapshot))}
    {coins : List (List CoinSnapshot)} :
    grid.mapM (fun row => row.mapM requireInputCoin) = .ok coins ↔
      grid = coins.map (List.map some) :=
  mapM_eq_ok fun _ _ => mapM_eq_ok requireInputCoin_eq_ok

theorem mem_extractBlockSpentOutputLookups {lookup : BlockSpentOutputLookup} :
    lookup ∈ extractBlockSpentOutputLookups txs ↔ ∃ tx, txs[lookup.transactionIndex]? = some tx ∧
        tx.spentOutpoints[lookup.inputIndex]? = some lookup.outpoint := by
  rw [extractBlockSpentOutputLookups, mem_flatMap]
  constructor
  · rintro ⟨⟨tx, transactionIndex⟩, txMem, lookupMem⟩
    obtain ⟨⟨point, inputIndex⟩, outpointMem, rfl⟩ := List.mem_map.mp lookupMem
    exact ⟨tx, mem_zipIdx_iff_getElem?.mp txMem, mem_zipIdx_iff_getElem?.mp outpointMem⟩
  · rintro ⟨tx, txEq, outpointEq⟩
    exact ⟨(tx, lookup.transactionIndex), mem_zipIdx_iff_getElem?.mpr txEq,
      List.mem_map.mpr ⟨(lookup.outpoint, lookup.inputIndex),
        mem_zipIdx_iff_getElem?.mpr outpointEq, rfl⟩⟩

/-! ## The join as a whole -/

section Joined

variable {W : Type} {lookupCoins : SpendLookupBatch W} {txs : List CTransaction}
  {height : Int32} {state : W} {coins : CoinLedger}

def coinAtPlace (coins : CoinLedger) (txs : List CTransaction)
    (height : Int32) (place : Nat × Nat) : Option CoinSnapshot :=
  txs[place.1]?.bind fun tx => tx.spentOutpoints[place.2]?.bind fun outpoint =>
    joinedCoin coins txs height ⟨outpoint, place.1, place.2⟩

variable {lookup : BlockSpentOutputLookup}

theorem coinAtPlace_of_mem (mem : lookup ∈ extractBlockSpentOutputLookups txs) :
    coinAtPlace coins txs height lookup.place = joinedCoin coins txs height lookup := by
  obtain ⟨tx, txEq, outpointEq⟩ := mem_extractBlockSpentOutputLookups.mp mem
  simp only [coinAtPlace, place, txEq, outpointEq, bind_some]

theorem fill_emptyInputCoins {written : Nat × Nat → Prop}
    (covers : ∀ lookup ∈ extractBlockSpentOutputLookups txs, written lookup.place) :
    inputCells.fill (coinAtPlace coins txs height) written (emptyInputCoins txs) =
      joinedCoins coins txs height := by
  simp only [CellAccess.rows, CellAccess.row]
  rw [emptyInputCoins, joinedCoins, mapIdx_map]
  apply mapIdx_congr
  intro transactionIndex tx txEq
  rw [mapIdx_map]
  apply mapIdx_congr
  intro inputIndex point outpointEq
  have mem : ⟨point, transactionIndex, inputIndex⟩ ∈ extractBlockSpentOutputLookups txs :=
    mem_extractBlockSpentOutputLookups.mpr ⟨tx, txEq, outpointEq⟩
  have covered : written (transactionIndex, inputIndex) := covers _ mem
  rw [if_pos covered]
  exact coinAtPlace_of_mem mem

theorem joinedCoin_of_external (coins : CoinLedger) (height : Int32)
    (external : isExternalLookup (createdByTransaction txs) lookup = true) :
    joinedCoin coins txs height lookup = coins lookup.outpoint ∧
      invalidDependency (createdByTransaction txs) lookup = none := by
  rw [isExternalLookup, isNone_iff_eq_none] at external
  simp [joinedCoin, invalidDependency, external]

theorem joinedCoin_of_earlier (coins : CoinLedger) (height : Int32)
    {edge : BlockSpentOutputDependency}
    (earlier : earlierDependency (createdByTransaction txs) lookup = some edge) :
    edge.lookup = lookup ∧
      joinedCoin coins txs height lookup = (dependencyCoin txs height edge).toOption ∧
      invalidDependency (createdByTransaction txs) lookup = none := by
  obtain ⟨creator, created, chosen⟩ := bind_eq_some_iff.mp earlier
  by_cases before : creator < lookup.transactionIndex
  · rw [if_pos before, Option.some.injEq] at chosen
    subst chosen
    simp [joinedCoin, invalidDependency, created, before]
  · rw [if_neg before] at chosen
    cases chosen

theorem lookup_cases (coins : CoinLedger) (txs : List CTransaction)
    (height : Int32) (lookup : BlockSpentOutputLookup) :
    isExternalLookup (createdByTransaction txs) lookup = true ∨
      (∃ edge, earlierDependency (createdByTransaction txs) lookup = some edge) ∨
      (invalidDependency (createdByTransaction txs) lookup ≠ none ∧
        joinedCoin coins txs height lookup = none) := by
  cases created : (createdByTransaction txs).lookup lookup.outpoint with
  | none =>
    left
    rw [isExternalLookup, created, isNone_none]
  | some creator =>
    right
    by_cases before : creator < lookup.transactionIndex
    · left
      exact ⟨_, by rw [earlierDependency, created, bind_some, if_pos before]⟩
    · right
      rw [invalidDependency, created, bind_some, if_neg before]
      simp only [joinedCoin, created, if_neg before, ne_eq, reduceCtorEq, not_false_eq_true,
        and_self]

/-- All inputs have a coin exactly when the three kinds of lookup are fine. -/
theorem forall_joinedCoin_ne_none :
    (∀ lookup ∈ extractBlockSpentOutputLookups txs, joinedCoin coins txs height lookup ≠ none) ↔
      (∀ lookup ∈ extractBlockSpentOutputLookups txs,
        invalidDependency (createdByTransaction txs) lookup = none) ∧
      (∀ lookup ∈ externalLookups txs, coins lookup.outpoint ≠ none) ∧
      ∀ edge ∈ earlierDependencies txs, (dependencyCoin txs height edge).toOption ≠ none := by
  constructor
  · intro found
    refine ⟨?_, ?_, ?_⟩
    · intro lookup mem
      rcases lookup_cases coins txs height lookup with
        external | ⟨edge, earlier⟩ | ⟨-, missing⟩
      · exact (joinedCoin_of_external coins height external).2
      · exact (joinedCoin_of_earlier coins height earlier).2.2
      · exact absurd missing (found lookup mem)
    · intro lookup mem
      obtain ⟨mem, external⟩ := mem_filter.mp mem
      rw [← (joinedCoin_of_external coins height external).1]
      exact found lookup mem
    · intro edge mem
      obtain ⟨lookup, lookupMem, earlier⟩ := mem_filterMap.mp mem
      rw [← (joinedCoin_of_earlier coins height earlier).2.1]
      exact found lookup lookupMem
  · rintro ⟨ordered, externals, dependencies⟩ lookup mem
    rcases lookup_cases coins txs height lookup with
      external | ⟨edge, earlier⟩ | ⟨invalid, -⟩
    · rw [(joinedCoin_of_external coins height external).1]
      exact externals lookup (mem_filter.mpr ⟨mem, external⟩)
    · rw [(joinedCoin_of_earlier coins height earlier).2.1]
      exact dependencies edge (mem_filterMap.mpr ⟨lookup, mem, earlier⟩)
    · exact absurd (ordered lookup mem) invalid

theorem joinedCoin_ne_none_of_joinedCoins {found : List (List CoinSnapshot)}
    (allFound : joinedCoins coins txs height = found.map (List.map some))
    (mem : lookup ∈ extractBlockSpentOutputLookups txs) :
    joinedCoin coins txs height lookup ≠ none := by
  obtain ⟨tx, txEq, outpointEq⟩ := mem_extractBlockSpentOutputLookups.mp mem
  let row := tx.spentOutpoints.mapIdx fun inputIndex point =>
    joinedCoin coins txs height ⟨point, lookup.transactionIndex, inputIndex⟩
  have rowMem : row ∈ joinedCoins coins txs height := by
    apply mem_of_getElem? (i := lookup.transactionIndex)
    rw [joinedCoins, getElem?_mapIdx, txEq]
    rfl
  have cellMem : joinedCoin coins txs height lookup ∈ row := by
    apply mem_of_getElem? (i := lookup.inputIndex)
    rw [getElem?_mapIdx, outpointEq]
    rfl
  rw [allFound, List.mem_map] at rowMem
  obtain ⟨coinRow, -, rowEq⟩ := rowMem
  rw [← rowEq, List.mem_map] at cellMem
  obtain ⟨coin, -, coinEq⟩ := cellMem
  exact coinEq ▸ some_ne_none coin

theorem writes_eq_joinedCoins (found : ∀ lookup ∈ extractBlockSpentOutputLookups txs,
      joinedCoin coins txs height lookup ≠ none) :
    (earlierDependencies txs).foldl (fun grid edge => inputCells.write grid edge.lookup.place
        (dependencyCoin txs height edge).toOption)
      ((externalLookups txs).foldl
        (fun grid lookup => inputCells.write grid lookup.place (coins lookup.outpoint))
        (emptyInputCoins txs)) =
      joinedCoins coins txs height := by
  have externalAgree : ∀ lookup ∈ externalLookups txs,
      coins lookup.outpoint = coinAtPlace coins txs height lookup.place := by
    intro lookup mem
    obtain ⟨mem, external⟩ := mem_filter.mp mem
    rw [coinAtPlace_of_mem mem, (joinedCoin_of_external coins height external).1]
  have earlierAgree : ∀ edge ∈ earlierDependencies txs, (dependencyCoin txs height edge).toOption =
        coinAtPlace coins txs height edge.lookup.place := by
    intro edge mem
    obtain ⟨lookup, lookupMem, earlier⟩ := mem_filterMap.mp mem
    obtain ⟨sameLookup, coinEq, -⟩ := joinedCoin_of_earlier coins height earlier
    rw [sameLookup, coinAtPlace_of_mem lookupMem, coinEq]
  rw [inputCells.foldl_write _ place _ externalAgree,
    inputCells.foldl_write _ (fun edge => edge.lookup.place)
      (fun edge => (dependencyCoin txs height edge).toOption) earlierAgree,
    inputCells.fill_fill]
  apply fill_emptyInputCoins
  intro lookup mem
  rcases lookup_cases coins txs height lookup with
    external | ⟨edge, earlier⟩ | ⟨-, missing⟩
  · left
    exact mem_map_of_mem (mem_filter.mpr ⟨mem, external⟩)
  · right
    have sameLookup := (joinedCoin_of_earlier coins height earlier).1
    rw [← sameLookup]
    exact mem_map_of_mem (f := fun edge => edge.lookup.place)
      (mem_filterMap.mpr ⟨lookup, mem, earlier⟩)
  · exact absurd missing (found lookup mem)

theorem zip_coins (coins : CoinLedger) (lookups : List BlockSpentOutputLookup) :
    lookups.zip ((lookups.map outpoint).map coins) =
      lookups.map fun lookup => (lookup, coins lookup.outpoint) := by
  rw [List.map_map, zip_map_self]
  rfl

theorem joinBlockSpentOutputs_complete_iff
    (answers : ∀ points, (lookupCoins state points).1 = points.map coins)
    {joined : BlockSpentOutputJoin} {state' : W} :
    (joinBlockSpentOutputs lookupCoins txs height state = .ok (joined, state') ∧
        joined.status = .complete) ↔
      ∃ found : List (List CoinSnapshot), (txs.flatMap spentOutpoints).Nodup ∧
        joinedCoins coins txs height = found.map (List.map some) ∧
        joined = ⟨.complete, none, found, none⟩ ∧
        state' = (lookupCoins state (externalOutpoints txs)).2 := by
  have planEq : planBlockSpentOutputLookups txs = ⟨externalLookups txs, earlierDependencies txs,
        (extractBlockSpentOutputLookups txs).filterMap
          (invalidDependency (createdByTransaction txs))⟩ := by
    rw [planBlockSpentOutputLookups, foldl_planLookup]
    rfl
  have planned : planFailure txs (planBlockSpentOutputLookups txs) = none ↔ _ := planFailure_eq_none
  unfold joinBlockSpentOutputs
  cases failed : planFailure txs (planBlockSpentOutputLookups txs) with
  | some failure =>
    simp only [failed]
    constructor
    · rintro ⟨ret, complete⟩
      cases ret
      exact absurd complete (planFailure_status failed)
    · rintro ⟨found, nodup, allFound, -, -⟩
      have ordered := (forall_joinedCoin_ne_none.mp fun lookup mem =>
        joinedCoin_ne_none_of_joinedCoins allFound mem).1
      rw [planned.mpr ⟨nodup, ordered⟩] at failed
      cases failed
  | none =>
    obtain ⟨nodup, ordered⟩ := planned.mp failed
    simp only [failed]
    rw [planEq]
    simp only [answers, length_map, ne_eq, not_true_eq_false, if_false, zip_coins]
    obtain ⟨failureIff, statuses, coinsEq⟩ := foldl_joinExternal coins
      (externalLookups txs) ⟨none, emptyInputCoins txs⟩ nofun
    constructor
    · rintro ⟨ret, complete⟩
      obtain ⟨pending, looped, rest⟩ := bind_eq_ok.mp ret
      obtain ⟨dependencies, pendingEq⟩ := foldlM_joinDependency_eq_ok.mp looped
      rw [pendingEq] at rest
      cases failure : ((externalLookups txs).map
          (fun lookup => (lookup, coins lookup.outpoint)) |>.foldl joinExternal
          ⟨none, emptyInputCoins txs⟩).failure with
      | some failed =>
        simp only [failure] at rest
        cases rest
        exact absurd complete (statuses _ failure)
      | none =>
        simp only [failure] at rest
        obtain ⟨found, mapped, joinedEq⟩ := bind_eq_ok.mp rest
        have externals := (failureIff.mp failure).2
        have allFound := forall_joinedCoin_ne_none.mpr ⟨ordered, externals, dependencies⟩
        rw [coinsEq externals, writes_eq_joinedCoins allFound,
          mapM_requireInputCoin_eq_ok] at mapped
        cases joinedEq
        exact ⟨found, nodup, mapped, rfl, rfl⟩
    · rintro ⟨found, -, allFound, rfl, rfl⟩
      have present : ∀ lookup ∈ extractBlockSpentOutputLookups txs,
          joinedCoin coins txs height lookup ≠ none :=
        fun lookup mem => joinedCoin_ne_none_of_joinedCoins allFound mem
      obtain ⟨-, externals, dependencies⟩ := forall_joinedCoin_ne_none.mp present
      refine ⟨?_, rfl⟩
      rw [bind_eq_ok]
      refine ⟨_, foldlM_joinDependency_eq_ok.mpr ⟨dependencies, rfl⟩, ?_⟩
      simp only [failureIff.mpr ⟨rfl, externals⟩, coinsEq externals, writes_eq_joinedCoins present]
      exact bind_eq_ok.mpr ⟨found, mapM_requireInputCoin_eq_ok.mpr allFound, rfl⟩

end Joined

end Champy
