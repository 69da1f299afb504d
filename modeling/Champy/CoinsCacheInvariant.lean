import Champy.CoinsCache

/-!
# The invariant of the coins cache

`CacheLayer.Valid` relates one layer to the logical map of the view below it:
the flags of every entry mean what they should, the linked list threads exactly
the flagged entries, and the two counters are the sums they cache.
`CoinsView.WellFormed` asks this of every layer of a stack.

Every operation on a layer is described by the entry it leaves, so that the
proofs about the logical map never look at the list or the counters again.
-/

namespace Champy

open List CCoinsCacheEntry Bool FinMap

theorem trySub_of_le {value amount : Nat} (enough : amount ≤ value) :
    trySub value amount = value - amount := by
  simp [trySub, Nat.not_lt.mpr enough]

@[simp]
theorem Coin.isSpent_empty : Coin.empty.isSpent = true :=
  rfl

@[simp]
theorem Coin.dynamicMemoryUsage_empty : Coin.empty.dynamicMemoryUsage = 0 :=
  rfl

namespace CacheLayer

variable {layer res : CacheLayer} {point : COutPoint}

def flaggedAt (layer : CacheLayer) (outpoint : COutPoint) : Bool :=
  (layer.cacheCoins.lookup outpoint).any flagged

/-- The list threads exactly the flagged entries. -/
def Threaded (layer : CacheLayer) : Prop :=
  ∃ outpoints, layer.links.Represents outpoints ∧
    ∀ outpoint, outpoint ∈ outpoints ↔ layer.flaggedAt outpoint = true

variable {entry : CCoinsCacheEntry}

theorem flaggedAt_of_lookup (found : layer.cacheCoins.lookup point = some entry) :
    layer.flaggedAt point = entry.flagged := by
  rw [flaggedAt, found]
  rfl

theorem Threaded.of_same_flags (threaded : layer.Threaded) (sameLinks : res.links = layer.links)
    (sameFlags : ∀ other, res.flaggedAt other = layer.flaggedAt other) : res.Threaded := by
  obtain ⟨points, threads, members⟩ := threaded
  refine ⟨points, sameLinks ▸ threads, ?_⟩
  intro other
  rw [members, sameFlags]

theorem Threaded.of_pushBack (threaded : layer.Threaded) (unflagged : layer.flaggedAt point = false)
    (newLinks : res.links = layer.links.pushBack point)
    (newFlags : ∀ other, res.flaggedAt other =
      (decide (other = point) || layer.flaggedAt other)) : res.Threaded := by
  obtain ⟨points, threads, members⟩ := threaded
  have unlinked : point ∉ points := by
    rw [members, unflagged]
    simp
  refine ⟨points ++ [point], newLinks ▸ threads.pushBack unlinked, ?_⟩
  intro other
  rw [newFlags, mem_append, mem_singleton, members, or_eq_true, decide_eq_true_iff]
  exact or_comm

theorem Threaded.of_unlink (threaded : layer.Threaded) (flagged : layer.flaggedAt point = true)
    (newLinks : res.links = layer.links.unlink point)
    (newFlags : ∀ other, res.flaggedAt other =
      (!decide (other = point) && layer.flaggedAt other)) : res.Threaded := by
  obtain ⟨points, threads, members⟩ := threaded
  have linked : point ∈ points := (members point).mpr flagged
  obtain ⟨front, back, rfl⟩ := append_of_mem linked
  refine ⟨front ++ back, newLinks ▸ threads.unlink, ?_⟩
  intro other
  have nodup := threads.nodup
  rw [nodup_middle, nodup_cons] at nodup
  rw [newFlags, and_eq_true, ← members, not_eq_true', decide_eq_false_iff_not]
  constructor
  · intro mem
    refine ⟨?_, ?_⟩
    · rintro rfl
      exact nodup.1 mem
    · rw [mem_append] at mem
      rcases mem with inFront | inBack
      · exact mem_append_left _ inFront
      · exact mem_append_right _ (mem_cons_of_mem _ inBack)
  · rintro ⟨ne, mem⟩
    rw [mem_append, mem_cons] at mem
    rw [mem_append]
    rcases mem with inFront | same | inBack
    · exact .inl inFront
    · exact absurd same ne
    · exact .inr inBack

theorem flaggedAt_insert {other : COutPoint}
    (stored : res.cacheCoins = layer.cacheCoins.insert point entry) :
    res.flaggedAt other = if other = point then entry.flagged else layer.flaggedAt other := by
  by_cases same : other = point
  · rw [if_pos same, same]
    exact flaggedAt_of_lookup (by rw [stored, Finmap.lookup_insert])
  · rw [if_neg same, flaggedAt, flaggedAt, stored, Finmap.lookup_insert_of_ne _ same]

theorem flaggedAt_erase {other : COutPoint}
    (stored : res.cacheCoins = layer.cacheCoins.erase point) :
    res.flaggedAt other = (!decide (other = point) && layer.flaggedAt other) := by
  by_cases same : other = point
  · rw [same, flaggedAt, stored, Finmap.lookup_erase]
    simp
  · rw [flaggedAt, flaggedAt, stored, Finmap.lookup_erase_ne same]
    simp [same]

/-! ## Primitive operations -/

section Primitive

variable {entry : CCoinsCacheEntry}

theorem Threaded.storeCoin (threaded : layer.Threaded) (point : COutPoint) (coin : Coin) :
    (layer.storeCoin point coin).Threaded := by
  apply threaded.of_same_flags (layer.storeCoin_links point coin)
  intro other
  rw [flaggedAt_insert (layer.storeCoin_cacheCoins point coin)]
  by_cases same : other = point
  · rw [if_pos same, same, flaggedAt, entryAt]
    cases layer.cacheCoins.lookup point <;> rfl
  · rw [if_neg same]

@[simp]
theorem addFlags_counters (dirty fresh : Bool) :
    (layer.addFlags point dirty fresh).dirtyCount = layer.dirtyCount ∧
      (layer.addFlags point dirty fresh).cachedCoinsUsage = layer.cachedCoinsUsage ∧
      (layer.addFlags point dirty fresh).blockHash = layer.blockHash := by
  unfold addFlags
  split <;> exact ⟨rfl, rfl, rfl⟩

variable (found : layer.cacheCoins.lookup point = some entry)

include found

theorem addFlags_eq (dirty fresh : Bool) : layer.addFlags point dirty fresh = { layer with
        links := if entry.flagged then layer.links else layer.links.pushBack point
        cacheCoins := layer.cacheCoins.insert point
          ⟨entry.coin, entry.dirty || dirty, entry.fresh || fresh⟩ } := by
  rw [addFlags, found]

theorem Threaded.addFlags (threaded : layer.Threaded) {dirty fresh : Bool}
    (some : (dirty || fresh) = true) : (layer.addFlags point dirty fresh).Threaded := by
  have nowFlagged : flagged ⟨entry.coin, entry.dirty || dirty, entry.fresh || fresh⟩ = true := by
    revert some
    cases entry.dirty <;> cases entry.fresh <;> cases dirty <;> cases fresh <;>
      simp [flagged]
  have newFlags : ∀ other, (layer.addFlags point dirty fresh).flaggedAt other =
      (decide (other = point) || layer.flaggedAt other) := by
    intro other
    rw [addFlags_eq found, flaggedAt_insert rfl, nowFlagged]
    by_cases same : other = point <;> simp [same]
  by_cases flagged : entry.flagged = true
  · apply threaded.of_same_flags
    · rw [addFlags_eq found]
      simp [flagged]
    · intro other
      rw [newFlags]
      by_cases same : other = point
      · rw [same, flaggedAt_of_lookup found, flagged]
        simp
      · simp [same]
  · have unflagged : layer.flaggedAt point = false := by
      rw [flaggedAt_of_lookup found]
      simpa using flagged
    apply threaded.of_pushBack unflagged _ newFlags
    rw [addFlags_eq found]
    simp [flagged]

/-- An entry that loses its flags or is removed leaves the list if it was on it. -/
theorem Threaded.of_cleared (threaded : layer.Threaded)
    (newLinks : res.links = if entry.flagged then layer.links.unlink point else layer.links)
    (newFlags : ∀ other, res.flaggedAt other =
      (!decide (other = point) && layer.flaggedAt other)) : res.Threaded := by
  have flaggedEq := flaggedAt_of_lookup found
  by_cases flagged : entry.flagged = true
  · rw [if_pos flagged] at newLinks
    exact threaded.of_unlink (flaggedEq.trans flagged) newLinks newFlags
  · rw [if_neg flagged] at newLinks
    apply threaded.of_same_flags newLinks
    intro other
    rw [newFlags]
    by_cases same : other = point
    · rw [same, flaggedEq]
      simpa using flagged
    · simp [same]

theorem eraseEntry_eq : layer.eraseEntry point = { layer with
        links := if entry.flagged then layer.links.unlink point else layer.links
        cacheCoins := layer.cacheCoins.erase point } := by
  rw [eraseEntry, found]

theorem Threaded.eraseEntry (threaded : layer.Threaded) : (layer.eraseEntry point).Threaded := by
  rw [eraseEntry_eq found]
  exact threaded.of_cleared found rfl fun _ => flaggedAt_erase rfl

theorem setClean_eq : layer.setClean point = { layer with
        links := if entry.flagged then layer.links.unlink point else layer.links
        cacheCoins := layer.cacheCoins.insert point ⟨entry.coin, false, false⟩ } := by
  rw [setClean, found]

theorem Threaded.setClean (threaded : layer.Threaded) : (layer.setClean point).Threaded := by
  rw [setClean_eq found]
  apply threaded.of_cleared found rfl
  intro other
  rw [flaggedAt_insert rfl]
  by_cases same : other = point <;> simp [same, flagged]

theorem setDirty_cacheCoins : (layer.setDirty point).cacheCoins =
      layer.cacheCoins.insert point ⟨entry.coin, true, entry.fresh⟩ := by
  rw [setDirty, addFlags_eq found, Bool.or_true, Bool.or_false]

theorem setFresh_cacheCoins : (layer.setFresh point).cacheCoins =
      layer.cacheCoins.insert point ⟨entry.coin, entry.dirty, true⟩ := by
  rw [setFresh, addFlags_eq found, Bool.or_true, Bool.or_false]

end Primitive

/-! ## Bookkeeping -/

def dirtyTotal (layer : CacheLayer) : Nat :=
  total dirtyMeasure layer.cacheCoins

def usageTotal (layer : CacheLayer) : Nat :=
  total usageMeasure layer.cacheCoins

/-- The list and the counters agree with the map. -/
structure Bookkept (layer : CacheLayer) : Prop where
  threaded : layer.Threaded
  dirtyCount_eq : layer.dirtyCount = layer.dirtyTotal
  usage_eq : layer.cachedCoinsUsage = layer.usageTotal

/-- The result is the layer with one entry written, and nothing else changed. -/
structure Puts (layer : CacheLayer) (outpoint : COutPoint) (entry : CCoinsCacheEntry)
    (result : CacheLayer) : Prop where
  bookkept : result.Bookkept
  cacheCoins_eq : result.cacheCoins = layer.cacheCoins.insert outpoint entry
  blockHash_eq : result.blockHash = layer.blockHash

/-- The result is the layer with one entry removed, and nothing else changed. -/
structure Drops (layer : CacheLayer) (outpoint : COutPoint) (result : CacheLayer) : Prop where
  bookkept : result.Bookkept
  cacheCoins_eq : result.cacheCoins = layer.cacheCoins.erase outpoint
  blockHash_eq : result.blockHash = layer.blockHash

section Bookkeeping

variable {entry : CCoinsCacheEntry} {old : CCoinsCacheEntry}

theorem totals_of_insert_some (found : layer.cacheCoins.lookup point = some old)
    (stored : res.cacheCoins = layer.cacheCoins.insert point entry) :
    old.dirty.toNat + res.dirtyTotal = entry.dirty.toNat + layer.dirtyTotal ∧
      old.coin.dynamicMemoryUsage + res.usageTotal =
        entry.coin.dynamicMemoryUsage + layer.usageTotal := by
  simp only [dirtyTotal, usageTotal, stored]
  exact ⟨total_insert_add dirtyMeasure found, total_insert_add usageMeasure found⟩

theorem totals_of_insert_none (absent : layer.cacheCoins.lookup point = none)
    (stored : res.cacheCoins = layer.cacheCoins.insert point entry) :
    res.dirtyTotal = entry.dirty.toNat + layer.dirtyTotal ∧
      res.usageTotal = entry.coin.dynamicMemoryUsage + layer.usageTotal := by
  simp only [dirtyTotal, usageTotal, stored]
  exact ⟨total_insert_of_notMem dirtyMeasure absent, total_insert_of_notMem usageMeasure absent⟩

theorem totals_of_erase (found : layer.cacheCoins.lookup point = some entry)
    (stored : res.cacheCoins = layer.cacheCoins.erase point) :
    entry.dirty.toNat + res.dirtyTotal = layer.dirtyTotal ∧
      entry.coin.dynamicMemoryUsage + res.usageTotal = layer.usageTotal := by
  simp only [dirtyTotal, usageTotal, stored]
  exact ⟨total_erase_add dirtyMeasure found, total_erase_add usageMeasure found⟩

theorem Bookkept.trySub_counters (kept : layer.Bookkept)
    (found : layer.cacheCoins.lookup point = some entry) :
    trySub layer.dirtyCount entry.dirty.toNat + entry.dirty.toNat = layer.dirtyTotal ∧
      trySub layer.cachedCoinsUsage entry.coin.dynamicMemoryUsage +
        entry.coin.dynamicMemoryUsage = layer.usageTotal := by
  let erased : CacheLayer := { layer with cacheCoins := layer.cacheCoins.erase point }
  have totals : _ ∧ _ := totals_of_erase found (show erased.cacheCoins = _ from rfl)
  rw [kept.dirtyCount_eq, kept.usage_eq, trySub_of_le (by omega), trySub_of_le (by omega)]
  omega

/-- Writing a dirty entry after discounting the old one keeps the books. -/
theorem puts_of_some (kept : layer.Bookkept)
    (found : layer.cacheCoins.lookup point = some old) (threaded : res.Threaded)
    (stored : res.cacheCoins = layer.cacheCoins.insert point entry)
    (count : res.dirtyCount = trySub layer.dirtyCount old.dirty.toNat + entry.dirty.toNat)
    (usage : res.cachedCoinsUsage =
      trySub layer.cachedCoinsUsage old.coin.dynamicMemoryUsage + entry.coin.dynamicMemoryUsage)
    (blockHash : res.blockHash = layer.blockHash) : layer.Puts point entry res := by
  have totals := totals_of_insert_some found stored
  have counters := kept.trySub_counters found
  exact ⟨⟨threaded, by omega, by omega⟩, stored, blockHash⟩

theorem puts_of_none (kept : layer.Bookkept)
    (absent : layer.cacheCoins.lookup point = none) (threaded : res.Threaded)
    (stored : res.cacheCoins = layer.cacheCoins.insert point entry)
    (count : res.dirtyCount = layer.dirtyCount + entry.dirty.toNat)
    (usage : res.cachedCoinsUsage = layer.cachedCoinsUsage + entry.coin.dynamicMemoryUsage)
    (blockHash : res.blockHash = layer.blockHash) : layer.Puts point entry res := by
  have totals := totals_of_insert_none absent stored
  have dirtyTotal := kept.dirtyCount_eq
  have usageTotal := kept.usage_eq
  exact ⟨⟨threaded, by omega, by omega⟩, stored, blockHash⟩

theorem drops_of_some (kept : layer.Bookkept)
    (found : layer.cacheCoins.lookup point = some entry) (threaded : res.Threaded)
    (stored : res.cacheCoins = layer.cacheCoins.erase point)
    (count : res.dirtyCount = trySub layer.dirtyCount entry.dirty.toNat)
    (usage : res.cachedCoinsUsage = trySub layer.cachedCoinsUsage entry.coin.dynamicMemoryUsage)
    (blockHash : res.blockHash = layer.blockHash) : layer.Drops point res := by
  have totals := totals_of_erase found stored
  have counters := kept.trySub_counters found
  exact ⟨⟨threaded, by omega, by omega⟩, stored, blockHash⟩

end Bookkeeping

/-! ## Operations on one layer -/

section Operations

variable {entry : CCoinsCacheEntry}

theorem entryAt_of_some (found : layer.cacheCoins.lookup point = some entry) :
    layer.entryAt point = entry := by
  rw [entryAt, found]
  rfl

theorem entryAt_of_none (absent : layer.cacheCoins.lookup point = none) :
    layer.entryAt point = CCoinsCacheEntry.new := by
  rw [entryAt, absent]
  rfl

private theorem lookup_storeCoin (layer : CacheLayer) (point : COutPoint) (coin : Coin) :
    (layer.storeCoin point coin).cacheCoins.lookup point =
      some { layer.entryAt point with coin := coin } := by
  rw [storeCoin_cacheCoins, Finmap.lookup_insert]

private theorem storeCoin_setDirty_cacheCoins (layer : CacheLayer) (point : COutPoint)
    (coin : Coin) :
    ((layer.storeCoin point coin).setDirty point).cacheCoins =
      layer.cacheCoins.insert point ⟨coin, true, (layer.entryAt point).fresh⟩ := by
  rw [setDirty_cacheCoins (lookup_storeCoin layer point coin), storeCoin_cacheCoins,
    Finmap.insert_insert]

private theorem Threaded.storeCoin_setDirty (threaded : layer.Threaded) (point : COutPoint)
    (coin : Coin) : ((layer.storeCoin point coin).setDirty point).Threaded :=
  (threaded.storeCoin point coin).addFlags (lookup_storeCoin layer point coin) rfl

private theorem Puts.setFresh_if {coin : Coin} {dirty fresh : Bool}
    (puts : layer.Puts point ⟨coin, dirty, fresh⟩ res) (wanted : Bool) :
    layer.Puts point ⟨coin, dirty, fresh || wanted⟩
      (if wanted then res.setFresh point else res) := by
  cases wanted with
  | false => simpa using puts
  | true =>
    have found : res.cacheCoins.lookup point = some ⟨coin, dirty, fresh⟩ := by
      rw [puts.cacheCoins_eq, Finmap.lookup_insert]
    have stored := setFresh_cacheCoins found
    have totals := totals_of_insert_some found stored
    have counters := @addFlags_counters res point false true
    have countEq := puts.bookkept.dirtyCount_eq
    have usageEq := puts.bookkept.usage_eq
    dsimp only at totals
    rw [if_pos rfl, Bool.or_true]
    rw [puts.cacheCoins_eq, Finmap.insert_insert] at stored
    rw [← setFresh] at counters
    exact ⟨⟨puts.bookkept.threaded.addFlags found rfl, by omega, by omega⟩, stored,
      counters.2.2.trans puts.blockHash_eq⟩

private theorem setFresh_if_addUsage (layer : CacheLayer) (point : COutPoint) (wanted : Bool)
    (amount : Nat) :
    (if wanted then layer.setFresh point else layer).addUsage amount =
      if wanted then (layer.addUsage amount).setFresh point else layer.addUsage amount := by
  cases wanted with
  | false => rfl
  | true =>
    simp only [if_true, setFresh, addFlags, addUsage]
    split <;> rfl

theorem writeCoin_puts (kept : layer.Bookkept) (point : COutPoint) (coin : Coin) (fresh : Bool) :
    layer.Puts point ⟨coin, true, (layer.entryAt point).fresh || fresh⟩
      (layer.writeCoin point coin fresh) := by
  cases lookupEq : layer.cacheCoins.lookup point with
  | none =>
    simp only [writeCoin, lookupEq, setFresh_if_addUsage]
    apply Puts.setFresh_if
    refine puts_of_none kept lookupEq (kept.threaded.storeCoin_setDirty point coin)
      (storeCoin_setDirty_cacheCoins layer point coin) ?_ ?_ ?_
    · simp [setDirty]
    · simp [setDirty]
    · simp [setDirty]
  | some old =>
    let counted := (layer.subDirtyCount old.dirty.toNat).subUsage old.coin.dynamicMemoryUsage
    have countedThreaded : counted.Threaded := kept.threaded
    simp only [writeCoin, lookupEq, setFresh_if_addUsage]
    apply Puts.setFresh_if
    refine puts_of_some kept lookupEq (countedThreaded.storeCoin_setDirty point coin)
      (storeCoin_setDirty_cacheCoins counted point coin) ?_ ?_ ?_
    · simp [setDirty]
    · simp [setDirty]
    · simp [setDirty]

theorem storeFetched_puts (kept : layer.Bookkept)
    (absent : layer.cacheCoins.lookup point = none) (coin : Coin) :
    layer.Puts point ⟨coin, false, false⟩
      ((layer.storeCoin point coin).addUsage coin.dynamicMemoryUsage) := by
  have threaded : ((layer.storeCoin point coin).addUsage
      coin.dynamicMemoryUsage).Threaded := kept.threaded.storeCoin point coin
  refine puts_of_none kept absent threaded ?_ rfl rfl rfl
  rw [addUsage_cacheCoins, storeCoin_cacheCoins, entryAt_of_none absent]
  rfl

section Found

variable (kept : layer.Bookkept) (found : layer.cacheCoins.lookup point = some entry)

include kept found

private theorem counted_eraseEntry_drops :
    layer.Drops point (((layer.subDirtyCount entry.dirty.toNat).subUsage
      entry.coin.dynamicMemoryUsage).eraseEntry point) := by
  let counted := (layer.subDirtyCount entry.dirty.toNat).subUsage entry.coin.dynamicMemoryUsage
  have countedFound : counted.cacheCoins.lookup point = some entry := found
  have countedThreaded : counted.Threaded := kept.threaded
  have threaded := countedThreaded.eraseEntry countedFound
  rw [eraseEntry_eq countedFound] at threaded ⊢
  exact drops_of_some kept found threaded rfl rfl rfl rfl

theorem spendEntry_drops (fresh : entry.fresh = true) :
    layer.Drops point (layer.spendEntry point entry) := by
  rw [spendEntry, if_pos fresh]
  exact counted_eraseEntry_drops kept found

theorem spendEntry_puts (notFresh : entry.fresh = false) :
    layer.Puts point ⟨Coin.empty, true, false⟩ (layer.spendEntry point entry) := by
  let counted := (layer.subDirtyCount entry.dirty.toNat).subUsage entry.coin.dynamicMemoryUsage
  have countedFound : counted.cacheCoins.lookup point = some entry := found
  have countedThreaded : counted.Threaded := kept.threaded
  have dirtied : (counted.setDirty point).incDirtyCount.cacheCoins =
      layer.cacheCoins.insert point ⟨entry.coin, true, entry.fresh⟩ :=
    setDirty_cacheCoins countedFound
  have dirtiedThreaded : (counted.setDirty point).incDirtyCount.Threaded :=
    countedThreaded.addFlags countedFound rfl
  have spentEq : layer.spendEntry point entry =
      (counted.setDirty point).incDirtyCount.storeCoin point Coin.empty := by
    rw [spendEntry, notFresh]
    rfl
  rw [spentEq]
  refine puts_of_some kept found (dirtiedThreaded.storeCoin point Coin.empty) ?_ ?_ ?_ ?_
  · rw [storeCoin_cacheCoins, entryAt_of_some (by rw [dirtied, Finmap.lookup_insert]), dirtied,
      Finmap.insert_insert, notFresh]
  · simp [setDirty, counted]
  · simp [setDirty, counted]
  · simp [setDirty, counted]

theorem uncache_drops (clean : entry.dirty = false) : layer.Drops point (layer.uncache point) := by
  have dropped := counted_eraseEntry_drops kept found
  have countEq : layer.subDirtyCount entry.dirty.toNat = layer := by
    rw [clean, subDirtyCount]
    simp [trySub]
  rw [countEq] at dropped
  rw [uncache, found]
  simpa [clean] using dropped

end Found

theorem uncache_of_dirty (found : layer.cacheCoins.lookup point = some entry)
    (dirty : entry.dirty = true) : layer.uncache point = layer := by
  rw [uncache, found]
  simp [dirty]

theorem uncache_of_none (absent : layer.cacheCoins.lookup point = none) :
    layer.uncache point = layer := by
  rw [uncache, absent]

/-! ## Writing one entry into the layer below -/

theorem batchWriteEntry_of_none (kept : layer.Bookkept)
    (absent : layer.cacheCoins.lookup point = none)
    (meaningful : entry.coin.isSpent = true → entry.fresh = false) :
    ∃ res, layer.batchWriteEntry point entry = .ok res ∧
      layer.Puts point ⟨entry.coin, true, entry.fresh⟩ res := by
  have noDrop : (entry.fresh && entry.coin.isSpent) = false := by
    rw [Bool.and_comm, and_eq_false_imp]
    exact meaningful
  let counted := ((layer.storeCoin point entry.coin).setDirty point).incDirtyCount.addUsage
    entry.coin.dynamicMemoryUsage
  have threaded : counted.Threaded := kept.threaded.storeCoin_setDirty point entry.coin
  have stored := storeCoin_setDirty_cacheCoins layer point entry.coin
  rw [entryAt_of_none absent] at stored
  refine ⟨if entry.fresh then counted.setFresh point else counted, ?_,
    Puts.setFresh_if (puts_of_none kept absent threaded stored ?_ ?_ ?_) entry.fresh⟩
  · rw [batchWriteEntry, absent]
    simp only [noDrop, false_eq_true, if_false]
    rfl
  · simp [setDirty, counted]
  · simp [setDirty, counted]
  · simp [setDirty, counted]

variable {ours : CCoinsCacheEntry} (kept : layer.Bookkept)
  (found : layer.cacheCoins.lookup point = some ours)
  (allowed : entry.fresh = true → ours.coin.isSpent = true)

include allowed in
private theorem noThrow_of_allowed : (entry.fresh && !ours.coin.isSpent) = false := by
  rw [and_eq_false_imp]
  intro fresh
  rw [allowed fresh]
  rfl

include kept found allowed

theorem batchWriteEntry_drops (oursFresh : ours.fresh = true) (spent : entry.coin.isSpent = true) :
    ∃ res, layer.batchWriteEntry point entry = .ok res ∧ layer.Drops point res := by
  refine ⟨_, ?_, counted_eraseEntry_drops kept found⟩
  rw [batchWriteEntry, found]
  simp [noThrow_of_allowed allowed, oursFresh, spent]

theorem batchWriteEntry_puts (keeps : ours.fresh = true → entry.coin.isSpent = false) :
    ∃ res, layer.batchWriteEntry point entry = .ok res ∧
      layer.Puts point ⟨entry.coin, true, ours.fresh⟩ res := by
  have noDrop : (ours.fresh && entry.coin.isSpent) = false := and_eq_false_imp.mpr keeps
  let stored := ((layer.subUsage ours.coin.dynamicMemoryUsage).storeCoin point
    entry.coin).addUsage entry.coin.dynamicMemoryUsage
  have storedThreaded : stored.Threaded := by
    have counted : (layer.subUsage ours.coin.dynamicMemoryUsage).Threaded := kept.threaded
    exact counted.storeCoin point entry.coin
  have storedCoins : stored.cacheCoins =
      layer.cacheCoins.insert point ⟨entry.coin, ours.dirty, ours.fresh⟩ := by
    have countedFound :
        (layer.subUsage ours.coin.dynamicMemoryUsage).cacheCoins.lookup point = some ours := found
    rw [addUsage_cacheCoins, storeCoin_cacheCoins, entryAt_of_some countedFound]
    rfl
  have storedFound : stored.cacheCoins.lookup point =
      some ⟨entry.coin, ours.dirty, ours.fresh⟩ := by
    rw [storedCoins, Finmap.lookup_insert]
  refine ⟨if ours.dirty then stored else (stored.setDirty point).incDirtyCount, ?_, ?_⟩
  · rw [batchWriteEntry, found]
    simp only [noThrow_of_allowed allowed, noDrop, false_eq_true, if_false]
    rfl
  · have counters := kept.trySub_counters found
    cases dirty : ours.dirty with
    | true =>
      rw [dirty] at storedCoins counters
      refine puts_of_some kept found storedThreaded storedCoins ?_ rfl rfl
      have total := kept.dirtyCount_eq
      simp only [dirty, toNat_true] at counters ⊢
      rw [← counters.1] at total
      exact total
    | false =>
      have dirtied := setDirty_cacheCoins storedFound
      rw [storedCoins, Finmap.insert_insert] at dirtied
      refine puts_of_some kept found (storedThreaded.addFlags storedFound rfl) dirtied ?_ ?_ ?_
      · simp [setDirty, stored, dirty, trySub]
      · simp [setDirty, stored]
      · simp [setDirty, stored]

end Operations

end CacheLayer

end Champy
