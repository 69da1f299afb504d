import Champy.CoinsCacheRefinement

/-!
# Writing a coins cache down

`Flush` and `Sync` walk the flagged entries of a cache and write each into the
view below.  Over a well-formed stack no write throws, the view below takes
over the logical map of the cache, and the cache is left with nothing dirty.
-/

namespace Champy

open List CCoinsCacheEntry CacheLayer Function

namespace CacheLayer

variable {layer res : CacheLayer} {below : LogicalMap} {point : COutPoint}
  {entry : CCoinsCacheEntry}

theorem Valid.flagged_iff (valid : layer.Valid below) : layer.flaggedAt point = true ↔
      ∃ entry, layer.cacheCoins.lookup point = some entry ∧ entry.dirty = true := by
  cases found : layer.cacheCoins.lookup point with
  | none => simp [flaggedAt, found]
  | some entry =>
    have entryValid := valid.entries point entry found
    rw [flaggedAt_of_lookup found, flagged, Bool.or_eq_true]
    constructor
    · rintro (dirty | fresh)
      · exact ⟨entry, rfl, dirty⟩
      · exact ⟨entry, rfl, (entryValid.fresh fresh).1⟩
    · rintro ⟨_, ⟨⟩, dirty⟩
      exact .inl dirty

/-- The cursor of a valid layer visits each dirty entry once, and the dirty
count is the number of entries it visits. -/
theorem Valid.flaggedOutpoints_spec (valid : layer.Valid below) :
    layer.links.Represents layer.flaggedOutpoints ∧ (∀ point, point ∈ layer.flaggedOutpoints ↔
        ∃ entry, layer.cacheCoins.lookup point = some entry ∧ entry.dirty = true) ∧
      layer.dirtyCount = layer.flaggedOutpoints.length := by
  obtain ⟨points, threads, members⟩ := valid.bookkept.threaded
  have dirtyMembers : ∀ point, point ∈ points ↔
      ∃ entry, layer.cacheCoins.lookup point = some entry ∧ entry.dirty = true := by
    intro point
    rw [members, valid.flagged_iff]
  have enough : points.length ≤ layer.cacheCoins.keys.card := by
    rw [← toFinset_card_of_nodup threads.nodup]
    apply Finset.card_le_card
    intro point mem
    obtain ⟨entry, found, -⟩ := (dirtyMembers point).mp (mem_toFinset.mp mem)
    exact Finmap.mem_keys.mpr (Finmap.mem_of_lookup_eq_some found)
  have walked : layer.flaggedOutpoints = points := threads.walk_eq enough
  rw [walked]
  refine ⟨threads, dirtyMembers, ?_⟩
  rw [valid.bookkept.dirtyCount_eq]
  exact FinMap.total_toNat_eq_length dirty threads.nodup dirtyMembers

/-- Replacing the dirty entries of a valid layer in the map below gives its
logical map. -/
theorem Valid.overlay_eq_of_dirty (valid : layer.Valid below) (point : COutPoint) :
    (if point ∈ layer.flaggedOutpoints then layer.overlay below point
      else below point) = layer.overlay below point := by
  obtain ⟨-, members, -⟩ := valid.flaggedOutpoints_spec
  by_cases mem : point ∈ layer.flaggedOutpoints
  · rw [if_pos mem]
  · rw [if_neg mem]
    cases found : layer.cacheCoins.lookup point with
    | none => rw [overlay_of_none below found]
    | some entry =>
      have clean : entry.dirty = false := by
        by_contra dirty
        exact mem ((members point).mpr ⟨entry, found, by simpa using dirty⟩)
      rw [overlay_of_some below found, (valid.entries point entry found).visible_of_clean clean]

theorem Valid.sanityCheck (valid : layer.Valid below) : layer.sanityCheck = true := by
  obtain ⟨threads, members, count⟩ := valid.flaggedOutpoints_spec
  have entriesPass : ∀ entry ∈ layer.cacheCoins.entries, sanityCheckEntry entry.2 = true := by
    intro entry mem
    have entryValid := valid.entries entry.1 entry.2 (Finmap.lookup_eq_some_iff.mpr mem)
    unfold sanityCheckEntry
    by_cases spent : entry.2.coin.isSpent = true
    · obtain ⟨-, dirty, notFresh⟩ := entryValid.spent spent
      simp [spent, dirty, notFresh]
    · rw [if_neg spent]
      cases fresh : entry.2.fresh with
      | false => simp
      | true => simp [(entryValid.fresh fresh).1]
  have nodesPass : layer.flaggedOutpoints.all layer.sanityCheckNode = true := by
    rw [all_eq_true]
    intro point mem
    obtain ⟨⟨after, nextEq, backEq⟩, ⟨before, prevEq, forthEq⟩⟩ := threads.links_inverse mem
    obtain ⟨entry, found, dirty⟩ := (members point).mp mem
    simp [sanityCheckNode, nextEq, backEq, prevEq, forthEq, found, dirty]
  have countEq := valid.bookkept.dirtyCount_eq
  have usageEq := valid.bookkept.usage_eq
  simp only [CacheLayer.sanityCheck, Bool.and_eq_true, beq_iff_eq, decide_eq_true_eq]
  exact ⟨⟨⟨⟨entriesPass, nodesPass⟩, countEq.symm.trans count⟩, countEq.symm⟩, usageEq.symm⟩

/-- Advancing past a dirty entry without erasing the cache unlinks it, and
removes it if it is spent. -/
theorem nextAndMaybeErase_sync (kept : layer.Bookkept)
    (found : layer.cacheCoins.lookup point = some entry) (dirty : entry.dirty = true)
    (cleared : entry.coin.isSpent = true → entry.coin = Coin.empty) :
    ∃ res, layer.nextAndMaybeErase false point entry = .ok res ∧
      res.links = layer.links.unlink point ∧
      (entry.coin.isSpent = true → layer.Drops point res) ∧
      (entry.coin.isSpent = false → layer.Puts point ⟨entry.coin, false, false⟩ res) := by
  have flagged : entry.flagged = true := by simp [flagged, dirty]
  let counted := layer.subDirtyCount entry.dirty.toNat
  have countedFound : counted.cacheCoins.lookup point = some entry := found
  have countedThreaded : counted.Threaded := kept.threaded
  have counters := kept.trySub_counters found
  have usageTotal := kept.usage_eq
  unfold nextAndMaybeErase
  cases spent : entry.coin.isSpent with
  | true =>
    have noUsage : entry.coin.dynamicMemoryUsage = 0 := by
      rw [cleared spent]
      rfl
    have threaded := countedThreaded.eraseEntry countedFound
    rw [eraseEntry_eq countedFound] at threaded
    refine ⟨counted.eraseEntry point, ?_, ?_, ?_, ?_⟩
    · simp [noUsage, counted]
    · rw [eraseEntry_eq countedFound, if_pos flagged]
      rfl
    · intro _
      rw [eraseEntry_eq countedFound]
      refine drops_of_some kept found threaded rfl rfl ?_ rfl
      rw [noUsage]
      simp [trySub, counted]
    · intro unspent
      cases unspent
  | false =>
    have threaded := countedThreaded.setClean countedFound
    rw [setClean_eq countedFound] at threaded
    refine ⟨counted.setClean point, ?_, ?_, ?_, ?_⟩
    · simp [counted]
    · rw [setClean_eq countedFound, if_pos flagged]
      rfl
    · intro spent'
      cases spent'
    · intro _
      rw [setClean_eq countedFound]
      refine puts_of_some kept found threaded rfl rfl ?_ rfl
      change layer.cachedCoinsUsage =
        trySub layer.cachedCoinsUsage entry.coin.dynamicMemoryUsage + entry.coin.dynamicMemoryUsage
      omega

end CacheLayer

/-! ## The loop of a batch write -/

/-- A view that takes one valid entry at a time and then shows it. -/
structure WriteTarget {β : Type} (write : β → COutPoint → CCoinsCacheEntry → Except Fault β)
    (inv : β → Prop) (coins : β → COutPoint → Option Coin) : Prop where
  writes : ∀ parent outpoint (entry : CCoinsCacheEntry), inv parent →
    entry.Valid (coins parent outpoint) →
    ∃ written, write parent outpoint entry = .ok written ∧ inv written ∧
      coins written = update (coins parent) outpoint entry.visible

theorem CacheLayer.writeTarget (below : LogicalMap) :
    WriteTarget batchWriteEntry (fun layer => layer.Valid below)
      (fun layer => layer.overlay below) where
  writes _ _ _ valid entryValid := valid.batchWriteEntry entryValid

theorem CoinsBase.writeTarget (kind : BaseKind) :
    WriteTarget (fun base point entry => .ok (CoinsBase.writeEntry base point entry))
      (fun base => base.kind = kind) (fun base point => base.coins.lookup point) where
  writes := by
    intro base point entry sameKind _
    refine ⟨base.writeEntry point entry, rfl, ?_, ?_⟩
    · unfold writeEntry
      split <;> exact sameKind
    · unfold writeEntry
      by_cases spent : entry.coin.isSpent = true
      · rw [dif_pos spent, visible_of_spent spent]
        exact FinMap.lookup_erase_eq_update point base.coins
      · rw [dif_neg spent, visible_of_unspent (by simpa using spent)]
        exact FinMap.lookup_insert_eq_update point entry.coin base.coins

section Loop

variable {β : Type} {write : β → COutPoint → CCoinsCacheEntry → Except Fault β}
  {inv : β → Prop} {coins : β → COutPoint → Option Coin} {child : CacheLayer} {parent : β}

private theorem batchWriteLoop_cons {willErase : Bool} {first : COutPoint} {next : CacheLayer}
    {written : β} {entry : CCoinsCacheEntry} (rest : List COutPoint)
    (found : child.cacheCoins.lookup first = some entry) (dirty : entry.dirty = true)
    (writeEq : write parent first entry = .ok written)
    (nextEq : child.nextAndMaybeErase willErase first entry = .ok next) :
    batchWriteLoop write willErase (first :: rest) child parent =
      batchWriteLoop write willErase rest next written := by
  simp only [batchWriteLoop, found, dirty, if_true, writeEq, nextEq]

variable (target : WriteTarget write inv coins) {points : List COutPoint}

include target

/-- A flush writes every visited entry and only counts down in the cache. -/
theorem WriteTarget.flushLoop (nodup : points.Nodup)
    (dirty : ∀ point ∈ points, ∃ entry, child.cacheCoins.lookup point = some entry ∧
      entry.dirty = true ∧ entry.Valid (coins parent point))
    (counted : points.length ≤ child.dirtyCount) (holds : inv parent) :
    ∃ parent', batchWriteLoop write true points child parent =
        ⟨{ child with dirtyCount := child.dirtyCount - points.length }, parent', none⟩ ∧
      inv parent' ∧
      ∀ point, coins parent' point =
        if point ∈ points then child.overlay (coins parent) point
        else coins parent point := by
  induction points generalizing child parent with
  | nil => exact ⟨parent, rfl, holds, fun _ => rfl⟩
  | cons first rest ih =>
    obtain ⟨firstNew, restNodup⟩ := nodup_cons.mp nodup
    obtain ⟨entry, found, entryDirty, entryValid⟩ := dirty first (by simp)
    obtain ⟨written, writeEq, writtenHolds, coinsEq⟩ :=
      target.writes parent first entry holds entryValid
    let next : CacheLayer := child.subDirtyCount entry.dirty.toNat
    have nextCount : next.dirtyCount = child.dirtyCount - 1 := by
      rw [length_cons] at counted
      change trySub child.dirtyCount entry.dirty.toNat = _
      rw [entryDirty, trySub_of_le (by rw [Bool.toNat_true]; omega), Bool.toNat_true]
    have restDirty : ∀ point ∈ rest, ∃ entry, next.cacheCoins.lookup point = some entry ∧
        entry.dirty = true ∧ entry.Valid (coins written point) := by
      intro point mem
      obtain ⟨later, laterFound, laterDirty, laterValid⟩ := dirty point (mem_cons_of_mem first mem)
      refine ⟨later, laterFound, laterDirty, ?_⟩
      rw [coinsEq, update_of_ne]
      · exact laterValid
      · rintro rfl
        exact firstNew mem
    have restCounted : rest.length ≤ next.dirtyCount := by
      rw [length_cons] at counted
      omega
    obtain ⟨parent', loopEq, parentHolds, parentCoins⟩ :=
      ih restNodup restDirty restCounted writtenHolds
    refine ⟨parent', ?_, parentHolds, ?_⟩
    · have nextEq : child.nextAndMaybeErase true first entry = .ok next := rfl
      rw [batchWriteLoop_cons rest found entryDirty writeEq nextEq, loopEq]
      simp only [next, subDirtyCount, length_cons] at nextCount ⊢
      rw [nextCount]
      congr 2
      omega
    · intro point
      rw [parentCoins, coinsEq]
      by_cases same : point = first
      · rw [same, if_neg firstNew, update_self, if_pos (mem_cons_self)]
        exact (overlay_of_some _ found).symm
      · rw [update_of_ne same]
        by_cases mem : point ∈ rest
        · obtain ⟨later, laterFound, -⟩ := restDirty point mem
          rw [if_pos mem, if_pos (mem_cons_of_mem first mem), overlay_of_some _ laterFound]
          exact (overlay_of_some _ laterFound).symm
        · have notMember : point ∉ first :: rest := by simp [same, mem]
          rw [if_neg mem, if_neg notMember]

/-- A sync writes every visited entry and leaves the cache valid over the view
written to, with the same logical map and nothing linked. -/
theorem WriteTarget.syncLoop (threads : child.links.Represents points)
    (dirty : ∀ point ∈ points, ∃ entry, child.cacheCoins.lookup point = some entry ∧
      entry.dirty = true)
    (valid : child.Valid (coins parent)) (holds : inv parent) :
    ∃ child' parent', batchWriteLoop write false points child parent = ⟨child', parent', none⟩ ∧
      inv parent' ∧ child'.Valid (coins parent') ∧ child'.links.Represents [] ∧
      child'.overlay (coins parent') = child.overlay (coins parent) := by
  induction points generalizing child parent with
  | nil => exact ⟨child, parent, rfl, holds, valid, threads, rfl⟩
  | cons first rest ih =>
    obtain ⟨entry, found, entryDirty⟩ := dirty first (by simp)
    have entryValid := valid.entries first entry found
    obtain ⟨written, writeEq, writtenHolds, coinsEq⟩ :=
      target.writes parent first entry holds entryValid
    obtain ⟨next, nextEq, nextLinks, nextDrops, nextPuts⟩ :=
      nextAndMaybeErase_sync valid.bookkept found entryDirty fun spent => (entryValid.spent spent).1
    have nextThreads : next.links.Represents rest := by
      have split : child.links.Represents ([] ++ first :: rest) := threads
      rw [nextLinks]
      exact split.unlink
    have firstNew : first ∉ rest := (nodup_cons.mp threads.nodup).1
    have firstOverlay : child.overlay (coins parent) first = entry.visible :=
      overlay_of_some _ found
    have nextState : next.Valid (coins written) ∧
        next.overlay (coins written) = child.overlay (coins parent) ∧
        ∀ point, point ≠ first → next.cacheCoins.lookup point = child.cacheCoins.lookup point := by
      rw [coinsEq]
      cases spent : entry.coin.isSpent with
      | true =>
        have drops := nextDrops spent
        refine ⟨valid.of_drops_update drops _, ?_, ?_⟩
        · rw [drops.overlay_update, ← firstOverlay, update_eq_self]
        · intro point ne
          rw [drops.cacheCoins_eq, Finmap.lookup_erase_ne ne]
      | false =>
        have puts := nextPuts spent
        have visibleEq := visible_of_unspent spent
        refine ⟨valid.of_puts_update puts ⟨?_, ?_, ?_⟩, ?_, ?_⟩
        · intro nowSpent
          rw [spent] at nowSpent
          cases nowSpent
        · exact fun _ => visibleEq
        · intro fresh
          cases fresh
        · have cleanVisible : visible ⟨entry.coin, false, false⟩ = entry.visible := rfl
          rw [puts.overlay_update, cleanVisible, ← firstOverlay, update_eq_self]
        · intro point ne
          rw [puts.cacheCoins_eq, Finmap.lookup_insert_of_ne _ ne]
    obtain ⟨nextValid, nextOverlay, nextOthers⟩ := nextState
    have restDirty : ∀ point ∈ rest, ∃ entry,
        next.cacheCoins.lookup point = some entry ∧ entry.dirty = true := by
      intro point mem
      rw [nextOthers point (fun same => firstNew (same ▸ mem))]
      exact dirty point (mem_cons_of_mem first mem)
    obtain ⟨child', parent', loopEq, holds', valid', threads', overlay'⟩ :=
      ih nextThreads restDirty nextValid writtenHolds
    refine ⟨child', parent', ?_, holds', valid', threads', overlay'.trans nextOverlay⟩
    rw [batchWriteLoop_cons rest found entryDirty writeEq nextEq, loopEq]

/-- What a batch write leaves of a cache, when the view below then means `below`: a cache that
will be erased is only counted down, any other means the same as the view. -/
def CacheLayer.Written (child : CacheLayer) :
    Bool → CacheLayer → LogicalMap → Prop
  | true, left, _ => left = { child with dirtyCount := 0 }
  | false, left, below =>
    left.Valid below ∧ left.links.Represents [] ∧ left.overlay below = below

theorem CacheLayer.Valid.writeLoop (valid : child.Valid (coins parent)) (holds : inv parent)
    (willErase : Bool) :
    ∃ left parent', batchWriteLoop write willErase child.flaggedOutpoints child parent =
        ⟨left, parent', none⟩ ∧
      inv parent' ∧ coins parent' = child.overlay (coins parent) ∧
      child.Written willErase left (coins parent') := by
  obtain ⟨threads, members, count⟩ := valid.flaggedOutpoints_spec
  cases willErase with
  | true =>
    have dirty : ∀ point ∈ child.flaggedOutpoints, ∃ entry,
        child.cacheCoins.lookup point = some entry ∧ entry.dirty = true ∧
          entry.Valid (coins parent point) := by
      intro point mem
      obtain ⟨entry, found, entryDirty⟩ := (members point).mp mem
      exact ⟨entry, found, entryDirty, valid.entries point entry found⟩
    obtain ⟨parent', loopEq, holds', coinsEq⟩ := target.flushLoop threads.nodup dirty count.ge holds
    refine ⟨_, parent', loopEq, holds', ?_, ?_⟩
    · funext point
      rw [coinsEq, valid.overlay_eq_of_dirty]
    · rw [count, Nat.sub_self]
      rfl
  | false =>
    obtain ⟨left, parent', loopEq, holds', valid', threads', overlay'⟩ :=
      target.syncLoop threads (fun point mem => (members point).mp mem) valid holds
    have nothingFlagged : left.flaggedOutpoints = [] := threads'.walk_eq (by simp)
    have sameBelow : left.overlay (coins parent') = coins parent' := by
      funext point
      rw [← valid'.overlay_eq_of_dirty, nothingFlagged, if_neg (by simp)]
    exact ⟨left, parent', loopEq, holds', sameBelow.symm.trans overlay', valid', threads',
      sameBelow⟩

end Loop

/-! ## Flush and sync over a well-formed stack -/

namespace CoinsView

/-- The base under the cache passes its own assertions for this block hash. -/
def AcceptsBatch : CoinsView → Uint256 → Prop
  | .bottom base, blockHash => base.checkBatchWrite blockHash = .ok ()
  | .cache _ _, _ => True

variable {view : CoinsView} {child : CacheLayer}

theorem peekCoin_finishBatchWrite (base : CoinsBase) (blockHash : Uint256) :
    (CoinsView.bottom (base.finishBatchWrite blockHash)).peekCoin =
      fun point => base.coins.lookup point := by
  funext point
  unfold CoinsBase.finishBatchWrite
  cases base.kind with
  | memory =>
    by_cases null : blockHash = 0
    · rw [if_pos null]
      rfl
    · rw [if_neg null]
      rfl
  | database => rfl

theorem kind_finishBatchWrite (base : CoinsBase) (blockHash : Uint256) :
    (base.finishBatchWrite blockHash).kind = base.kind := by
  unfold CoinsBase.finishBatchWrite
  split
  · split <;> rfl
  · rfl

theorem batchWrite_spec (wf : view.WellFormed) (valid : child.Valid view.peekCoin)
    (accepts : view.AcceptsBatch child.blockHash) (willErase : Bool) :
    ∃ left view', view.batchWrite child willErase = ⟨left, view', none⟩ ∧
      view'.WellFormed ∧ view'.bottomBase.kind = view.bottomBase.kind ∧
      view'.lower = view.lower ∧ view'.peekCoin = child.overlay view.peekCoin ∧
      child.Written willErase left view'.peekCoin := by
  cases view with
  | bottom base =>
    obtain ⟨left, base', loopEq, sameKind, coinsEq, written⟩ :=
      valid.writeLoop (CoinsBase.writeTarget base.kind) rfl willErase
    refine ⟨left, .bottom (base'.finishBatchWrite child.blockHash), ?_, trivial,
      (kind_finishBatchWrite base' child.blockHash).trans sameKind, rfl, ?_⟩
    · have checked : base.checkBatchWrite child.blockHash = .ok () := accepts
      simp only [batchWrite, checked, loopEq]
    · rw [peekCoin_finishBatchWrite]
      exact ⟨coinsEq, written⟩
  | cache parent base =>
    rw [peekCoin_cache] at valid ⊢
    obtain ⟨left, parent', loopEq, parentValid, coinsEq, written⟩ :=
      valid.writeLoop (writeTarget base.peekCoin) wf.1 willErase
    let stamped : CacheLayer := { parent' with blockHash := child.blockHash }
    have stampedValid : stamped.Valid base.peekCoin :=
      ⟨⟨parentValid.bookkept.threaded, parentValid.bookkept.dirtyCount_eq,
        parentValid.bookkept.usage_eq⟩, parentValid.entries⟩
    refine ⟨left, .cache stamped base, ?_, ⟨stampedValid, wf.2⟩, rfl, rfl, ?_⟩
    · simp only [batchWrite, loopEq]
      rfl
    · rw [peekCoin_cache]
      exact ⟨coinsEq, written⟩

end CoinsView

namespace CCoinsViewCache

variable {cache : CCoinsViewCache}

theorem flush_spec (wf : cache.WellFormed)
    (accepts : cache.base.AcceptsBatch cache.layer.blockHash) :
    ∃ base', cache.flush =
        (⟨{ CacheLayer.new with blockHash := cache.layer.blockHash }, base'⟩, none) ∧
      base'.WellFormed ∧ base'.bottomBase.kind = cache.base.bottomBase.kind ∧
      base'.lower = cache.base.lower ∧ base'.peekCoin = cache.coins := by
  obtain ⟨valid, baseWf⟩ := wellFormed_iff.mp wf
  obtain ⟨_, base', batchEq, wellFormed', sameKind, sameLower, coinsEq, rfl⟩ :=
    CoinsView.batchWrite_spec baseWf valid accepts true
  refine ⟨base', ?_, wellFormed', sameKind, sameLower, coinsEq.trans (coins_eq cache).symm⟩
  simp only [flush, batchEq]
  rfl

theorem sync_spec (wf : cache.WellFormed)
    (accepts : cache.base.AcceptsBatch cache.layer.blockHash) :
    cache.sync.2 = none ∧ cache.sync.1.WellFormed ∧
      cache.sync.1.base.bottomBase.kind = cache.base.bottomBase.kind ∧
      cache.sync.1.base.lower = cache.base.lower ∧ cache.sync.1.coins = cache.coins ∧
      cache.sync.1.base.peekCoin = cache.coins := by
  obtain ⟨valid, baseWf⟩ := wellFormed_iff.mp wf
  obtain ⟨layer', base', batchEq, wellFormed', sameKind, sameLower, coinsEq, valid', threads',
    overlayEq⟩ := CoinsView.batchWrite_spec baseWf valid accepts false
  have unlinked : layer'.links.next none = some none := threads'.nextPath
  have syncEq : cache.sync = (⟨layer', base'⟩, none) := by
    simp only [sync, batchEq, unlinked, if_true]
  rw [syncEq]
  refine ⟨rfl, ⟨valid', wellFormed'⟩, sameKind, sameLower, ?_, ?_⟩
  · rw [coins_eq, coins_eq]
    exact overlayEq.trans coinsEq
  · rw [coins_eq]
    exact coinsEq

end CCoinsViewCache

end Champy
