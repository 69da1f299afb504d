import Champy.CoinsCacheInvariant

/-!
# The coins cache refines a map

The logical map of a cache is the map below it, overlaid with the cached
entries.  In a well-formed stack every lookup answers from that map, adding and
spending update it at one outpoint, and writing a cache down makes the map
below equal to it without ever throwing.
-/

namespace Champy

open Function CCoinsCacheEntry CacheLayer CoinsView Finmap

namespace CCoinsCacheEntry

/-- What a lookup sees of an entry. -/
def visible (entry : CCoinsCacheEntry) : Option Coin :=
  if entry.coin.isSpent then none else some entry.coin

/-- The flags of an entry mean what they should, given what the view below
holds at its outpoint. -/
structure Valid (entry : CCoinsCacheEntry) (below : Option Coin) : Prop where
  spent : entry.coin.isSpent = true →
    entry.coin = Coin.empty ∧ entry.dirty = true ∧ entry.fresh = false
  clean : entry.dirty = false → below = some entry.coin
  fresh : entry.fresh = true → entry.dirty = true ∧ below = none

variable {entry : CCoinsCacheEntry} {below : Option Coin}

theorem visible_of_unspent (unspent : entry.coin.isSpent = false) :
    entry.visible = some entry.coin := by
  simp [visible, unspent]

theorem visible_of_spent (spent : entry.coin.isSpent = true) : entry.visible = none := by
  simp [visible, spent]

theorem Valid.unspent_of_clean (valid : entry.Valid below) (clean : entry.dirty = false) :
    entry.coin.isSpent = false := by
  by_contra spent
  have dirty := (valid.spent (by simpa using spent)).2.1
  rw [clean] at dirty
  cases dirty

theorem Valid.visible_of_clean (valid : entry.Valid below) (clean : entry.dirty = false) :
    entry.visible = below := by
  rw [visible_of_unspent (valid.unspent_of_clean clean), valid.clean clean]

end CCoinsCacheEntry

namespace CacheLayer

/-- The map below, overlaid with the entries of the layer. -/
def overlay (layer : CacheLayer) (below : LogicalMap) (outpoint : COutPoint) :
    Option Coin :=
  match layer.cacheCoins.lookup outpoint with
  | some entry => entry.visible
  | none => below outpoint

/-- The books of the layer are right and every entry is valid over the map
below. -/
structure Valid (layer : CacheLayer) (below : LogicalMap) : Prop where
  bookkept : layer.Bookkept
  entries : ∀ outpoint entry, layer.cacheCoins.lookup outpoint = some entry →
    entry.Valid (below outpoint)

variable {layer res : CacheLayer} {below : LogicalMap} {point : COutPoint}
  {entry : CCoinsCacheEntry}

theorem overlay_of_some (below : LogicalMap) (found : layer.cacheCoins.lookup point = some entry) :
    layer.overlay below point = entry.visible := by
  rw [overlay, found]

theorem overlay_of_none (below : LogicalMap) (absent : layer.cacheCoins.lookup point = none) :
    layer.overlay below point = below point := by
  rw [overlay, absent]

theorem Puts.overlay_update (puts : layer.Puts point entry res) (value : Option Coin) :
    res.overlay (update below point value) = update (layer.overlay below) point entry.visible := by
  funext other
  by_cases same : other = point
  · rw [same, update_self]
    exact overlay_of_some _ (by rw [puts.cacheCoins_eq, lookup_insert])
  · rw [update_of_ne same, overlay, overlay, puts.cacheCoins_eq,
      lookup_insert_of_ne _ same, update_of_ne same]

theorem Puts.overlay_eq (puts : layer.Puts point entry res) (below : LogicalMap) :
    res.overlay below = update (layer.overlay below) point entry.visible := by
  rw [← puts.overlay_update (below point), update_eq_self]

theorem Drops.overlay_update (drops : layer.Drops point res) (value : Option Coin) :
    res.overlay (update below point value) = update (layer.overlay below) point value := by
  funext other
  by_cases same : other = point
  · rw [same, update_self]
    have absent : res.cacheCoins.lookup point = none := by
      rw [drops.cacheCoins_eq, lookup_erase]
    rw [overlay_of_none _ absent, update_self]
  · rw [update_of_ne same, overlay, overlay, drops.cacheCoins_eq,
      lookup_erase_ne same, update_of_ne same]

theorem Drops.overlay_eq (drops : layer.Drops point res) (below : LogicalMap) :
    res.overlay below = update (layer.overlay below) point (below point) := by
  rw [← drops.overlay_update, update_eq_self]

theorem Valid.of_puts_update (valid : layer.Valid below) {value : Option Coin}
    (puts : layer.Puts point entry res) (entryValid : entry.Valid value) :
    res.Valid (update below point value) := by
  refine ⟨puts.bookkept, ?_⟩
  intro other otherEntry found
  rw [puts.cacheCoins_eq] at found
  by_cases same : other = point
  · rw [same, lookup_insert, Option.some.injEq] at found
    rw [same, ← found, update_self]
    exact entryValid
  · rw [lookup_insert_of_ne _ same] at found
    rw [update_of_ne same]
    exact valid.entries other otherEntry found

theorem Valid.of_puts (valid : layer.Valid below) (puts : layer.Puts point entry res)
    (entryValid : entry.Valid (below point)) : res.Valid below := by
  rw [← update_eq_self point below]
  exact valid.of_puts_update puts entryValid

/-- Without an entry at an outpoint the map below may change there. -/
theorem Valid.of_drops_update (valid : layer.Valid below) (drops : layer.Drops point res)
    (value : Option Coin) : res.Valid (update below point value) := by
  refine ⟨drops.bookkept, ?_⟩
  intro other otherEntry found
  rw [drops.cacheCoins_eq] at found
  by_cases same : other = point
  · rw [same, lookup_erase] at found
    cases found
  · rw [lookup_erase_ne same] at found
    rw [update_of_ne same]
    exact valid.entries other otherEntry found

theorem Valid.of_drops (valid : layer.Valid below) (drops : layer.Drops point res) :
    res.Valid below := by
  rw [← update_eq_self point below]
  exact valid.of_drops_update drops _

theorem valid_new (below : LogicalMap) : new.Valid below := by
  refine ⟨⟨⟨[], Links.represents_selfRef, ?_⟩, rfl, rfl⟩, ?_⟩
  · intro other
    simp [flaggedAt, new]
  · intro other otherEntry found
    cases found

theorem overlay_new (below : LogicalMap) : new.overlay below = below := by
  funext other
  exact overlay_of_none below rfl

/-! ## Adding and spending in a valid layer -/

theorem Valid.addCoin (valid : layer.Valid below) {coin : Coin} {possibleOverwrite : Bool}
    (unspent : coin.isSpent = false)
    (permitted : layer.overlay below point ≠ none → possibleOverwrite = true) :
    ∃ res, layer.addCoin point coin possibleOverwrite = .ok res ∧
      res.Valid below ∧ res.blockHash = layer.blockHash ∧
      res.overlay below = update (layer.overlay below) point (some coin) := by
  have entrySpent : possibleOverwrite = false → (layer.entryAt point).coin.isSpent = true := by
    intro forbidden
    have absent : layer.overlay below point = none := by
      by_contra present
      rw [permitted present] at forbidden
      cases forbidden
    cases found : layer.cacheCoins.lookup point with
    | none => rw [entryAt_of_none found, CCoinsCacheEntry.new, Coin.isSpent_empty]
    | some old =>
      rw [overlay_of_some below found] at absent
      rw [entryAt_of_some found]
      by_contra present
      rw [visible_of_unspent (by simpa using present)] at absent
      cases absent
  have noThrow : (!possibleOverwrite && !(layer.entryAt point).coin.isSpent) = false := by
    cases possibleOverwrite with
    | false => simp [entrySpent rfl]
    | true => rfl
  have puts := writeCoin_puts valid.bookkept point coin
    (!possibleOverwrite && !(layer.entryAt point).dirty)
  have entryValid : CCoinsCacheEntry.Valid ⟨coin, true, (layer.entryAt point).fresh ||
      (!possibleOverwrite && !(layer.entryAt point).dirty)⟩ (below point) := by
    refine ⟨?_, ?_, ?_⟩
    · intro spent
      rw [unspent] at spent
      cases spent
    · intro clean
      cases clean
    · intro fresh
      refine ⟨rfl, ?_⟩
      cases found : layer.cacheCoins.lookup point with
      | none =>
        rw [entryAt_of_none found] at fresh
        have forbidden : possibleOverwrite = false := by
          cases possibleOverwrite with
          | false => rfl
          | true => cases fresh
        by_contra present
        rw [← overlay_of_none below found] at present
        rw [permitted present] at forbidden
        cases forbidden
      | some old =>
        rw [entryAt_of_some found] at fresh
        have oldValid := valid.entries point old found
        by_cases oldFresh : old.fresh = true
        · exact (oldValid.fresh oldFresh).2
        · rw [entryAt_of_some found] at entrySpent
          simp only [oldFresh, Bool.false_or, Bool.and_eq_true, Bool.not_eq_true'] at fresh
          have oldDirty := (oldValid.spent (entrySpent fresh.1)).2.1
          rw [fresh.2] at oldDirty
          cases oldDirty
  refine ⟨_, ?_, valid.of_puts puts entryValid, puts.blockHash_eq, ?_⟩
  · rw [CacheLayer.addCoin, noThrow]
    rfl
  · rw [puts.overlay_eq below, visible_of_unspent unspent]

theorem Valid.spendEntry (valid : layer.Valid below)
    (found : layer.cacheCoins.lookup point = some entry) :
    (layer.spendEntry point entry).Valid below ∧
      (layer.spendEntry point entry).blockHash = layer.blockHash ∧
      (layer.spendEntry point entry).overlay below = update (layer.overlay below) point none := by
  have entryValid := valid.entries point entry found
  cases fresh : entry.fresh with
  | true =>
    have drops := spendEntry_drops valid.bookkept found fresh
    refine ⟨valid.of_drops drops, drops.blockHash_eq, ?_⟩
    rw [drops.overlay_eq below, (entryValid.fresh fresh).2]
  | false =>
    have puts := spendEntry_puts valid.bookkept found fresh
    refine ⟨valid.of_puts puts ?_, puts.blockHash_eq, puts.overlay_eq below⟩
    refine ⟨fun _ => ⟨rfl, rfl, rfl⟩, ?_, ?_⟩
    · intro clean
      cases clean
    · intro spentFresh
      cases spentFresh

theorem Valid.uncache (valid : layer.Valid below) (point : COutPoint) :
    (layer.uncache point).Valid below ∧ (layer.uncache point).blockHash = layer.blockHash ∧
      (layer.uncache point).overlay below = layer.overlay below := by
  cases found : layer.cacheCoins.lookup point with
  | none =>
    rw [uncache_of_none found]
    exact ⟨valid, rfl, rfl⟩
  | some old =>
    cases dirty : old.dirty with
    | true =>
      rw [uncache_of_dirty found dirty]
      exact ⟨valid, rfl, rfl⟩
    | false =>
      have drops := uncache_drops valid.bookkept found dirty
      refine ⟨valid.of_drops drops, drops.blockHash_eq, ?_⟩
      rw [drops.overlay_eq below, ← (valid.entries point old found).visible_of_clean dirty,
        ← overlay_of_some below found, update_eq_self]

theorem Valid.batchWriteEntry (valid : layer.Valid below)
    (entryValid : entry.Valid (layer.overlay below point)) :
    ∃ res, layer.batchWriteEntry point entry = .ok res ∧ res.Valid below ∧
      res.overlay below = update (layer.overlay below) point entry.visible := by
  cases found : layer.cacheCoins.lookup point with
  | none =>
    rw [overlay_of_none below found] at entryValid
    have meaningful : entry.coin.isSpent = true → entry.fresh = false :=
      fun spent => (entryValid.spent spent).2.2
    obtain ⟨res, written, puts⟩ := batchWriteEntry_of_none valid.bookkept found meaningful
    refine ⟨res, written, valid.of_puts puts ?_, puts.overlay_eq below⟩
    refine ⟨fun spent => ⟨(entryValid.spent spent).1, rfl, meaningful spent⟩, ?_,
      fun fresh => ⟨rfl, (entryValid.fresh fresh).2⟩⟩
    intro clean
    cases clean
  | some ours =>
    have oursValid := valid.entries point ours found
    rw [overlay_of_some below found] at entryValid
    have allowed : entry.fresh = true → ours.coin.isSpent = true := by
      intro fresh
      by_contra unspent
      have absent := (entryValid.fresh fresh).2
      rw [visible_of_unspent (by simpa using unspent)] at absent
      cases absent
    by_cases removable : ours.fresh = true ∧ entry.coin.isSpent = true
    · obtain ⟨res, written, drops⟩ :=
        batchWriteEntry_drops valid.bookkept found allowed removable.1 removable.2
      refine ⟨res, written, valid.of_drops drops, ?_⟩
      rw [drops.overlay_eq below, visible_of_spent removable.2, (oursValid.fresh removable.1).2]
    · have keeps : ours.fresh = true → entry.coin.isSpent = false := by
        intro oursFresh
        by_contra spent
        exact removable ⟨oursFresh, by simpa using spent⟩
      obtain ⟨res, written, puts⟩ := batchWriteEntry_puts valid.bookkept found allowed keeps
      refine ⟨res, written, valid.of_puts puts ?_, puts.overlay_eq below⟩
      refine ⟨?_, ?_, fun oursFresh => ⟨rfl, (oursValid.fresh oursFresh).2⟩⟩
      · intro spent
        refine ⟨(entryValid.spent spent).1, rfl, ?_⟩
        by_contra oursFresh
        exact removable ⟨by simpa using oursFresh, spent⟩
      · intro clean
        cases clean

end CacheLayer

/-! ## Well-formed stacks -/

namespace CoinsView

/-- Every layer of the stack is valid over the map below it. -/
def WellFormed : CoinsView → Prop
  | .bottom _ => True
  | .cache layer base => layer.Valid base.peekCoin ∧ base.WellFormed

theorem peekCoin_cache (layer : CacheLayer) (base : CoinsView) :
    (cache layer base).peekCoin = layer.overlay base.peekCoin := by
  funext point
  rw [peekCoin, overlay]
  rfl

theorem unspent_of_peekCoin {view : CoinsView} {point : COutPoint} {coin : Coin}
    (found : view.peekCoin point = some coin) : coin.isSpent = false := by
  induction view with
  | bottom base => exact base.unspent point coin found
  | cache layer base ih =>
    rw [peekCoin_cache] at found
    cases lookupEq : layer.cacheCoins.lookup point with
    | none =>
      rw [overlay_of_none _ lookupEq] at found
      exact ih found
    | some entry =>
      rw [overlay_of_some _ lookupEq] at found
      by_cases spent : entry.coin.isSpent = true
      · rw [visible_of_spent spent] at found
        cases found
      · rw [visible_of_unspent (by simpa using spent), Option.some.injEq] at found
        rw [← found]
        simpa using spent

end CoinsView

namespace CCoinsViewCache

def WellFormed (cache : CCoinsViewCache) : Prop :=
  cache.toView.WellFormed

def coins (cache : CCoinsViewCache) : LogicalMap :=
  cache.toView.peekCoin

theorem coins_eq (cache : CCoinsViewCache) :
    cache.coins = cache.layer.overlay cache.base.peekCoin :=
  peekCoin_cache cache.layer cache.base

variable {cache : CCoinsViewCache}

theorem wellFormed_iff :
    cache.WellFormed ↔ cache.layer.Valid cache.base.peekCoin ∧ cache.base.WellFormed :=
  Iff.rfl

/-- What `FetchCoin` gives back: the entry it found or made, in a cache with
the same logical map. -/
structure Fetched (cache : CCoinsViewCache) (outpoint : COutPoint)
    (fetched : Option CCoinsCacheEntry × CCoinsViewCache) : Prop where
  wellFormed : fetched.2.WellFormed
  sameCoins : fetched.2.coins = cache.coins
  sameBase : fetched.2.base.peekCoin = cache.base.peekCoin
  sameBlockHash : fetched.2.layer.blockHash = cache.layer.blockHash
  lookup_eq : fetched.2.layer.cacheCoins.lookup outpoint = fetched.1
  missing : fetched.1 = none → cache.coins outpoint = none

theorem Fetched.visible_eq {point : COutPoint}
    {fetched : Option CCoinsCacheEntry × CCoinsViewCache} (fetch : cache.Fetched point fetched) :
    fetched.1.bind visible = cache.coins point := by
  cases found : fetched.1 with
  | none => exact (fetch.missing found).symm
  | some entry =>
    rw [Option.bind_some, ← fetch.sameCoins, coins_eq]
    rw [← fetch.lookup_eq] at found
    exact (overlay_of_some _ found).symm

theorem fetchFrom_spec {point : COutPoint} {fetched : Option Coin × CoinsView}
    (wf : cache.WellFormed) (answer : fetched.1 = cache.base.peekCoin point)
    (baseWf : fetched.2.WellFormed) (sameBase : fetched.2.peekCoin = cache.base.peekCoin) :
    cache.Fetched point (cache.fetchFrom point fetched) := by
  obtain ⟨valid, -⟩ := wellFormed_iff.mp wf
  unfold fetchFrom
  cases lookupEq : cache.layer.cacheCoins.lookup point with
  | some entry =>
    refine ⟨wf, rfl, rfl, rfl, lookupEq, ?_⟩
    intro missing
    cases missing
  | none =>
    have overlayEq := overlay_of_none cache.base.peekCoin lookupEq
    cases coinEq : fetched.1 with
    | none =>
      have wellFormed' : WellFormed ⟨cache.layer, fetched.2⟩ :=
        ⟨by rw [sameBase]; exact valid, baseWf⟩
      refine ⟨wellFormed', ?_, sameBase, rfl, lookupEq, ?_⟩
      · rw [coins_eq, coins_eq, sameBase]
      · intro _
        rw [coins_eq, overlayEq, ← answer, coinEq]
    | some coin =>
      have held : cache.base.peekCoin point = some coin := by rw [← answer, coinEq]
      have unspent := unspent_of_peekCoin held
      have visible : visible ⟨coin, false, false⟩ = some coin := visible_of_unspent unspent
      have puts := storeFetched_puts valid.bookkept lookupEq coin
      have entryValid : CCoinsCacheEntry.Valid ⟨coin, false, false⟩
          (cache.base.peekCoin point) := by
        refine ⟨?_, fun _ => held, ?_⟩
        · intro spent
          rw [unspent] at spent
          cases spent
        · intro fresh
          cases fresh
      have valid' := valid.of_puts puts entryValid
      have wellFormed' : WellFormed ⟨(cache.layer.storeCoin point coin).addUsage
          coin.dynamicMemoryUsage, fetched.2⟩ :=
        ⟨by rw [sameBase]; exact valid', baseWf⟩
      refine ⟨wellFormed', ?_, sameBase, puts.blockHash_eq, ?_, ?_⟩
      · rw [coins_eq, coins_eq, sameBase]
        change overlay _ _ = _
        rw [puts.overlay_eq, visible, ← held, ← overlayEq, update_eq_self]
      · rw [puts.cacheCoins_eq, lookup_insert]
      · intro missing
        cases missing

end CCoinsViewCache

namespace CoinsView

theorem getCoin_spec {view : CoinsView} (wf : view.WellFormed) (point : COutPoint) :
    (view.getCoin point).1 = view.peekCoin point ∧ (view.getCoin point).2.WellFormed ∧
      (view.getCoin point).2.peekCoin = view.peekCoin := by
  induction view with
  | bottom base => exact ⟨rfl, trivial, rfl⟩
  | cache layer base ih =>
    obtain ⟨answer, baseWf, sameBase⟩ := ih wf.2
    have fetch := CCoinsViewCache.fetchFrom_spec (show CCoinsViewCache.WellFormed ⟨layer, base⟩
      from wf) answer baseWf sameBase
    exact ⟨fetch.visible_eq, fetch.wellFormed, fetch.sameCoins⟩

theorem bottomBase_getCoin (view : CoinsView) (point : COutPoint) :
    (view.getCoin point).2.bottomBase = view.bottomBase := by
  induction view with
  | bottom base => rfl
  | cache layer base ih =>
    simp only [getCoin, CCoinsViewCache.fetchFrom]
    cases layer.cacheCoins.lookup point with
    | some entry => rfl
    | none => cases (getCoin point base).1 <;> exact ih

end CoinsView

namespace CCoinsViewCache

variable {cache : CCoinsViewCache}

theorem fetchCoin_spec (wf : cache.WellFormed) (point : COutPoint) :
    cache.Fetched point (cache.fetchCoin point) := by
  obtain ⟨answer, baseWf, sameBase⟩ := getCoin_spec (wellFormed_iff.mp wf).2 point
  exact fetchFrom_spec wf answer baseWf sameBase

theorem bottomBase_fetchCoin (cache : CCoinsViewCache) (point : COutPoint) :
    (cache.fetchCoin point).2.base.bottomBase = cache.base.bottomBase := by
  have below := bottomBase_getCoin cache.base point
  simp only [fetchCoin, fetchFrom]
  cases cache.layer.cacheCoins.lookup point with
  | some entry => rfl
  | none => cases (cache.base.getCoin point).1 <;> exact below

/-- The cache may have pulled coins up, but means the same as before. -/
structure SameCoins (cache result : CCoinsViewCache) : Prop where
  wellFormed : result.WellFormed
  coins_eq : result.coins = cache.coins
  base_eq : result.base.peekCoin = cache.base.peekCoin
  bottomBase_eq : result.base.bottomBase = cache.base.bottomBase
  blockHash_eq : result.layer.blockHash = cache.layer.blockHash

theorem fetchCoin_sameCoins (wf : cache.WellFormed) (point : COutPoint) :
    cache.SameCoins (cache.fetchCoin point).2 :=
  have fetch := fetchCoin_spec wf point
  ⟨fetch.wellFormed, fetch.sameCoins, fetch.sameBase, bottomBase_fetchCoin cache point,
    fetch.sameBlockHash⟩

theorem getCoin_spec (wf : cache.WellFormed) (point : COutPoint) :
    (cache.getCoin point).1 = cache.coins point ∧ cache.SameCoins (cache.getCoin point).2 :=
  ⟨(fetchCoin_spec wf point).visible_eq, fetchCoin_sameCoins wf point⟩

theorem haveCoin_spec (wf : cache.WellFormed) (point : COutPoint) :
    (cache.haveCoin point).1 = (cache.coins point).isSome ∧
      cache.SameCoins (cache.haveCoin point).2 := by
  refine ⟨?_, fetchCoin_sameCoins wf point⟩
  rw [← (fetchCoin_spec wf point).visible_eq]
  change Option.any _ (cache.fetchCoin point).1 = _
  cases (cache.fetchCoin point).1 with
  | none => rfl
  | some entry => cases spent : entry.coin.isSpent <;> simp [visible, spent]

theorem accessCoin_spec (wf : cache.WellFormed) (point : COutPoint) :
    (cache.accessCoin point).1 = (cache.coins point).getD Coin.empty ∧
      cache.SameCoins (cache.accessCoin point).2 := by
  have fetch := fetchCoin_spec wf point
  refine ⟨?_, fetchCoin_sameCoins wf point⟩
  rw [← fetch.visible_eq]
  change Option.getD (Option.map _ (cache.fetchCoin point).1) _ = _
  cases found : (cache.fetchCoin point).1 with
  | none => rfl
  | some entry =>
    cases spent : entry.coin.isSpent with
    | false => simp [visible, spent]
    | true =>
      have valid := (wellFormed_iff.mp fetch.wellFormed).1.entries point entry
        (fetch.lookup_eq.trans found)
      simp [visible, (valid.spent spent).1]

variable {point : COutPoint}

theorem addCoin_spec (wf : cache.WellFormed) {coin : Coin} {possibleOverwrite : Bool}
    (unspent : coin.isSpent = false)
    (permitted : cache.coins point ≠ none → possibleOverwrite = true) :
    ∃ res, cache.addCoin point coin possibleOverwrite = .ok res ∧ res.WellFormed ∧
      res.base = cache.base ∧ res.layer.blockHash = cache.layer.blockHash ∧
      res.coins = if isUnspendable coin.out.scriptPubKey then cache.coins
        else update cache.coins point (some coin) := by
  unfold addCoin
  by_cases unspendable : isUnspendable coin.out.scriptPubKey = true
  · refine ⟨cache, ?_, wf, rfl, rfl, ?_⟩
    · simp [unspent, unspendable]
    · rw [if_pos unspendable]
  · obtain ⟨valid, baseWf⟩ := wellFormed_iff.mp wf
    rw [coins_eq] at permitted
    obtain ⟨layer, added, layerValid, sameBlockHash, overlayEq⟩ := valid.addCoin unspent permitted
    refine ⟨⟨layer, cache.base⟩, ?_, ⟨layerValid, baseWf⟩, rfl, sameBlockHash, ?_⟩
    · simp [unspent, unspendable, added]
    · rw [if_neg unspendable, coins_eq, coins_eq, overlayEq]

private theorem spendCoin_of_none (missing : (cache.fetchCoin point).1 = none) :
    cache.spendCoin point = (none, (cache.fetchCoin point).2) := by
  simp only [spendCoin, missing]

private theorem spendCoin_of_some {entry : CCoinsCacheEntry}
    (found : (cache.fetchCoin point).1 = some entry) :
    cache.spendCoin point = (some entry.coin, { (cache.fetchCoin point).2 with
        layer := (cache.fetchCoin point).2.layer.spendEntry point entry }) := by
  simp only [spendCoin, found]

theorem spendCoin_spec (wf : cache.WellFormed) (point : COutPoint) :
    ((cache.spendCoin point).1 = none → cache.coins point = none) ∧
      (∀ coin, cache.coins point = some coin → (cache.spendCoin point).1 = some coin) ∧
      (cache.spendCoin point).2.WellFormed ∧
      (cache.spendCoin point).2.base.peekCoin = cache.base.peekCoin ∧
      (cache.spendCoin point).2.base.bottomBase = cache.base.bottomBase ∧
      (cache.spendCoin point).2.layer.blockHash = cache.layer.blockHash ∧
      (cache.spendCoin point).2.coins = update cache.coins point none := by
  have fetch := fetchCoin_spec wf point
  have visible := fetch.visible_eq
  cases found : (cache.fetchCoin point).1 with
  | none =>
    have absent := fetch.missing found
    rw [spendCoin_of_none found]
    refine ⟨fun _ => absent, ?_, fetch.wellFormed, fetch.sameBase,
      bottomBase_fetchCoin cache point, fetch.sameBlockHash, ?_⟩
    · intro coin present
      rw [absent] at present
      cases present
    · rw [fetch.sameCoins, ← absent, update_eq_self]
  | some entry =>
    obtain ⟨valid, baseWf⟩ := wellFormed_iff.mp fetch.wellFormed
    obtain ⟨layerValid, sameBlockHash, overlayEq⟩ := valid.spendEntry (fetch.lookup_eq.trans found)
    rw [spendCoin_of_some found]
    refine ⟨?_, ?_, ⟨layerValid, baseWf⟩, fetch.sameBase,
      bottomBase_fetchCoin cache point, sameBlockHash.trans fetch.sameBlockHash, ?_⟩
    · intro missing
      cases missing
    · intro coin present
      rw [found, Option.bind_some, present] at visible
      by_cases spent : entry.coin.isSpent = true
      · rw [visible_of_spent spent] at visible
        cases visible
      · rw [visible_of_unspent (by simpa using spent)] at visible
        exact visible
    · rw [coins_eq]
      change overlay _ (cache.fetchCoin point).2.base.peekCoin = _
      rw [overlayEq, ← coins_eq, fetch.sameCoins]

theorem uncache_spec (wf : cache.WellFormed) (point : COutPoint) :
    cache.SameCoins (cache.uncache point) := by
  obtain ⟨valid, baseWf⟩ := wellFormed_iff.mp wf
  obtain ⟨layerValid, sameBlockHash, overlayEq⟩ := valid.uncache point
  refine ⟨⟨layerValid, baseWf⟩, ?_, rfl, rfl, sameBlockHash⟩
  rw [coins_eq, coins_eq]
  exact overlayEq

end CCoinsViewCache

end Champy
