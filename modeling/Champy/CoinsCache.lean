import Champy.FiniteMaps
import Champy.IntrusiveList
import Champy.Scripts

/-!
# The coins cache

A stack of `CCoinsViewCache` layers over a base view.  Every layer keeps
entries for some outpoints, each unspent or spent, dirty or not, fresh or not,
and threads the flagged entries on a doubly linked list.  Lookups pull missing
coins up from the view below.  `Flush` and `Sync` hand the dirty entries down
to it.

The functions follow `coins.cpp`.  A thrown `std::logic_error` or a failed
assertion is a `Fault`.  The counters are natural numbers; `TrySub` leaves a
counter alone when it would become negative.
-/

namespace Champy

/-- An entry of the set of unspent outputs. -/
structure Coin where
  out : CTxOut
  fCoinBase : Bool
  nHeight : BitVec 31
  deriving DecidableEq, Repr

/-- What a view means: the coin at each outpoint. -/
abbrev LogicalMap : Type := COutPoint → Option Coin

def mallocUsage (alloc : Nat) : Nat :=
  if alloc = 0 then 0 else ((alloc + 31) >>> 4) <<< 4

namespace Coin

/-- The coin that `Clear` leaves and that stands for a missing coin. -/
def empty : Coin := ⟨⟨-1, []⟩, false, 0⟩

def isSpent (coin : Coin) : Bool :=
  coin.out.nValue == -1

/-- A script of at most 36 bytes is stored inline.  The capacity of a longer one is its length, as
for every script that was copied or read. -/
def dynamicMemoryUsage (coin : Coin) : Nat :=
  mallocUsage (if coin.out.scriptPubKey.length ≤ 36 then 0 else coin.out.scriptPubKey.length)

end Coin

def trySub (value amount : Nat) : Nat :=
  if value < amount then value else value - amount

structure CCoinsCacheEntry where
  coin : Coin
  dirty : Bool
  fresh : Bool
  deriving DecidableEq, Repr

namespace CCoinsCacheEntry

def flagged (entry : CCoinsCacheEntry) : Bool :=
  entry.dirty || entry.fresh

def dirtyMeasure (entry : CCoinsCacheEntry) : Nat :=
  entry.dirty.toNat

def usageMeasure (entry : CCoinsCacheEntry) : Nat :=
  entry.coin.dynamicMemoryUsage

def new : CCoinsCacheEntry := ⟨Coin.empty, false, false⟩

end CCoinsCacheEntry

/-- The fields of one `CCoinsViewCache` apart from its base. -/
structure CacheLayer where
  cacheCoins : FinMap COutPoint CCoinsCacheEntry
  links : Links COutPoint
  dirtyCount : Nat
  cachedCoinsUsage : Nat
  blockHash : Uint256

namespace CacheLayer

def new : CacheLayer where
  cacheCoins := ∅
  links := Links.selfRef
  dirtyCount := 0
  cachedCoinsUsage := 0
  blockHash := 0

variable (layer : CacheLayer) (outpoint : COutPoint)

/-- `AddFlags`: an entry without flags is threaded on the list first. -/
def addFlags (dirty fresh : Bool) : CacheLayer :=
  match layer.cacheCoins.lookup outpoint with
  | none => layer
  | some entry =>
    { layer with
      links := if entry.flagged then layer.links else layer.links.pushBack outpoint
      cacheCoins := layer.cacheCoins.insert outpoint
        ⟨entry.coin, entry.dirty || dirty, entry.fresh || fresh⟩ }

def setDirty : CacheLayer :=
  layer.addFlags outpoint true false

def setFresh : CacheLayer :=
  layer.addFlags outpoint false true

def setClean : CacheLayer :=
  match layer.cacheCoins.lookup outpoint with
  | none => layer
  | some entry =>
    { layer with
      links := if entry.flagged then layer.links.unlink outpoint else layer.links
      cacheCoins := layer.cacheCoins.insert outpoint ⟨entry.coin, false, false⟩ }

/-- `cacheCoins.erase`: the destructor of the entry takes it off the list. -/
def eraseEntry : CacheLayer :=
  match layer.cacheCoins.lookup outpoint with
  | none => layer
  | some entry =>
    { layer with
      links := if entry.flagged then layer.links.unlink outpoint else layer.links
      cacheCoins := layer.cacheCoins.erase outpoint }

/-- The entry that `emplace` finds or creates. -/
def entryAt : CCoinsCacheEntry :=
  (layer.cacheCoins.lookup outpoint).getD CCoinsCacheEntry.new

/-- Store a coin in an entry, creating the entry when it is missing. -/
@[simps]
def storeCoin (coin : Coin) : CacheLayer :=
  { layer with
    cacheCoins := layer.cacheCoins.insert outpoint ({ layer.entryAt outpoint with coin := coin }) }

@[simps]
def subDirtyCount (amount : Nat) : CacheLayer :=
  { layer with dirtyCount := trySub layer.dirtyCount amount }

@[simps]
def incDirtyCount : CacheLayer :=
  { layer with dirtyCount := layer.dirtyCount + 1 }

@[simps]
def subUsage (amount : Nat) : CacheLayer :=
  { layer with cachedCoinsUsage := trySub layer.cachedCoinsUsage amount }

@[simps]
def addUsage (amount : Nat) : CacheLayer :=
  { layer with cachedCoinsUsage := layer.cachedCoinsUsage + amount }

/-- The part of `AddCoin` that discounts an existing entry and writes the new
coin. -/
def writeCoin (coin : Coin) (fresh : Bool) : CacheLayer :=
  let counted := match layer.cacheCoins.lookup outpoint with
    | none => layer
    | some entry =>
      (layer.subDirtyCount entry.dirty.toNat).subUsage entry.coin.dynamicMemoryUsage
  let stored := ((counted.storeCoin outpoint coin).setDirty outpoint).incDirtyCount
  let flagged := if fresh then stored.setFresh outpoint else stored
  flagged.addUsage coin.dynamicMemoryUsage

/-- `AddCoin` after its early returns.  The coin of a missing entry counts as
spent, so only an unspent entry is an overwrite. -/
def addCoin (coin : Coin) (possibleOverwrite : Bool) : Except Fault CacheLayer :=
  let entry := layer.entryAt outpoint
  if !possibleOverwrite && !entry.coin.isSpent then .error .logicError
  else .ok (layer.writeCoin outpoint coin (!possibleOverwrite && !entry.dirty))

/-- The body of `SpendCoin` once the entry is known. -/
def spendEntry (entry : CCoinsCacheEntry) : CacheLayer :=
  let counted := (layer.subDirtyCount entry.dirty.toNat).subUsage entry.coin.dynamicMemoryUsage
  if entry.fresh then counted.eraseEntry outpoint
  else (counted.setDirty outpoint).incDirtyCount.storeCoin outpoint Coin.empty

def uncache : CacheLayer :=
  match layer.cacheCoins.lookup outpoint with
  | none => layer
  | some entry =>
    if entry.dirty then layer
    else (layer.subUsage entry.coin.dynamicMemoryUsage).eraseEntry outpoint

/-- The entries that a cursor visits, in list order.  The successor of an entry
is read before the entry is unlinked, so the order is the one at the start. -/
def flaggedOutpoints : List COutPoint :=
  layer.links.walk layer.cacheCoins.keys.card (layer.links.next none)

/-- One entry of `CCoinsViewCache::BatchWrite`. -/
def batchWriteEntry (parent : CacheLayer) (outpoint : COutPoint) (entry : CCoinsCacheEntry) :
    Except Fault CacheLayer :=
  match parent.cacheCoins.lookup outpoint with
  | none =>
    if entry.fresh && entry.coin.isSpent then .ok parent
    else
      let stored := ((parent.storeCoin outpoint entry.coin).setDirty outpoint).incDirtyCount
      let counted := stored.addUsage entry.coin.dynamicMemoryUsage
      .ok (if entry.fresh then counted.setFresh outpoint else counted)
  | some ours =>
    if entry.fresh && !ours.coin.isSpent then .error .logicError
    else if ours.fresh && entry.coin.isSpent then
      .ok (((parent.subDirtyCount ours.dirty.toNat).subUsage
        ours.coin.dynamicMemoryUsage).eraseEntry outpoint)
    else
      let stored := ((parent.subUsage ours.coin.dynamicMemoryUsage).storeCoin outpoint
        entry.coin).addUsage entry.coin.dynamicMemoryUsage
      .ok (if ours.dirty then stored else (stored.setDirty outpoint).incDirtyCount)

/-- `NextAndMaybeErase` on the entry that was just written. -/
def nextAndMaybeErase (child : CacheLayer) (willErase : Bool) (outpoint : COutPoint)
    (entry : CCoinsCacheEntry) : Except Fault CacheLayer :=
  let counted := child.subDirtyCount entry.dirty.toNat
  if willErase then .ok counted
  else if entry.coin.isSpent then
    if entry.coin.dynamicMemoryUsage = 0 then .ok (counted.eraseEntry outpoint)
    else .error .assertion
  else .ok (counted.setClean outpoint)

end CacheLayer

/-- What a batch write leaves behind: the writing cache, the view written to,
and the exception that ended the loop early, if one did. -/
structure BatchWrite (β : Type) where
  child : CacheLayer
  parent : β
  thrown : Option Fault

def batchWriteLoop {β : Type} (write : β → COutPoint → CCoinsCacheEntry → Except Fault β)
    (willErase : Bool) : List COutPoint → CacheLayer → β → BatchWrite β
  | [], child, parent => ⟨child, parent, none⟩
  | outpoint :: outpoints, child, parent =>
    match child.cacheCoins.lookup outpoint with
    | none => batchWriteLoop write willErase outpoints child parent
    | some entry =>
      match if entry.dirty then write parent outpoint entry else .ok parent with
      | .error fault => ⟨child, parent, some fault⟩
      | .ok written =>
        match child.nextAndMaybeErase willErase outpoint entry with
        | .error fault => ⟨child, written, some fault⟩
        | .ok next => batchWriteLoop write willErase outpoints next written

inductive BaseKind
  | memory
  | database
  deriving DecidableEq, Repr

/-- The view at the bottom of a stack.  It holds unspent coins only. -/
structure CoinsBase where
  kind : BaseKind
  coins : FinMap COutPoint Coin
  unspent : ∀ outpoint coin, coins.lookup outpoint = some coin → coin.isSpent = false
  bestBlock : Uint256
  headBlocks : List Uint256

namespace CoinsBase

/-- The assertions of `CCoinsViewDB::BatchWrite`.  A map in memory has none. -/
def checkBatchWrite (base : CoinsBase) (blockHash : Uint256) : Except Fault Unit :=
  match base.kind with
  | .memory => .ok ()
  | .database =>
    if blockHash = 0 then .error .assertion
    else if base.bestBlock = 0 then
      match base.headBlocks with
      | [new, _] => if new = blockHash then .ok () else .error .assertion
      | _ => .ok ()
    else .ok ()

def writeEntry (base : CoinsBase) (outpoint : COutPoint) (entry : CCoinsCacheEntry) : CoinsBase :=
  if spent : entry.coin.isSpent then
    { base with
      coins := base.coins.erase outpoint
      unspent := by
        intro other coin found
        by_cases same : other = outpoint
        · rw [same, Finmap.lookup_erase] at found
          cases found
        · rw [Finmap.lookup_erase_ne same] at found
          exact base.unspent other coin found }
  else
    { base with
      coins := base.coins.insert outpoint entry.coin
      unspent := by
        intro other coin found
        by_cases same : other = outpoint
        · rw [same, Finmap.lookup_insert, Option.some.injEq] at found
          rw [← found]
          simpa using spent
        · rw [Finmap.lookup_insert_of_ne _ same] at found
          exact base.unspent other coin found }

/-- The last write of a batch records the block the coins now belong to. -/
def finishBatchWrite (base : CoinsBase) (blockHash : Uint256) : CoinsBase :=
  match base.kind with
  | .memory => if blockHash = 0 then base else { base with bestBlock := blockHash }
  | .database => { base with bestBlock := blockHash, headBlocks := [] }

end CoinsBase

/-- A base view with any number of caches over it. -/
inductive CoinsView
  | bottom (base : CoinsBase)
  | cache (layer : CacheLayer) (base : CoinsView)

/-- A `CCoinsViewCache`: one layer and the view that backs it. -/
structure CCoinsViewCache where
  layer : CacheLayer
  base : CoinsView

namespace CCoinsViewCache

def toView (cache : CCoinsViewCache) : CoinsView :=
  .cache cache.layer cache.base

def new (base : CoinsView) : CCoinsViewCache :=
  ⟨CacheLayer.new, base⟩

/-- The rest of `FetchCoin`, given what the base answers. -/
def fetchFrom (cache : CCoinsViewCache) (outpoint : COutPoint)
    (fetched : Option Coin × CoinsView) : Option CCoinsCacheEntry × CCoinsViewCache :=
  match cache.layer.cacheCoins.lookup outpoint with
  | some entry => (some entry, cache)
  | none =>
    match fetched.1 with
    | none => (none, ⟨cache.layer, fetched.2⟩)
    | some coin =>
      let layer := (cache.layer.storeCoin outpoint coin).addUsage coin.dynamicMemoryUsage
      (some ⟨coin, false, false⟩, ⟨layer, fetched.2⟩)

end CCoinsViewCache

namespace CoinsView

/-- `GetCoin`: the coin is pulled into every cache on the way up. -/
def getCoin (outpoint : COutPoint) : CoinsView → Option Coin × CoinsView
  | .bottom base => (base.coins.lookup outpoint, .bottom base)
  | .cache layer base =>
    let fetched := CCoinsViewCache.fetchFrom ⟨layer, base⟩ outpoint (getCoin outpoint base)
    (fetched.1.bind fun entry => if entry.coin.isSpent then none else some entry.coin,
      fetched.2.toView)

/-- `PeekCoin`: the logical contents of the view. -/
def peekCoin : CoinsView → COutPoint → Option Coin
  | .bottom base, outpoint => base.coins.lookup outpoint
  | .cache layer base, outpoint =>
    match layer.cacheCoins.lookup outpoint with
    | some entry => if entry.coin.isSpent then none else some entry.coin
    | none => base.peekCoin outpoint

/-- The view that backs the topmost cache. -/
def lower : CoinsView → Option CoinsView
  | .bottom _ => none
  | .cache _ base => some base

/-- The view at the bottom of the stack. -/
def bottomBase : CoinsView → CoinsBase
  | .bottom base => base
  | .cache _ base => base.bottomBase

def batchWrite (child : CacheLayer) (willErase : Bool) : CoinsView → BatchWrite CoinsView
  | .bottom base =>
    match base.checkBatchWrite child.blockHash with
    | .error fault => ⟨child, .bottom base, some fault⟩
    | .ok () =>
      let result := batchWriteLoop (fun parent outpoint entry =>
        .ok (parent.writeEntry outpoint entry)) willErase child.flaggedOutpoints child base
      ⟨result.child, .bottom (result.parent.finishBatchWrite child.blockHash), result.thrown⟩
  | .cache parent base =>
    let result := batchWriteLoop CacheLayer.batchWriteEntry willErase child.flaggedOutpoints
      child parent
    match result.thrown with
    | some fault => ⟨result.child, .cache result.parent base, some fault⟩
    | none =>
      ⟨result.child, .cache { result.parent with blockHash := child.blockHash } base, none⟩

end CoinsView

namespace CCoinsViewCache

variable (cache : CCoinsViewCache) (outpoint : COutPoint)

def fetchCoin : Option CCoinsCacheEntry × CCoinsViewCache :=
  cache.fetchFrom outpoint (cache.base.getCoin outpoint)

def getCoin : Option Coin × CCoinsViewCache :=
  let fetched := cache.fetchCoin outpoint
  (fetched.1.bind fun entry => if entry.coin.isSpent then none else some entry.coin, fetched.2)

def haveCoin : Bool × CCoinsViewCache :=
  let fetched := cache.fetchCoin outpoint
  (fetched.1.any fun entry => !entry.coin.isSpent, fetched.2)

def accessCoin : Coin × CCoinsViewCache :=
  let fetched := cache.fetchCoin outpoint
  ((fetched.1.map CCoinsCacheEntry.coin).getD Coin.empty, fetched.2)

def addCoin (cache : CCoinsViewCache) (outpoint : COutPoint) (coin : Coin)
    (possibleOverwrite : Bool) : Except Fault CCoinsViewCache :=
  if coin.isSpent then .error .assertion
  else if isUnspendable coin.out.scriptPubKey then .ok cache
  else
    match cache.layer.addCoin outpoint coin possibleOverwrite with
    | .error fault => .error fault
    | .ok layer => .ok { cache with layer := layer }

/-- `SpendCoin`: the coin moved out, or nothing when the call returns false. -/
def spendCoin : Option Coin × CCoinsViewCache :=
  let fetched := cache.fetchCoin outpoint
  match fetched.1 with
  | none => (none, fetched.2)
  | some entry =>
    (some entry.coin, { fetched.2 with layer := fetched.2.layer.spendEntry outpoint entry })

def uncache (cache : CCoinsViewCache) (outpoint : COutPoint) : CCoinsViewCache :=
  { cache with layer := cache.layer.uncache outpoint }

/-- `Flush`: the exception, if any, and the cache and base as they are then. -/
def flush : CCoinsViewCache × Option Fault :=
  let result := cache.base.batchWrite cache.layer true
  match result.thrown with
  | some fault => (⟨result.child, result.parent⟩, some fault)
  | none =>
    (⟨{ result.child with
        cacheCoins := ∅
        links := Links.selfRef
        cachedCoinsUsage := 0 }, result.parent⟩, none)

def sync : CCoinsViewCache × Option Fault :=
  let result := cache.base.batchWrite cache.layer false
  let synced : CCoinsViewCache := ⟨result.child, result.parent⟩
  match result.thrown with
  | some fault => (synced, some fault)
  | none =>
    if result.child.links.next none = some none then (synced, none)
    else (synced, some .logicError)

end CCoinsViewCache

namespace CacheLayer

/-- The assertions of `SanityCheck` about one entry of the map. -/
def sanityCheckEntry (entry : CCoinsCacheEntry) : Bool :=
  if entry.coin.isSpent then entry.dirty && !entry.fresh else entry.dirty || !entry.fresh

/-- The assertions of `SanityCheck` about one node of the list. -/
def sanityCheckNode (layer : CacheLayer) (outpoint : COutPoint) : Bool :=
  (layer.links.next (some outpoint)).any (fun node =>
      layer.links.prev node == some (some outpoint)) &&
    (layer.links.prev (some outpoint)).any (fun node =>
      layer.links.next node == some (some outpoint)) &&
    (layer.cacheCoins.lookup outpoint).any CCoinsCacheEntry.dirty

/-- `SanityCheck`: whether all its assertions hold. -/
def sanityCheck (layer : CacheLayer) : Bool :=
  let countDirty := FinMap.total CCoinsCacheEntry.dirtyMeasure layer.cacheCoins
  let recomputedUsage := FinMap.total CCoinsCacheEntry.usageMeasure layer.cacheCoins
  decide (∀ entry ∈ layer.cacheCoins.entries, sanityCheckEntry entry.2 = true) &&
    layer.flaggedOutpoints.all layer.sanityCheckNode &&
    countDirty == layer.flaggedOutpoints.length && countDirty == layer.dirtyCount &&
    recomputedUsage == layer.cachedCoinsUsage

end CacheLayer

end Champy
