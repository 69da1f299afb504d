import Champy.CoinsCacheFlush

/-!
# Runs of the coins cache

A stack of caches over a base map is driven by any sequence of lookups, writes
and flushes.  Next to it runs a stack of plain maps, one for every level.  After
every operation each layer passes its sanity check, no operation throws, every
lookup has the answer of the plain map, and the levels agree.
-/

namespace Champy

open CCoinsViewCache CacheLayer

/-- A coin that is not the empty one. -/
abbrev UnspentCoin : Type := { coin : Coin // coin.isSpent = false }

/-- The calls a client makes on the cache at the top of the stack.  `flush` and
`sync` may also name a cache further down, and `push` puts a new cache on top. -/
inductive CacheOp
  | getCoin (outpoint : COutPoint)
  | haveCoin (outpoint : COutPoint)
  | accessCoin (outpoint : COutPoint)
  | addCoin (outpoint : COutPoint) (coin : UnspentCoin) (possibleOverwrite : Bool)
  | spendCoin (outpoint : COutPoint)
  | uncache (outpoint : COutPoint)
  | flush (depth : Nat)
  | sync (depth : Nat)
  | push

inductive CacheAnswer
  | none
  | getCoin (coin : Option Coin)
  | haveCoin (present : Bool)
  | accessCoin (coin : Coin)
  deriving DecidableEq

namespace CoinsView

/-- Apply an operation to the cache at a depth, counted from the top. -/
def atDepth (op : CCoinsViewCache → CCoinsViewCache × Option Fault) :
    Nat → CoinsView → CoinsView × Option Fault
  | _, .bottom base => (.bottom base, none)
  | 0, .cache layer base =>
    let result := op ⟨layer, base⟩
    (result.1.toView, result.2)
  | depth + 1, .cache layer base =>
    let result := base.atDepth op depth
    (.cache layer result.1, result.2)

/-- Every layer of the stack passes `SanityCheck`. -/
def sanityCheck : CoinsView → Bool
  | .bottom _ => true
  | .cache layer base => layer.sanityCheck && base.sanityCheck

/-- The logical maps of all levels, from the top down. -/
def maps : CoinsView → List LogicalMap
  | .bottom base => [(CoinsView.bottom base).peekCoin]
  | .cache layer base => (CoinsView.cache layer base).peekCoin :: base.maps

end CoinsView

namespace CacheOp

/-- Lift a result that may carry an exception. -/
def orThrow (result : CoinsView × Option Fault) : Except Fault CoinsView :=
  match result.2 with
  | some fault => .error fault
  | none => .ok result.1

def apply : CacheOp → CCoinsViewCache → Except Fault (CacheAnswer × CoinsView)
  | .getCoin outpoint, cache =>
    let result := cache.getCoin outpoint
    .ok (.getCoin result.1, result.2.toView)
  | .haveCoin outpoint, cache =>
    let result := cache.haveCoin outpoint
    .ok (.haveCoin result.1, result.2.toView)
  | .accessCoin outpoint, cache =>
    let result := cache.accessCoin outpoint
    .ok (.accessCoin result.1, result.2.toView)
  | .addCoin outpoint coin possibleOverwrite, cache =>
    (cache.addCoin outpoint coin.1 possibleOverwrite).map fun result => (.none, result.toView)
  | .spendCoin outpoint, cache => .ok (.none, (cache.spendCoin outpoint).2.toView)
  | .uncache outpoint, cache => .ok (.none, (cache.uncache outpoint).toView)
  | .flush depth, cache =>
    (orThrow (cache.toView.atDepth CCoinsViewCache.flush depth)).map fun view => (.none, view)
  | .sync depth, cache =>
    (orThrow (cache.toView.atDepth CCoinsViewCache.sync depth)).map fun view => (.none, view)
  | .push, cache => .ok (.none, (new cache.toView).toView)

/-- Run one operation and check the sanity of every layer.  A stack without a
cache takes no operations. -/
def step (op : CacheOp) : CoinsView → Except Fault (CacheAnswer × CoinsView)
  | .bottom _ => .error .assertion
  | .cache layer base =>
    match op.apply ⟨layer, base⟩ with
    | .error fault => .error fault
    | .ok (answer, view) => if view.sanityCheck then .ok (answer, view) else .error .assertion

def run : List CacheOp → CoinsView → Except Fault (List CacheAnswer × CoinsView)
  | [], view => .ok ([], view)
  | op :: ops, view =>
    match op.step view with
    | .error fault => .error fault
    | .ok (answer, next) => (run ops next).map fun result => (answer :: result.1, result.2)

/-- Make the level below a depth equal to the level at that depth. -/
def copyDown {α : Type} : Nat → List α → List α
  | 0, level :: _ :: below => level :: level :: below
  | depth + 1, level :: below => level :: copyDown depth below
  | _, levels => levels

theorem copyDown_nil {α : Type} (depth : Nat) : copyDown depth ([] : List α) = [] := by
  cases depth <;> rfl

/-- The same operation on a stack of plain maps with the given top. -/
def specStep (op : CacheOp) (top : LogicalMap)
    (below : List LogicalMap) : CacheAnswer × List LogicalMap :=
  match op with
  | .getCoin outpoint => (.getCoin (top outpoint), top :: below)
  | .haveCoin outpoint => (.haveCoin (top outpoint).isSome, top :: below)
  | .accessCoin outpoint => (.accessCoin ((top outpoint).getD Coin.empty), top :: below)
  | .addCoin outpoint coin _ =>
    (.none, (if isUnspendable coin.1.out.scriptPubKey then top
      else Function.update top outpoint (some coin.1)) :: below)
  | .spendCoin outpoint => (.none, Function.update top outpoint none :: below)
  | .uncache _ => (.none, top :: below)
  | .flush depth => (.none, copyDown depth (top :: below))
  | .sync depth => (.none, copyDown depth (top :: below))
  | .push => (.none, top :: top :: below)

def specRun : List CacheOp → List LogicalMap →
    List CacheAnswer × List LogicalMap
  | [], maps => ([], maps)
  | _ :: _, [] => ([], [])
  | op :: ops, top :: below =>
    let result := op.specStep top below
    let rest := specRun ops result.2
    (result.1 :: rest.1, rest.2)

/-- `AddCoin` is told about a possible overwrite whenever there is one. -/
def Permitted (op : CacheOp) (top : LogicalMap) : Prop :=
  match op with
  | .addCoin outpoint _ possibleOverwrite => top outpoint ≠ none → possibleOverwrite = true
  | _ => True

/-- Every operation of a run is permitted when its turn comes. -/
def AllPermitted : List CacheOp → List LogicalMap → Prop
  | [], _ => True
  | _ :: _, [] => True
  | op :: ops, top :: below =>
    op.Permitted top ∧ AllPermitted ops (op.specStep top below).2

end CacheOp

namespace CoinsView

/-- The base is a map in memory, which takes any batch. -/
def InMemory (view : CoinsView) : Prop :=
  view.bottomBase.kind = .memory

theorem InMemory.acceptsBatch {view : CoinsView} (inMemory : view.InMemory) (blockHash : Uint256) :
    view.AcceptsBatch blockHash := by
  cases view with
  | bottom base =>
    have kind : base.kind = .memory := inMemory
    simp [AcceptsBatch, CoinsBase.checkBatchWrite, kind]
  | cache layer base => trivial

theorem WellFormed.sanityCheck {view : CoinsView} (wf : view.WellFormed) :
    view.sanityCheck = true := by
  induction view with
  | bottom base => rfl
  | cache layer base ih => simp [CoinsView.sanityCheck, wf.1.sanityCheck, ih wf.2]

theorem maps_eq (view : CoinsView) :
    view.maps = view.peekCoin :: (view.lower.map CoinsView.maps).getD [] := by
  cases view <;> rfl

end CoinsView

/-- Handing the logical map of a cache to the view below it, and leaving the
levels under that view alone. -/
structure WritesDown (cache result : CCoinsViewCache) : Prop where
  wellFormed : result.WellFormed
  kind_eq : result.base.bottomBase.kind = cache.base.bottomBase.kind
  lower_eq : result.base.lower = cache.base.lower
  coins_eq : result.coins = cache.coins
  base_eq : result.base.peekCoin = cache.coins

namespace CCoinsViewCache

variable {cache : CCoinsViewCache}

theorem flush_writesDown (wf : cache.WellFormed) (inMemory : cache.base.InMemory) :
    cache.flush.2 = none ∧ WritesDown cache cache.flush.1 := by
  obtain ⟨base', flushEq, wellFormed', sameKind, sameLower, coinsEq⟩ :=
    flush_spec wf (inMemory.acceptsBatch _)
  rw [flushEq]
  have valid : CacheLayer.Valid { CacheLayer.new with blockHash := cache.layer.blockHash }
      base'.peekCoin :=
    have newValid := valid_new base'.peekCoin
    ⟨⟨newValid.bookkept.threaded, rfl, rfl⟩, newValid.entries⟩
  refine ⟨rfl, ⟨valid, wellFormed'⟩, sameKind, sameLower, ?_, coinsEq⟩
  rw [coins_eq, ← coinsEq]
  exact overlay_new base'.peekCoin

theorem sync_writesDown (wf : cache.WellFormed) (inMemory : cache.base.InMemory) :
    cache.sync.2 = none ∧ WritesDown cache cache.sync.1 := by
  obtain ⟨noThrow, wellFormed', sameKind, sameLower, coinsEq, baseEq⟩ :=
    sync_spec wf (inMemory.acceptsBatch _)
  exact ⟨noThrow, wellFormed', sameKind, sameLower, coinsEq, baseEq⟩

end CCoinsViewCache

namespace CoinsView

/-- Writing the cache at a depth down changes only the level below it. -/
theorem atDepth_spec {op : CCoinsViewCache → CCoinsViewCache × Option Fault}
    (writes : ∀ cache : CCoinsViewCache, cache.WellFormed → cache.base.InMemory →
      (op cache).2 = none ∧ WritesDown cache (op cache).1)
    {view : CoinsView} (wf : view.WellFormed) (inMemory : view.InMemory) (depth : Nat) :
    ∃ view', view.atDepth op depth = (view', none) ∧ view'.WellFormed ∧ view'.InMemory ∧
      view'.peekCoin = view.peekCoin ∧ view'.maps = CacheOp.copyDown depth view.maps := by
  induction view generalizing depth with
  | bottom base =>
    refine ⟨.bottom base, by rw [atDepth], trivial, inMemory, rfl, ?_⟩
    cases depth with
    | zero => rfl
    | succ depth => rw [maps, CacheOp.copyDown, CacheOp.copyDown_nil]
  | cache layer base ih =>
    cases depth with
    | zero =>
      obtain ⟨noThrow, down⟩ := writes ⟨layer, base⟩ wf inMemory
      refine ⟨(op ⟨layer, base⟩).1.toView, ?_, down.wellFormed, ?_, down.coins_eq, ?_⟩
      · simp only [atDepth, noThrow]
      · exact down.kind_eq.trans inMemory
      · change coins _ :: CoinsView.maps _ = _
        rw [maps_eq (op ⟨layer, base⟩).1.base, down.coins_eq, down.base_eq, down.lower_eq]
        rw [maps, maps_eq base]
        rfl
    | succ depth =>
      obtain ⟨base', atEq, baseWf, baseInMemory, peekEq, mapsEq⟩ := ih wf.2 inMemory depth
      refine ⟨.cache layer base', ?_, ⟨?_, baseWf⟩, baseInMemory, ?_, ?_⟩
      · simp only [atDepth, atEq]
      · rw [peekEq]
        exact wf.1
      · rw [peekCoin_cache, peekCoin_cache, peekEq]
      · rw [maps, peekCoin_cache, peekEq, ← peekCoin_cache, mapsEq]
        rfl

end CoinsView

namespace CCoinsViewCache

theorem base_fetchFrom (cache : CCoinsViewCache) (point : COutPoint)
    (fetched : Option Coin × CoinsView) :
    (cache.fetchFrom point fetched).2.base = cache.base ∨
      (cache.fetchFrom point fetched).2.base = fetched.2 := by
  unfold fetchFrom
  cases cache.layer.cacheCoins.lookup point with
  | some entry => exact Or.inl rfl
  | none =>
    right
    cases fetched.1 <;> rfl

end CCoinsViewCache

/-- A lookup may fill the caches below, but no level changes its meaning. -/
theorem CoinsView.maps_getCoin {view : CoinsView} (wf : view.WellFormed)
    (point : COutPoint) : (view.getCoin point).2.maps = view.maps := by
  induction view with
  | bottom base => rfl
  | cache layer base ih =>
    have sameTop := (CoinsView.getCoin_spec wf point).2.2
    have sameBelow : (fetchFrom ⟨layer, base⟩ point
        (base.getCoin point)).2.base.maps = base.maps := by
      rcases base_fetchFrom ⟨layer, base⟩ point (base.getCoin point) with unchanged | pulled
      · rw [unchanged]
      · rw [pulled, ih wf.2]
    change CoinsView.peekCoin _ :: CoinsView.maps _ = _
    rw [sameBelow]
    exact congrArg (· :: base.maps) sameTop

namespace CCoinsViewCache

variable {cache : CCoinsViewCache}

theorem maps_fetchCoin (wf : cache.WellFormed) (point : COutPoint) :
    (cache.fetchCoin point).2.base.maps = cache.base.maps := by
  rcases base_fetchFrom cache point (cache.base.getCoin point) with unchanged | pulled
  · rw [fetchCoin, unchanged]
  · rw [fetchCoin, pulled, CoinsView.maps_getCoin (wellFormed_iff.mp wf).2]

theorem base_spendCoin (cache : CCoinsViewCache) (point : COutPoint) :
    (cache.spendCoin point).2.base = (cache.fetchCoin point).2.base := by
  simp only [spendCoin]
  cases (cache.fetchCoin point).1 <;> rfl

end CCoinsViewCache

/-- The stack is well formed over a base in memory, and its levels mean `maps`. -/
structure CoinsView.Means (view : CoinsView) (maps : List LogicalMap) : Prop where
  wellFormed : view.WellFormed
  inMemory : view.InMemory
  maps_eq : view.maps = maps

namespace CacheOp

variable {cache : CCoinsViewCache} {top : LogicalMap}

theorem means_of_parts {res : CCoinsViewCache} (wf : res.WellFormed)
    (bottomEq : res.base.bottomBase = cache.base.bottomBase) (inMemory : cache.base.InMemory)
    (mapsEq : res.base.maps = cache.base.maps) (coinsEq : res.coins = top) :
    res.toView.Means (top :: cache.base.maps) := by
  refine ⟨wf, ?_, ?_⟩
  · exact (congrArg CoinsBase.kind bottomEq).trans inMemory
  · change res.coins :: res.base.maps = _
    rw [coinsEq, mapsEq]

theorem means_of_fetch (wf : cache.WellFormed) (inMemory : cache.base.InMemory)
    (point : COutPoint) :
    (cache.fetchCoin point).2.toView.Means (cache.coins :: cache.base.maps) :=
  have same := fetchCoin_sameCoins wf point
  means_of_parts same.wellFormed same.bottomBase_eq inMemory (maps_fetchCoin wf point) same.coins_eq

theorem means_of_atDepth {op : CCoinsViewCache → CCoinsViewCache × Option Fault}
    (writes : ∀ cache : CCoinsViewCache, cache.WellFormed → cache.base.InMemory →
      (op cache).2 = none ∧ WritesDown cache (op cache).1)
    (wf : cache.WellFormed) (inMemory : cache.base.InMemory) (depth : Nat) :
    ∃ view, orThrow (cache.toView.atDepth op depth) = .ok view ∧
      view.Means (copyDown depth (cache.coins :: cache.base.maps)) := by
  obtain ⟨view, atEq, wellFormed', inMemory', -, mapsEq⟩ :=
    CoinsView.atDepth_spec writes (show cache.toView.WellFormed from wf) inMemory depth
  refine ⟨view, ?_, wellFormed', inMemory', mapsEq⟩
  rw [orThrow, atEq]

/-- One permitted operation on a well-formed stack does to it what it does to
the stack of plain maps. -/
theorem apply_spec {op : CacheOp} (wf : cache.WellFormed)
    (inMemory : cache.base.InMemory) (permitted : op.Permitted cache.coins) :
    ∃ view, op.apply cache = .ok ((op.specStep cache.coins cache.base.maps).1, view) ∧
      view.Means (op.specStep cache.coins cache.base.maps).2 := by
  cases op with
  | getCoin point =>
    have answer := (getCoin_spec wf point).1
    refine ⟨(cache.getCoin point).2.toView, ?_, means_of_fetch wf inMemory point⟩
    simp only [apply, specStep, answer]
  | haveCoin point =>
    have answer := (haveCoin_spec wf point).1
    refine ⟨(cache.haveCoin point).2.toView, ?_, means_of_fetch wf inMemory point⟩
    simp only [apply, specStep, answer]
  | accessCoin point =>
    have answer := (accessCoin_spec wf point).1
    refine ⟨(cache.accessCoin point).2.toView, ?_, means_of_fetch wf inMemory point⟩
    simp only [apply, specStep, answer]
  | addCoin point coin possibleOverwrite =>
    obtain ⟨res, added, wellFormed', sameBase, -, coinsEq⟩ := addCoin_spec wf coin.2 permitted
    refine ⟨res.toView, ?_, means_of_parts wellFormed' (by rw [sameBase]) inMemory
      (by rw [sameBase]) coinsEq⟩
    simp only [apply, added]
    rfl
  | spendCoin point =>
    obtain ⟨-, -, wellFormed', -, bottomEq, -, coinsEq⟩ := spendCoin_spec wf point
    refine ⟨(cache.spendCoin point).2.toView, rfl,
      means_of_parts wellFormed' bottomEq inMemory ?_ coinsEq⟩
    rw [base_spendCoin, maps_fetchCoin wf]
  | uncache point =>
    have same := uncache_spec wf point
    exact ⟨(cache.uncache point).toView, rfl,
      means_of_parts same.wellFormed same.bottomBase_eq inMemory rfl same.coins_eq⟩
  | flush depth =>
    obtain ⟨view, flushed, means⟩ := means_of_atDepth (fun _ => flush_writesDown) wf inMemory depth
    refine ⟨view, ?_, means⟩
    simp only [apply, flushed]
    rfl
  | sync depth =>
    obtain ⟨view, synced, means⟩ := means_of_atDepth (fun _ => sync_writesDown) wf inMemory depth
    refine ⟨view, ?_, means⟩
    simp only [apply, synced]
    rfl
  | push =>
    refine ⟨(new cache.toView).toView, rfl, ?_⟩
    refine ⟨⟨valid_new _, wf⟩, inMemory, ?_⟩
    have sameTop : (new cache.toView).toView.peekCoin = cache.coins :=
      (coins_eq _).trans (overlay_new _)
    exact congrArg (· :: cache.toView.maps) sameTop

theorem step_spec {op : CacheOp} {view : CoinsView} {below : List LogicalMap}
    (means : view.Means (top :: below)) (stacked : below ≠ []) (permitted : op.Permitted top) :
    ∃ next, op.step view = .ok ((op.specStep top below).1, next) ∧
      next.Means (op.specStep top below).2 := by
  cases view with
  | bottom base =>
    have noneBelow : [] = below := (List.cons.inj means.maps_eq).2
    exact absurd noneBelow.symm stacked
  | cache layer base =>
    obtain ⟨topEq, belowEq⟩ := List.cons.inj means.maps_eq
    rw [← topEq] at permitted
    obtain ⟨next, applied, nextMeans⟩ :=
      apply_spec (show CCoinsViewCache.WellFormed ⟨layer, base⟩ from means.wellFormed)
        means.inMemory permitted
    have nextTop : coins ⟨layer, base⟩ = top := topEq
    rw [nextTop, belowEq] at applied nextMeans
    refine ⟨next, ?_, nextMeans⟩
    simp only [step, applied, nextMeans.wellFormed.sanityCheck, if_true]

theorem copyDown_length {α : Type} (depth : Nat) (levels : List α) :
    (copyDown depth levels).length = levels.length := by
  induction levels generalizing depth with
  | nil => rw [copyDown_nil]
  | cons level below ih =>
    cases depth with
    | zero => cases below <;> rfl
    | succ depth => rw [copyDown, List.length_cons, ih, List.length_cons]

theorem specStep_length (op : CacheOp) (top : LogicalMap) (below : List LogicalMap) :
    below.length + 1 ≤ (op.specStep top below).2.length := by
  cases op <;> simp [specStep, copyDown_length]

theorem run_spec {ops : List CacheOp} {view : CoinsView}
    {maps : List LogicalMap} (means : view.Means maps) (stacked : 2 ≤ maps.length)
    (permitted : AllPermitted ops maps) :
    ∃ final, run ops view = .ok ((specRun ops maps).1, final) ∧
      final.Means (specRun ops maps).2 := by
  induction ops generalizing view maps with
  | nil => exact ⟨view, rfl, means⟩
  | cons op ops ih =>
    cases maps with
    | nil => simp at stacked
    | cons top below =>
      have ne : below ≠ [] := by
        intro empty
        simp [empty] at stacked
      obtain ⟨opPermitted, restPermitted⟩ := permitted
      obtain ⟨next, stepped, nextMeans⟩ := step_spec means ne opPermitted
      have nextStacked : 2 ≤ (op.specStep top below).2.length :=
        le_trans stacked (specStep_length op top below)
      obtain ⟨final, ran, finalMeans⟩ := ih nextMeans nextStacked restPermitted
      refine ⟨final, ?_, finalMeans⟩
      simp only [run, stepped, ran]
      rfl

end CacheOp

namespace CoinsBase

/-- A stack of new caches over a base. -/
def newStack (base : CoinsBase) : Nat → CoinsView
  | 0 => .bottom base
  | depth + 1 => (new (newStack base depth)).toView

theorem newStack_means {base : CoinsBase} (inMemory : base.kind = .memory) (depth : Nat) :
    (base.newStack depth).Means (List.replicate (depth + 1) base.coins.lookup) ∧
      (base.newStack depth).peekCoin = base.coins.lookup := by
  induction depth with
  | zero => exact ⟨⟨trivial, inMemory, rfl⟩, rfl⟩
  | succ depth ih =>
    obtain ⟨means, peekEq⟩ := ih
    have sameTop : (base.newStack (depth + 1)).peekCoin = base.coins.lookup :=
      (CoinsView.peekCoin_cache CacheLayer.new (base.newStack depth)).trans
        ((overlay_new _).trans peekEq)
    refine ⟨⟨⟨valid_new _, means.wellFormed⟩, means.inMemory, ?_⟩, sameTop⟩
    rw [List.replicate_succ, ← means.maps_eq, ← sameTop]
    rfl

end CoinsBase

/-- Any stack of caches over a map in memory refines a stack of plain maps: a
run of permitted operations throws nothing, passes the sanity check after every
operation, gives the answers of the plain maps, and keeps every level equal to
its plain map. -/
theorem CacheOp.run_refines_specRun (base : CoinsBase) (inMemory : base.kind = .memory)
    (depth : Nat) (ops : List CacheOp)
    (permitted : AllPermitted ops (List.replicate (depth + 2) base.coins.lookup)) :
    ∃ final, run ops (base.newStack (depth + 1)) =
        .ok ((specRun ops (List.replicate (depth + 2) base.coins.lookup)).1, final) ∧
      final.maps = (specRun ops (List.replicate (depth + 2) base.coins.lookup)).2 := by
  have means := (CoinsBase.newStack_means inMemory (depth + 1)).1
  obtain ⟨final, ran, finalMeans⟩ := run_spec means (by simp) permitted
  exact ⟨final, ran, finalMeans.maps_eq⟩

def CoinsBase.emptyMemory : CoinsBase :=
  ⟨.memory, ∅, by simp, 0, []⟩

/-- A coin is added, written down, overwritten, spent in a new top layer and
synced, over two caches. -/
theorem CacheOp.run_refines_specRun_overwrite_and_spend :
    let first : UnspentCoin := ⟨⟨⟨5, [0x51]⟩, false, 7⟩, by decide⟩
    let second : UnspentCoin := ⟨⟨⟨6, [0x51]⟩, true, 8⟩, by decide⟩
    let outpoint : COutPoint := ⟨1, 0⟩
    let ops := [CacheOp.addCoin outpoint first false, .getCoin outpoint, .flush 0, .flush 1,
      .addCoin outpoint second true, .accessCoin outpoint, .push, .spendCoin outpoint,
      .haveCoin outpoint, .sync 0, .uncache outpoint]
    let maps := List.replicate 3 CoinsBase.emptyMemory.coins.lookup
    AllPermitted ops maps ∧
      ∃ final, run ops (CoinsBase.emptyMemory.newStack 2) = .ok ((specRun ops maps).1, final) ∧
        final.maps = (specRun ops maps).2 := by
  intro first second outpoint ops maps
  have permitted : AllPermitted ops maps :=
    ⟨fun present => absurd rfl present, trivial, trivial, trivial, fun _ => rfl, trivial, trivial,
      trivial, trivial, trivial, trivial, trivial⟩
  exact ⟨permitted, run_refines_specRun CoinsBase.emptyMemory rfl 1 ops permitted⟩

namespace CCoinsViewCache

/-- What the result of `SpendCoin` is taken to report: true for an unspent
outpoint, whose coin is moved out and removed, and false without an effect. -/
structure ReportsSpend (cache : CCoinsViewCache) (outpoint : COutPoint) : Prop where
  returns_iff : (cache.spendCoin outpoint).1.isSome ↔ ∃ coin, cache.coins outpoint = some coin
  noEffect : (cache.spendCoin outpoint).1 = none →
    (cache.spendCoin outpoint).2.toView.maps = cache.toView.maps
  moved : ∀ coin, (cache.spendCoin outpoint).1 = some coin → cache.coins outpoint = some coin ∧
    (cache.spendCoin outpoint).2.toView.maps =
      Function.update cache.coins outpoint none :: cache.base.maps

variable {cache : CCoinsViewCache} {point : COutPoint}

theorem spendCoin_of_held {entry : CCoinsCacheEntry}
    (held : cache.layer.cacheCoins.lookup point = some entry) :
    (cache.spendCoin point).1 = some entry.coin ∧
      cache.coins point = if entry.coin.isSpent then none else some entry.coin := by
  simp only [spendCoin, fetchCoin, fetchFrom, coins, toView, CoinsView.peekCoin, held, and_self]

theorem spendCoin_of_unheld (wf : cache.WellFormed)
    (unheld : cache.layer.cacheCoins.lookup point = none) :
    (cache.spendCoin point).1 = cache.coins point := by
  have below := (CoinsView.getCoin_spec (wellFormed_iff.mp wf).2 point).1
  simp only [spendCoin, fetchCoin, fetchFrom, coins, toView, CoinsView.peekCoin, unheld, ← below]
  cases (cache.base.getCoin point).1 <;> rfl

/-- The result is right unless the cache itself holds a spent entry for the
outpoint, which it keeps until the next flush. -/
theorem reportsSpend_iff (wf : cache.WellFormed) : cache.ReportsSpend point ↔
      ∀ entry, cache.layer.cacheCoins.lookup point = some entry → entry.coin.isSpent = false := by
  constructor
  · intro reports entry held
    obtain ⟨ret, logical⟩ := spendCoin_of_held held
    rw [(reports.moved _ ret).1] at logical
    by_contra spent
    rw [Bool.not_eq_false] at spent
    rw [if_pos spent] at logical
    cases logical
  · intro unspent
    have answer : (cache.spendCoin point).1 = cache.coins point := by
      cases held : cache.layer.cacheCoins.lookup point with
      | none => exact spendCoin_of_unheld wf held
      | some entry =>
        obtain ⟨ret, logical⟩ := spendCoin_of_held held
        rw [ret, logical, unspent entry held, if_neg Bool.false_ne_true]
    have after : (cache.spendCoin point).2.toView.maps =
        Function.update cache.coins point none :: cache.base.maps := by
      obtain ⟨-, -, -, -, -, -, coinsEq⟩ := spendCoin_spec wf point
      change coins _ :: CoinsView.maps _ = _
      rw [coinsEq, base_spendCoin, maps_fetchCoin wf]
    refine ⟨by rw [answer, Option.isSome_iff_exists], ?_, ?_⟩
    · intro missing
      rw [after, ← answer.symm.trans missing, Function.update_eq_self]
      rfl
    · intro coin ret
      exact ⟨answer.symm.trans ret, after⟩

end CCoinsViewCache

/-- `SpendCoin` on any cache that a run leads to: the result reports whether an
unspent output was there exactly if the cache holds no spent entry for it. -/
theorem CacheOp.spendCoin_reports_iff (base : CoinsBase) (inMemory : base.kind = .memory)
    (depth : Nat) (ops : List CacheOp)
    (permitted : AllPermitted ops (List.replicate (depth + 2) base.coins.lookup))
    {answers : List CacheAnswer} {cache : CCoinsViewCache}
    (ran : run ops (base.newStack (depth + 1)) = .ok (answers, cache.toView))
    (outpoint : COutPoint) :
    cache.ReportsSpend outpoint ↔ ∀ entry, cache.layer.cacheCoins.lookup outpoint = some entry →
        entry.coin.isSpent = false := by
  have means := (CoinsBase.newStack_means inMemory (depth + 1)).1
  obtain ⟨final, ran', finalMeans⟩ := run_spec means (by simp) permitted
  rw [ran, Except.ok.injEq, Prod.mk.injEq] at ran'
  rw [← ran'.2] at finalMeans
  exact reportsSpend_iff finalMeans.wellFormed

/-- A coin is added, written down to the base and spent. -/
def CacheOp.spendWritten (outpoint : COutPoint) : List CacheOp :=
  [.addCoin outpoint ⟨⟨⟨5, [0x51]⟩, false, 7⟩, by decide⟩ false, .flush 0, .spendCoin outpoint]

/-- One more coin is added after that. -/
def CacheOp.spendWrittenAndAdd : List CacheOp :=
  spendWritten ⟨1, 0⟩ ++ [.addCoin ⟨2, 0⟩ ⟨⟨⟨5, [0x51]⟩, false, 8⟩, by decide⟩ false]

/-- The cache holds a spent entry for one outpoint and an unspent entry for another. -/
theorem CacheOp.spendCoin_reports_iff_spendWritten : ∃ cache : CCoinsViewCache,
      run spendWrittenAndAdd (CoinsBase.emptyMemory.newStack 1) =
          .ok ([.none, .none, .none, .none], cache.toView) ∧
        ¬ cache.ReportsSpend ⟨1, 0⟩ ∧ cache.ReportsSpend ⟨2, 0⟩ := by
  have permitted : AllPermitted spendWrittenAndAdd
      (List.replicate 2 CoinsBase.emptyMemory.coins.lookup) :=
    ⟨fun present => absurd rfl present, trivial, trivial, fun present => absurd rfl present,
      trivial⟩
  have reports := fun outpoint => spendCoin_reports_iff CoinsBase.emptyMemory rfl 0
    spendWrittenAndAdd permitted rfl outpoint
  refine ⟨_, rfl, fun spent => ?_, (reports _).mpr fun entry held => ?_⟩
  · cases (reports _).mp spent _ rfl
  · cases held
    rfl

/-- Spending the same outpoint again returns true, although it is spent. -/
theorem CacheOp.spendCoin_spendWritten_again : ∃ cache : CCoinsViewCache,
      run (spendWritten ⟨1, 0⟩) (CoinsBase.emptyMemory.newStack 1) =
          .ok ([.none, .none, .none], cache.toView) ∧
        cache.coins ⟨1, 0⟩ = none ∧ (cache.spendCoin ⟨1, 0⟩).1 = some Coin.empty ∧
        ¬ cache.ReportsSpend ⟨1, 0⟩ := by
  refine ⟨_, rfl, rfl, rfl, ?_⟩
  intro reports
  obtain ⟨coin, unspent⟩ := reports.returns_iff.mp rfl
  cases unspent

end Champy
