import Champy.FiniteMaps
import Champy.Primitives
import Champy.SkipPointers
import Champy.StoppingWalk

/-!
# Median times for sequence locks

`CoinsViewSequenceLockTimeView` answers for a coin with the median time past of the block before
the one that created it.  The answers are kept by the height of that block, and what is kept is the
median time past of the ancestor at its height, whatever was asked before.
-/

namespace Champy

structure CoinsViewSequenceLockTimeView (Block : Type) where
  previousMedianTimePast : Int
  previousMedianTimePastByOutpoint : FinMap COutPoint Int := ∅
  previousMedianTimePastByCoinHeight : FinMap Int Int := ∅
  blockIndex : Option Block

namespace BlockTree

variable {Block : Type} (tree : BlockTree Block) (pskip : Block → Option Block)

/-- The walk along parents from a block without a skip pointer. -/
def walkDown (height : Int) (start : Option Block) : Option Block :=
  match start with
  | none => none
  | some block =>
    if tree.nHeight block > height then walkDown height (tree.pprev block) else some block
  termination_by start.elim 0 (tree.nHeight · + 1)
  decreasing_by exact tree.pprev_elim_lt block

def previousMedianTimePastForCoin (block : Block) (coinHeight : Int) :
    Except Fault (Option Int) := do
  let ancestorHeight := max (coinHeight - 1) 0
  let ancestor ← if (pskip block).isSome then tree.skipAncestor pskip block ancestorHeight
    else .ok (tree.walkDown ancestorHeight (some block))
  pure ((ancestor.filter fun ancestor => tree.nHeight ancestor = ancestorHeight).map
    tree.getMedianTimePast)

/-- `PreviousMedianTimePastForCoin` with a cache. -/
def cachedMedianTimePastForCoin (block : Block) (coinHeight : Int) (cache : FinMap Int Int) :
    Except Fault (Option Int × FinMap Int Int) :=
  let ancestorHeight := max (coinHeight - 1) 0
  match cache.lookup ancestorHeight with
  | some cached => .ok (some cached, cache)
  | none => do
      match ← tree.previousMedianTimePastForCoin pskip block coinHeight with
      | none => pure (none, cache)
      | some time => pure (some time, cache.emplace ancestorHeight time)

def previousMedianTimePast (view : CoinsViewSequenceLockTimeView Block)
    (query : COutPoint × Int) : Except Fault (Int × CoinsViewSequenceLockTimeView Block) :=
  match view.previousMedianTimePastByOutpoint.lookup query.1, view.blockIndex with
  | some configured, _ => .ok (configured, view)
  | none, none => .ok (view.previousMedianTimePast, view)
  | none, some block => do
      let (time, cache) ← tree.cachedMedianTimePastForCoin pskip block query.2
        view.previousMedianTimePastByCoinHeight
      pure (time.getD view.previousMedianTimePast,
        { view with previousMedianTimePastByCoinHeight := cache })

/-- The constructor that takes a block index. -/
def sequenceLockTimeView (block : Block) : CoinsViewSequenceLockTimeView Block where
  previousMedianTimePast := (tree.pprev block).elim 0 tree.getMedianTimePast
  blockIndex := some block

/-- The median time past at a height of the chain that ends with a block. -/
def medianTimeAt (block : Block) (height : Int) : Option Int :=
  (tree.getAncestor block height).map tree.getMedianTimePast

/-- What a view for a block remembers is right. -/
structure Remembers (block : Block) (view : CoinsViewSequenceLockTimeView Block) : Prop where
  blockIndex_eq : view.blockIndex = some block
  byOutpoint_eq : view.previousMedianTimePastByOutpoint = ∅
  kept : ∀ {height time}, view.previousMedianTimePastByCoinHeight.lookup height = some time →
    tree.medianTimeAt block height = some time

variable {tree pskip} {block : Block} {view : CoinsViewSequenceLockTimeView Block}

theorem walkDown_eq {height : Nat} (within : height ≤ tree.nHeight block) :
    tree.walkDown height (some block) = tree.getAncestor block height := by
  induction measured : tree.nHeight block generalizing block with
  | zero =>
    have level : height = tree.nHeight block := by omega
    rw [walkDown, if_neg (by omega), level, getAncestor_self]
  | succ parentHeight ih =>
    rw [walkDown]
    split
    next above =>
      obtain ⟨parent, parentEq⟩ := exists_pprev (show 0 < tree.nHeight block by omega)
      have one := tree.nHeight_of_pprev parentEq
      rw [parentEq, ih (by omega) (by omega), getAncestor_parent parentEq above]
    next reached =>
      have level : height = tree.nHeight block := by omega
      rw [level, getAncestor_self]

section Queries

variable (valid : tree.ValidSkips pskip) {query : COutPoint × Int}
  (within : 0 ≤ query.2 ∧ query.2 ≤ tree.nHeight block)

include valid within

theorem previousMedianTimePastForCoin_eq :
    ∃ time, tree.previousMedianTimePastForCoin pskip block query.2 = .ok (some time) ∧
      tree.medianTimeAt block (max (query.2 - 1) 0) = some time := by
  obtain ⟨height, heightEq⟩ := Int.eq_ofNat_of_zero_le (le_max_right (query.2 - 1) 0)
  have below : height ≤ tree.nHeight block := by omega
  obtain ⟨ancestor, found, ancestorHeight⟩ := exists_getAncestor below
  refine ⟨tree.getMedianTimePast ancestor, ?_, by rw [heightEq, medianTimeAt, found]; rfl⟩
  rw [previousMedianTimePastForCoin]
  simp only [heightEq, skipAncestor_eq valid, walkDown_eq below, found, ite_self]
  simp [bind, Except.bind, pure, Except.pure, ancestorHeight]

theorem Remembers.answers (remembers : tree.Remembers block view) :
    ∃ time next, tree.previousMedianTimePast pskip view query = .ok (time, next) ∧
      tree.medianTimeAt block (max (query.2 - 1) 0) = some time ∧ tree.Remembers block next := by
  obtain ⟨fallback, byOutpoint, cache, index⟩ := view
  obtain ⟨rfl, rfl, kept⟩ := remembers
  simp only [previousMedianTimePast, Finmap.lookup_empty, cachedMedianTimePastForCoin]
  cases cached : cache.lookup (max (query.2 - 1) 0) with
  | some time => exact ⟨time, _, rfl, kept cached, rfl, rfl, kept⟩
  | none =>
    obtain ⟨time, computed, timeEq⟩ := previousMedianTimePastForCoin_eq valid within
    rw [computed]
    refine ⟨time, _, rfl, timeEq, rfl, rfl, ?_⟩
    intro height other found
    rw [FinMap.lookup_emplace, Option.or_eq_some_iff] at found
    rcases found with before | ⟨-, now⟩
    · exact kept before
    · split at now
      next same =>
        cases now
        rw [same, timeEq]
      · cases now

omit within

/-- Every query is answered with the median time past of the ancestor, at the height before that of
the coin, whatever earlier queries left in the cache. -/
theorem previousMedianTimePast_queries (block : Block) (queries : List (COutPoint × Int))
    (within : ∀ query ∈ queries, 0 ≤ query.2 ∧ query.2 ≤ tree.nHeight block) :
    ∃ times view, walkEach (tree.previousMedianTimePast pskip) (tree.sequenceLockTimeView block)
        queries = .ok (times, view) ∧
      queries.map (fun query => (tree.getAncestor block (max (query.2 - 1) 0)).map
        tree.getMedianTimePast) = times.map some := by
  have run : ∀ view, tree.Remembers block view → ∃ times final,
      walkEach (tree.previousMedianTimePast pskip) view queries = .ok (times, final) ∧
        queries.map (fun query => tree.medianTimeAt block (max (query.2 - 1) 0)) =
          times.map some := by
    induction queries with
    | nil => exact fun view _ => ⟨[], view, rfl, rfl⟩
    | cons query queries ih =>
      intro view remembers
      rw [List.forall_mem_cons] at within
      obtain ⟨time, next, answered, timeEq, kept⟩ := remembers.answers valid within.1
      obtain ⟨times, final, later, timesEq⟩ := ih within.2 next kept
      refine ⟨time :: times, final, walkEach_cons_eq_ok.mpr ⟨_, _, _, answered, later, rfl⟩, ?_⟩
      rw [List.map_cons, List.map_cons, timeEq, timesEq]
  exact run _ ⟨rfl, rfl, by simp [sequenceLockTimeView]⟩

end Queries

/-- The coin at height 1 is found over the pointer of the block at height 4, and then
remembered. -/
theorem previousMedianTimePast_queries_twoBranches :
    ∃ times view, walkEach (twoBranches.previousMedianTimePast fun block =>
          if block = 4 then some 0 else none) (twoBranches.sequenceLockTimeView 4)
        [(⟨0, 0⟩, 1), (⟨0, 0⟩, 1), (⟨1, 0⟩, 4)] = .ok (times, view) ∧
      [twoBranches.medianTimeAt 4 0, twoBranches.medianTimeAt 4 0, twoBranches.medianTimeAt 4 3] =
        times.map some := by
  have valid : ∀ block skip : Fin 7, (if block = 4 then some (0 : Fin 7) else none) = some skip →
      ∃ parent, twoBranches.pprev block = some parent ∧
        twoBranches.getAncestor parent (getSkipHeight (twoBranches.nHeight block) : Nat) =
          some skip := by
    decide +kernel
  exact previousMedianTimePast_queries (valid _ _) 4 [(⟨0, 0⟩, 1), (⟨0, 0⟩, 1), (⟨1, 0⟩, 4)]
    (by decide)

end BlockTree

end Champy
