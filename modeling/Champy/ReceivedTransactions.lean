import Champy.BlockTree
import Mathlib.Data.List.Nodup
import Mathlib.Logic.Function.Basic

/-!
# Blocks whose transactions were received

`ReceivedBlockTransactions` counts the transactions of a chain as soon as every block back to
the genesis block has its data.  A block that arrives before its parent waits in a multimap, and
the arrival of the parent works through a queue of its descendants.  Whatever the order of
arrival, the counts and the waiting blocks are those of the set of blocks received.
-/

namespace Champy

open List BlockTree Function

namespace BlockTree

variable {Block : Type} (tree : BlockTree Block)

/-- A block and its ancestors, as many as asked for. -/
def lineageFrom : Nat → Option Block → List Block
  | 0, _ => []
  | _ + 1, none => []
  | count + 1, some block => block :: lineageFrom count (tree.pprev block)

def lineage (block : Block) : List Block :=
  tree.lineageFrom (tree.nHeight block + 1) (some block)

variable {tree} {block parent : Block}

theorem lineage_of_genesis (isGenesis : tree.pprev block = none) : tree.lineage block = [block] := by
  rw [lineage, tree.nHeight_of_genesis isGenesis, lineageFrom, lineageFrom]

theorem lineage_of_pprev (parentEq : tree.pprev block = some parent) :
    tree.lineage block = block :: tree.lineage parent := by
  rw [lineage, tree.nHeight_of_pprev parentEq, lineageFrom, parentEq, lineage]

/-- What passes from parents to children holds of every block. -/
theorem lineage_induction (tree : BlockTree Block) {holds : Block → Prop}
    (genesis : ∀ block, tree.pprev block = none → holds block)
    (child : ∀ block parent, tree.pprev block = some parent → holds parent → holds block)
    (block : Block) : holds block := by
  induction height : tree.nHeight block using Nat.strong_induction_on generalizing block with
  | h _ ih =>
    cases parentEq : tree.pprev block with
    | none => exact genesis block parentEq
    | some parent =>
      have above := tree.nHeight_of_pprev parentEq
      exact child block parent parentEq (ih _ (by omega) parent rfl)

/-- The transactions of a block and its ancestors. -/
def total (tree : BlockTree Block) (txs : Block → Nat) (block : Block) : Nat :=
  ((tree.lineage block).map txs).sum

variable {txs : Block → Nat}

theorem total_of_genesis (isGenesis : tree.pprev block = none) : tree.total txs block = txs block := by
  simp [total, lineage_of_genesis isGenesis]

theorem total_of_pprev (parentEq : tree.pprev block = some parent) :
    tree.total txs block = txs block + tree.total txs parent := by
  rw [total, lineage_of_pprev parentEq, map_cons, sum_cons, total]

/-- Totals are positive once the genesis block has a transaction, and fit their 64 bits. -/
theorem total_bounds (ne : ∀ block, tree.pprev block = none → txs block ≠ 0)
    (narrow : ∀ block, txs block < 2 ^ 32) (block : Block) :
    tree.total txs block ≠ 0 ∧ tree.total txs block < 2 ^ 64 := by
  have small : tree.total txs block ≠ 0 ∧
      tree.total txs block ≤ (tree.nHeight block + 1) * 2 ^ 32 := by
    induction block using tree.lineage_induction with
    | genesis block isGenesis =>
      rw [total_of_genesis isGenesis]
      exact ⟨ne block isGenesis, by have := narrow block; omega⟩
    | child block parent parentEq ih =>
      rw [total_of_pprev parentEq, tree.nHeight_of_pprev parentEq]
      have := narrow block
      omega
  have := tree.nHeight_lt block
  omega

end BlockTree

/-- The fields of the block index that `ReceivedBlockTransactions` reads back: those of the
entries, and the multimap `m_blocks_unlinked` from parents to blocks. -/
structure BlockIndexState (Block : Type) where
  nTx : Block → Nat
  chainTxCount : Block → Nat
  validity : Block → Nat
  failedValid : Block → Bool
  blocksUnlinked : List (Block × Block)

namespace BlockIndexState

def blockValidTree : Nat := 2

def blockValidTransactions : Nat := 3

variable {Block : Type} [DecidableEq Block] (tree : BlockTree Block) (state : BlockIndexState Block)
  (block : Block)

def prevTxSum : Nat :=
  (state.nTx block + ((tree.pprev block).map state.chainTxCount).getD 0) % 2 ^ 64

def isValid (upTo : Nat) : Bool :=
  !state.failedValid block && upTo ≤ state.validity block

def raiseValidity (upTo : Nat) : BlockIndexState Block :=
  if !state.failedValid block && state.validity block < upTo then
    { state with validity := update state.validity block upTo }
  else state

/-- One round of the loop: the count of the block is set, and its children leave the multimap. -/
def linkBlock : BlockIndexState Block :=
  { state with
    chainTxCount := update state.chainTxCount block (state.prevTxSum tree block)
    blocksUnlinked := state.blocksUnlinked.filter fun pair => pair.1 ≠ block }

def waitingOn : List Block :=
  (state.blocksUnlinked.filter fun pair => pair.1 = block).map Prod.snd

theorem length_waitingOn :
    (state.waitingOn block).length + (state.linkBlock tree block).blocksUnlinked.length =
      state.blocksUnlinked.length := by
  simp only [waitingOn, linkBlock, length_map, ne_eq, decide_not]
  exact (length_eq_length_filter_add fun pair : Block × Block => decide (pair.1 = block)).symm

/-- The loop over the queue.  A round takes one block out of the queue and the multimap. -/
def linkQueue (state : BlockIndexState Block) : List Block → BlockIndexState Block
  | [] => state
  | block :: queue => linkQueue (state.linkBlock tree block) (queue ++ state.waitingOn block)
termination_by queue => queue.length + state.blocksUnlinked.length
decreasing_by
  have := state.length_waitingOn tree block
  simp only [length_append, length_cons]
  omega

/-- `ReceivedBlockTransactions` for a block of the given number of transactions. -/
def receivedBlockTransactions (vtxSize : Nat) (block : Block) : BlockIndexState Block :=
  let state := { state with nTx := update state.nTx block (vtxSize % 2 ^ 32) }
  let state :=
    if state.chainTxCount block = 0 ∨ state.chainTxCount block = state.prevTxSum tree block then
      state
    else { state with chainTxCount := update state.chainTxCount block 0 }
  let state := state.raiseValidity block blockValidTransactions
  match tree.pprev block with
  | none => state.linkQueue tree [block]
  | some parent =>
    if state.chainTxCount parent ≠ 0 then state.linkQueue tree [block]
    else if state.isValid parent blockValidTree then
      { state with blocksUnlinked := state.blocksUnlinked ++ [(parent, block)] }
    else state

/-- The calls for blocks in the order of their arrival. -/
def receiveAll (vtxSize : Block → Nat) (order : List Block) (state : BlockIndexState Block) :
    BlockIndexState Block :=
  order.foldl (fun state block => state.receivedBlockTransactions tree (vtxSize block) block) state

/-- Nothing was received, and no block failed. -/
structure Fresh (state : BlockIndexState Block) : Prop where
  uncounted : ∀ block, state.chainTxCount block = 0
  linked : state.blocksUnlinked = []
  validTree : ∀ block, state.isValid block blockValidTree = true

theorem raiseValidity_fields (upTo : Nat) : (state.raiseValidity block upTo).nTx = state.nTx ∧
      (state.raiseValidity block upTo).chainTxCount = state.chainTxCount ∧
      (state.raiseValidity block upTo).blocksUnlinked = state.blocksUnlinked ∧
      ∀ other level, state.isValid other level = true →
        (state.raiseValidity block upTo).isValid other level = true := by
  unfold raiseValidity
  split
  · refine ⟨rfl, rfl, rfl, ?_⟩
    intro other level valid
    simp only [isValid, update_apply] at valid ⊢
    grind
  · exact ⟨rfl, rfl, rfl, fun _ _ valid => valid⟩

/-! ## The invariant of the loop -/

/-- The state while a queue is worked off.  A received block is counted, or in the queue, or its
parent is not counted. -/
structure Linking (txs : Block → Nat) (received queue : List Block)
    (state : BlockIndexState Block) : Prop where
  nTx_eq : ∀ block ∈ received, state.nTx block = txs block
  counted : ∀ block, state.chainTxCount block ≠ 0 → block ∈ received ∧
    state.chainTxCount block = tree.total txs block ∧
    ∀ parent, tree.pprev block = some parent → state.chainTxCount parent ≠ 0
  queued : ∀ block ∈ queue, block ∈ received ∧
    ∀ parent, tree.pprev block = some parent → state.chainTxCount parent ≠ 0
  complete : ∀ block ∈ received, state.chainTxCount block ≠ 0 ∨ block ∈ queue ∨
    ∃ parent, tree.pprev block = some parent ∧ state.chainTxCount parent = 0
  waiting : ∀ parent block, (parent, block) ∈ state.blocksUnlinked ↔
    block ∈ received ∧ tree.pprev block = some parent ∧ state.chainTxCount parent = 0
  waitingOnce : state.blocksUnlinked.Nodup
  validTree : ∀ block, state.isValid block blockValidTree = true

section Linking

variable {tree} {txs : Block → Nat} {received queue : List Block} {state : BlockIndexState Block}
  {block : Block}

/-- Once the queue is empty, a block is counted exactly when all its ancestors were received. -/
theorem Linking.chainTxCount_eq (linking : Linking tree txs received [] state) (block : Block) :
    state.chainTxCount block =
      if ∀ ancestor ∈ tree.lineage block, ancestor ∈ received then tree.total txs block else 0 := by
  have counted : state.chainTxCount block ≠ 0 ↔
      ∀ ancestor ∈ tree.lineage block, ancestor ∈ received := by
    induction block using tree.lineage_induction with
    | genesis block isGenesis =>
      rw [lineage_of_genesis isGenesis]
      grind [linking.counted block, linking.complete block]
    | child block parent parentEq ih =>
      rw [lineage_of_pprev parentEq, forall_mem_cons, ← ih]
      grind [linking.counted block, linking.complete block]
  split
  next received => exact (linking.counted block (counted.mpr received)).2.1
  next missing => exact Decidable.not_not.mp (mt counted.mp missing)

variable (bounds : ∀ block, tree.total txs block ≠ 0 ∧ tree.total txs block < 2 ^ 64)

include bounds

theorem Linking.round (linking : Linking tree txs received (block :: queue) state) :
    Linking tree txs received (queue ++ state.waitingOn block) (state.linkBlock tree block) := by
  obtain ⟨isReceived, parentCounted⟩ := linking.queued block mem_cons_self
  have sum : state.prevTxSum tree block = tree.total txs block := by
    rw [prevTxSum, linking.nTx_eq block isReceived]
    cases parentEq : tree.pprev block with
    | none =>
      have whole : tree.total txs block = txs block := total_of_genesis parentEq
      rw [Option.map_none, Option.getD_none, Nat.add_zero, ← whole]
      exact Nat.mod_eq_of_lt (bounds block).2
    | some parent =>
      have parentSum := (linking.counted parent (parentCounted parent parentEq)).2.1
      rw [Option.map_some, Option.getD_some, parentSum, ← total_of_pprev parentEq]
      exact Nat.mod_eq_of_lt (bounds block).2
  have count : ∀ other, (state.linkBlock tree block).chainTxCount other =
      if other = block then tree.total txs block else state.chainTxCount other := by
    intro other
    simp only [linkBlock, update_apply, sum]
  have zero : ∀ other, (state.linkBlock tree block).chainTxCount other = 0 ↔
      other ≠ block ∧ state.chainTxCount other = 0 := by
    intro other
    rw [count]
    have := (bounds block).1
    split <;> simp_all
  have child : ∀ other, other ∈ state.waitingOn block ↔
      other ∈ received ∧ tree.pprev other = some block ∧ state.chainTxCount block = 0 := by
    intro other
    rw [← linking.waiting]
    simp [waitingOn]
  refine ⟨linking.nTx_eq, ?_, ?_, ?_, ?_, linking.waitingOnce.filter _, linking.validTree⟩
  · grind [linking.counted]
  · grind [linking.queued]
  · grind [linking.complete]
  · intro parent other
    have := linking.waiting parent other
    rw [zero]
    simp only [linkBlock, mem_filter]
    grind

theorem Linking.linkQueue (linking : Linking tree txs received queue state) :
    Linking tree txs received [] (state.linkQueue tree queue) := by
  induction state, queue using BlockIndexState.linkQueue.induct tree with
  | case1 state =>
    rw [BlockIndexState.linkQueue]
    exact linking
  | case2 state block queue ih =>
    rw [BlockIndexState.linkQueue]
    exact ih (linking.round bounds)

/-! ## One call -/

theorem Linking.receive {vtxSize : Nat} (size : txs block = vtxSize % 2 ^ 32) (new : block ∉ received)
    (linking : Linking tree txs received [] state) :
    Linking tree txs (block :: received) [] (state.receivedBlockTransactions tree vtxSize block) := by
  have uncounted : state.chainTxCount block = 0 := by
    by_contra counted
    exact new (linking.counted block counted).1
  simp only [receivedBlockTransactions, uncounted, true_or, if_true]
  obtain ⟨nTx, count, unlinked, valid⟩ := raiseValidity_fields
    { state with nTx := update state.nTx block (vtxSize % 2 ^ 32) } block
    blockValidTransactions
  generalize raiseValidity _ block blockValidTransactions = opened at nTx count unlinked valid ⊢
  dsimp only at nTx count unlinked
  have nTx_eq : ∀ other ∈ block :: received, opened.nTx other = txs other := by
    intro other mem
    rw [nTx, update_apply]
    grind [linking.nTx_eq]
  have validTree := fun other => valid other _ (linking.validTree other)
  -- A block whose parent is counted, or that has none, starts the queue.
  have start : (∀ parent, tree.pprev block = some parent → opened.chainTxCount parent ≠ 0) →
      Linking tree txs (block :: received) [block] opened := by
    intro parentCounted
    refine ⟨nTx_eq, ?_, by simpa using parentCounted, ?_, ?_, unlinked ▸ linking.waitingOnce,
      validTree⟩
    · grind [linking.counted]
    · intro other mem
      have old := linking.complete other
      grind
    · intro parent other
      have old := linking.waiting parent other
      rw [unlinked, old, mem_cons]
      grind
  split
  next isGenesis => exact (start (by simp [isGenesis])).linkQueue bounds
  next parent parentEq =>
    split
    next counted => exact (start (by simpa [parentEq] using counted)).linkQueue bounds
    next uncounted' =>
      rw [if_pos (validTree parent)]
      refine ⟨nTx_eq, ?_, by simp, ?_, ?_, ?_, validTree⟩
      · grind [linking.counted]
      · intro other mem
        have old := linking.complete other
        grind
      · intro other child
        have old := linking.waiting other child
        rw [mem_append, mem_singleton, unlinked, old, mem_cons]
        grind
      · grind [linking.waiting, linking.waitingOnce]

/-! ## All calls -/

theorem Linking.receiveAll {vtxSize : Block → Nat} (size : ∀ block, txs block = vtxSize block % 2 ^ 32)
    {order : List Block} (once : order.Nodup) (new : ∀ block ∈ order, block ∉ received)
    (linking : Linking tree txs received [] state) :
    Linking tree txs (order.reverse ++ received) [] (state.receiveAll tree vtxSize order) := by
  induction order generalizing received state with
  | nil => exact linking
  | cons block order ih =>
    have next := linking.receive bounds (size block) (new block mem_cons_self)
    rw [reverse_cons, append_assoc]
    refine ih once.of_cons ?_ next
    grind [nodup_cons]

end Linking

/-- Whatever the order of arrival, the counts and the waiting blocks are those of the set of
blocks received. -/
theorem receiveAll_closedForm {state : BlockIndexState Block} (fresh : state.Fresh)
    {vtxSize : Block → Nat} (nonempty : ∀ block, tree.pprev block = none → vtxSize block % 2 ^ 32 ≠ 0)
    {order : List Block} (once : order.Nodup) :
    (∀ block, (state.receiveAll tree vtxSize order).chainTxCount block =
      if ∀ ancestor ∈ tree.lineage block, ancestor ∈ order then
        tree.total (state.receiveAll tree vtxSize order).nTx block
      else 0) ∧
    (∀ block ∈ order, (state.receiveAll tree vtxSize order).nTx block = vtxSize block % 2 ^ 32) ∧
    (∀ parent block, (parent, block) ∈ (state.receiveAll tree vtxSize order).blocksUnlinked ↔
      block ∈ order ∧ tree.pprev block = some parent ∧
        (state.receiveAll tree vtxSize order).chainTxCount parent = 0) ∧
    (state.receiveAll tree vtxSize order).blocksUnlinked.Nodup := by
  have bounds := tree.total_bounds nonempty fun block => Nat.mod_lt _ (by decide)
  have start : Linking tree (fun block => vtxSize block % 2 ^ 32) [] [] state :=
    ⟨by simp, by simp [fresh.uncounted], by simp, by simp, by simp [fresh.linked],
      by simp [fresh.linked], fresh.validTree⟩
  have linking := start.receiveAll bounds (fun _ => rfl) once (by simp)
  rw [append_nil] at linking
  refine ⟨fun block => ?_, ?_, ?_, linking.waitingOnce⟩
  · have closed := linking.chainTxCount_eq block
    simp only [mem_reverse] at closed
    rw [closed]
    split
    next received =>
      rw [total, total]
      congr 1
      refine (map_congr_left fun ancestor mem => ?_).symm
      exact linking.nTx_eq ancestor (mem_reverse.mpr (received ancestor mem))
    next => rfl
  · exact fun block mem => linking.nTx_eq block (mem_reverse.mpr mem)
  · intro parent block
    rw [linking.waiting, mem_reverse]

/-- Two blocks, one the parent of the other. -/
def sampleTree : BlockTree Bool where
  pprev block := if block then some false else none
  nHeight := Bool.toNat
  nTime _ := 0
  nHeight_of_genesis := by decide
  nHeight_of_pprev := by decide
  nHeight_lt := by decide

def sampleState : BlockIndexState Bool :=
  ⟨fun _ => 0, fun _ => 0, fun _ => blockValidTree, fun _ => false, []⟩

/-- A child that arrives before its parent is counted once the parent is there. -/
theorem receiveAll_closedForm_lateParent :
    (sampleState.receiveAll sampleTree (fun _ => 1) [true, false]).chainTxCount true = 2 := by
  obtain ⟨count, size, -⟩ := @receiveAll_closedForm Bool _ sampleTree sampleState
    ⟨fun _ => rfl, rfl, fun _ => rfl⟩ (fun _ => 1) (by decide) [true, false] (by decide)
  rw [count, if_pos (by decide), total_of_pprev rfl, total_of_genesis rfl,
    size _ (by decide), size _ (by decide)]
  rfl

/-- After a genesis block without transactions no block is ever counted. -/
theorem emptyGenesis_uncounted :
    (sampleState.receiveAll sampleTree Bool.toNat [false, true]).chainTxCount true = 0 ∧
      (∀ ancestor ∈ sampleTree.lineage true, ancestor ∈ [false, true]) ∧
      sampleTree.total (sampleState.receiveAll sampleTree Bool.toNat [false, true]).nTx true = 1 := by
  simp [receiveAll, receivedBlockTransactions, linkQueue, sampleTree, sampleState, raiseValidity,
    linkBlock, prevTxSum, waitingOn, isValid, blockValidTree, blockValidTransactions,
    total, lineage, lineageFrom]

end BlockIndexState

end Champy
