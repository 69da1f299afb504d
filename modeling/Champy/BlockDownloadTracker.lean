import Champy.FiniteMaps
import Champy.Primitives

/-!
# Blocks in flight

`BlockDownloadTracker` keeps a queue of blocks for every peer, the peers of every block, and how
many peers have a queue that is not empty.  Each call changes the three by separate steps.  They
agree after every sequence of calls, so the loop that removes a request finds it in the queue.
-/

namespace Champy

open List Function

structure BlockInFlightIndex where
  mByBlock : FinMap Uint256 (List Int64) := ∅
  mSize : Nat := 0

namespace BlockInFlightIndex

section Operations

variable (index : BlockInFlightIndex) (hash : Uint256) (peer : Int64)

def peers : List Int64 :=
  (index.mByBlock.lookup hash).getD []

def contains : Bool :=
  match index.mByBlock.lookup hash with
  | none => false
  | some peers => peers.contains peer

def add : BlockInFlightIndex :=
  let peers := index.peers hash
  if peers.contains peer then index
  else ⟨index.mByBlock.insert hash (peers ++ [peer]), index.mSize + 1⟩

def erase : Bool × BlockInFlightIndex :=
  match index.mByBlock.lookup hash with
  | none => (false, index)
  | some peers =>
    if peers.contains peer then
      let peers := peers.erase peer
      (true, ⟨if peers.isEmpty then index.mByBlock.erase hash
        else index.mByBlock.insert hash peers, index.mSize - 1⟩)
    else (false, index)

end Operations

/-- The index has the peers of every block once, and they are those with the block in a queue. -/
structure Matches (index : BlockInFlightIndex) (queues : Int64 → List Uint256) : Prop where
  nodup : ∀ hash, (index.peers hash).Nodup
  contains_iff : ∀ hash peer, index.contains hash peer = true ↔ hash ∈ queues peer

variable {index next : BlockInFlightIndex} {queues : Int64 → List Uint256} {hash : Uint256}
  {peer : Int64} {hashes : List Uint256}

theorem contains_eq_true : index.contains hash peer = true ↔ peer ∈ index.peers hash := by
  rw [contains, peers]
  cases index.mByBlock.lookup hash <;> simp

theorem add_spec (absent : index.contains hash peer ≠ true) :
    (index.add hash peer).peers = Function.update index.peers hash (index.peers hash ++ [peer]) ∧
      (index.add hash peer).mSize = index.mSize + 1 := by
  rw [ne_eq, contains_eq_true, ← contains_iff_mem] at absent
  rw [add, if_neg absent]
  refine ⟨?_, rfl⟩
  funext other
  rcases eq_or_ne other hash with rfl | ne <;> simp [peers, *]

theorem erase_spec (found : index.contains hash peer = true) : (index.erase hash peer).2.peers =
        Function.update index.peers hash ((index.peers hash).erase peer) ∧
      (index.erase hash peer).2.mSize = index.mSize - 1 := by
  rw [contains] at found
  rw [erase]
  cases held : index.mByBlock.lookup hash with
  | none => simp [held] at found
  | some peers =>
    simp only [held] at found
    simp only [if_pos found, and_true]
    funext other
    rcases eq_or_ne other hash with rfl | ne <;>
      cases left : peers.erase peer <;> simp [BlockInFlightIndex.peers, *]

section Matched

variable (matched : index.Matches queues)

include matched

/-- The step of one pair: the peers of one block and the queue of one peer change. -/
theorem Matches.update {peers : List Int64}
    (peersEq : next.peers = Function.update index.peers hash peers) (nodup : peers.Nodup)
    (pair : peer ∈ peers ↔ hash ∈ hashes)
    (otherPeers : ∀ other ≠ peer, other ∈ peers ↔ other ∈ index.peers hash)
    (otherHashes : ∀ other ≠ hash, other ∈ hashes ↔ other ∈ queues peer) :
    next.Matches (Function.update queues peer hashes) := by
  constructor
  · intro other
    rw [peersEq, update_apply]
    split
    · exact nodup
    · exact matched.nodup other
  · intro block asked
    have before := matched.contains_iff block asked
    rw [contains_eq_true] at before ⊢
    rw [peersEq, update_apply, update_apply]
    grind

theorem Matches.add (absent : hash ∉ queues peer) :
    (index.add hash peer).Matches (Function.update queues peer (queues peer ++ [hash])) := by
  rw [← matched.contains_iff] at absent
  have peersEq := (add_spec absent).1
  rw [contains_eq_true] at absent
  apply matched.update peersEq
  · rw [← concat_eq_append]
    exact (matched.nodup hash).concat absent
  · simp
  · simp +contextual
  · simp +contextual

theorem Matches.erase (nodup : (queues peer).Nodup) (found : hash ∈ queues peer) :
    (index.erase hash peer).2.Matches (Function.update queues peer ((queues peer).erase hash)) := by
  have once := matched.nodup hash
  apply matched.update (erase_spec ((matched.contains_iff hash peer).mpr found)).1 (once.erase peer)
  · simp [once.mem_erase_iff, nodup.mem_erase_iff]
  · simp +contextual [once.mem_erase_iff]
  · simp +contextual [nodup.mem_erase_iff]

theorem Matches.eraseAll (nodup : hashes.Nodup) (queue : queues peer = hashes) :
    (hashes.foldl (fun index hash => (index.erase hash peer).2) index).Matches
        (Function.update queues peer []) ∧
      (hashes.foldl (fun index hash => (index.erase hash peer).2) index).mSize =
        index.mSize - hashes.length := by
  induction hashes generalizing index queues with
  | nil => exact ⟨by rwa [← queue, update_eq_self, queue], rfl⟩
  | cons hash hashes ih =>
    have found : hash ∈ queues peer := by
      rw [queue]
      exact mem_cons_self
    have erased := matched.erase (by rwa [queue]) found
    have size := (erase_spec ((matched.contains_iff hash peer).mpr found)).2
    rw [queue, erase_cons_head] at erased
    obtain ⟨later, laterSize⟩ := ih erased nodup.of_cons (update_self ..)
    rw [Function.update_idem] at later
    refine ⟨later, ?_⟩
    rw [foldl_cons, laterSize, size, length_cons]
    omega

end Matched

end BlockInFlightIndex

structure BlockCandidateRef where
  hash : Uint256
  parentHash : Uint256
  height : Int32
  chainWork : Uint256

/-- A compact block is rebuilt from the pool of transactions that it is given. -/
structure QueuedBlock (Pool : Type) where
  block : BlockCandidateRef
  partialBlock : Option Pool

/-- Times in microseconds. -/
structure PeerBlockDownloadState (Pool : Type) where
  stallingSince : Int64 := 0
  blocksInFlight : List (QueuedBlock Pool) := []
  downloadingSince : Int64 := 0

/-- The counter is an `int`.  It never passes the number of peers that have a state. -/
structure BlockDownloadTracker (Pool : Type) where
  mPeerDownload : FinMap Int64 (PeerBlockDownloadState Pool) := ∅
  mBlocksInFlight : BlockInFlightIndex := {}
  mPeersDownloadingFrom : Int := 0

structure RequestResult (Pool : Type) where
  added : Bool
  queuedBlock : Option (QueuedBlock Pool)

variable {Pool : Type}

namespace PeerBlockDownloadState

variable (state : PeerBlockDownloadState Pool) (hash : Uint256)

/-- An iterator is a position. -/
def findQueuedBlock : Option Nat :=
  state.blocksInFlight.findIdx? fun entry => entry.block.hash == hash

def findQueuedBlockPtr : Option (QueuedBlock Pool) :=
  (state.findQueuedBlock hash).bind fun position => state.blocksInFlight[position]?

def hashes : List Uint256 :=
  state.blocksInFlight.map fun entry => entry.block.hash

end PeerBlockDownloadState

namespace BlockDownloadTracker

section Operations

variable (tracker : BlockDownloadTracker Pool) (hash : Uint256) (fromPeer : Option Int64)
  (now peer : Int64)

def findState : Option (PeerBlockDownloadState Pool) :=
  tracker.mPeerDownload.lookup peer

/-- `StateFor` makes a state for a new peer. -/
def stateFor : BlockDownloadTracker Pool :=
  { tracker with mPeerDownload := tracker.mPeerDownload.emplace peer {} }

/-- A round of the loop of `RemoveBlockRequest`. -/
def removeFrom : BlockDownloadTracker Pool :=
  if fromPeer.any (· ≠ peer) then tracker
  else
    let mBlocksInFlight := (tracker.mBlocksInFlight.erase hash peer).2
    match tracker.findState peer with
    | none => { tracker with mBlocksInFlight }
    | some state =>
      match state.findQueuedBlock hash with
      | none => { tracker with mBlocksInFlight }
      | some position =>
        let downloadingSince := if position = 0 then max state.downloadingSince now
          else state.downloadingSince
        let blocksInFlight := state.blocksInFlight.eraseIdx position
        ⟨tracker.mPeerDownload.insert peer ⟨0, blocksInFlight, downloadingSince⟩, mBlocksInFlight,
          if blocksInFlight.isEmpty then tracker.mPeersDownloadingFrom - 1
          else tracker.mPeersDownloadingFrom⟩

def removeFromEach (peers : List Int64) : BlockDownloadTracker Pool :=
  peers.foldl (fun tracker peer => tracker.removeFrom hash fromPeer now peer) tracker

def removeBlockRequest : BlockDownloadTracker Pool :=
  tracker.removeFromEach hash fromPeer now (tracker.mBlocksInFlight.peers hash)

/-- The end of `RequestBlock`. -/
def enqueue (queued : QueuedBlock Pool) : BlockDownloadTracker Pool :=
  let state := (tracker.findState peer).getD {}
  let blocksInFlight := state.blocksInFlight ++ [queued]
  let first := blocksInFlight.length = 1
  let downloadingSince := if first then now else state.downloadingSince
  ⟨tracker.mPeerDownload.insert peer ⟨state.stallingSince, blocksInFlight, downloadingSince⟩,
    tracker.mBlocksInFlight.add queued.block.hash peer,
    if first then tracker.mPeersDownloadingFrom + 1 else tracker.mPeersDownloadingFrom⟩

def requestBlock (block : BlockCandidateRef) (useCompactBlock : Bool) (mempool : Option Pool) :
    Exec Empty (RequestResult Pool × BlockDownloadTracker Pool) :=
  let tracker := tracker.stateFor peer
  if tracker.mBlocksInFlight.contains block.hash peer then
    let found := (tracker.findState peer).bind fun state => state.findQueuedBlockPtr block.hash
    .ok (⟨false, found⟩, tracker)
  else do
    let tracker := tracker.removeBlockRequest block.hash (some peer) now
    Exec.assertThat (!useCompactBlock || mempool.isSome)
    let queued := ⟨block, if useCompactBlock then mempool else none⟩
    pure (⟨true, some queued⟩, tracker.enqueue now peer queued)

def forgetPeer : BlockDownloadTracker Pool :=
  match tracker.mPeerDownload.lookup peer with
  | none => tracker
  | some state =>
    ⟨tracker.mPeerDownload.erase peer,
      state.blocksInFlight.foldl (fun index entry => (index.erase entry.block.hash peer).2)
        tracker.mBlocksInFlight,
      if state.blocksInFlight.isEmpty then tracker.mPeersDownloadingFrom
      else tracker.mPeersDownloadingFrom - 1⟩

/-- The hashes in the queue of a peer. -/
def queue : List Uint256 :=
  (tracker.mPeerDownload.lookup peer).elim [] PeerBlockDownloadState.hashes

/-- `RemoveBlockRequest` would not find the request in the queue of the peer. -/
def FallsBack : Prop :=
  fromPeer.any (· ≠ peer) = false ∧
    (tracker.findState peer).all (fun state => (state.findQueuedBlock hash).isNone) = true

def sumOverQueues (measure : List Uint256 → Nat) : Nat :=
  FinMap.total (fun state => measure state.hashes) tracker.mPeerDownload

end Operations

inductive Call (Pool : Type)
  | requestBlock (peer : Int64) (block : BlockCandidateRef) (useCompactBlock : Bool)
      (mempool : Option Pool) (now : Int64)
  | removeBlockRequest (hash : Uint256) (fromPeer : Option Int64) (now : Int64)
  | forgetPeer (peer : Int64)

/-- A compact block is asked for with a pool of transactions. -/
def Call.Legal : Call Pool → Prop
  | requestBlock _ _ useCompactBlock mempool _ => (!useCompactBlock || mempool.isSome) = true
  | _ => True

def call (tracker : BlockDownloadTracker Pool) : Call Pool → Exec Empty (BlockDownloadTracker Pool)
  | .requestBlock peer block useCompactBlock mempool now => do
    let (_, tracker) ← tracker.requestBlock now peer block useCompactBlock mempool
    pure tracker
  | .removeBlockRequest hash fromPeer now => .ok (tracker.removeBlockRequest hash fromPeer now)
  | .forgetPeer peer => .ok (tracker.forgetPeer peer)

/-- One for a queue that is not empty. -/
def downloading (hashes : List Uint256) : Nat :=
  if hashes.isEmpty then 0 else 1

/-- The three structures agree. -/
structure Consistent (tracker : BlockDownloadTracker Pool) : Prop
    extends tracker.mBlocksInFlight.Matches tracker.queue where
  queueNodup : ∀ peer, (tracker.queue peer).Nodup
  downloadingFrom : tracker.mPeersDownloadingFrom = tracker.sumOverQueues downloading
  inFlight : tracker.mBlocksInFlight.mSize = tracker.sumOverQueues length

/-- The queue of one peer changes. -/
structure Changes (tracker next : BlockDownloadTracker Pool) (peer : Int64)
    (hashes : List Uint256) : Prop where
  queues : next.queue = Function.update tracker.queue peer hashes
  sum : ∀ measure, measure [] = 0 → measure (tracker.queue peer) + next.sumOverQueues measure =
    measure hashes + tracker.sumOverQueues measure

variable {tracker next : BlockDownloadTracker Pool} {peer : Int64} {hash : Uint256}
  {hashes : List Uint256} {state : PeerBlockDownloadState Pool} {index : BlockInFlightIndex}
  {count : Int}

theorem changes_insert (hashesEq : state.hashes = hashes) :
    tracker.Changes ⟨tracker.mPeerDownload.insert peer state, index, count⟩ peer hashes := by
  subst hashesEq
  constructor
  · funext other
    rcases eq_or_ne other peer with rfl | ne <;> simp [queue, *]
  · intro measure zero
    rw [queue]
    cases held : tracker.mPeerDownload.lookup peer with
    | none =>
      rw [Option.elim_none, zero, Nat.zero_add]
      exact FinMap.total_insert_of_notMem (fun state => measure state.hashes) held
    | some old => exact FinMap.total_insert_add (fun state => measure state.hashes) held

theorem changes_erase (found : tracker.mPeerDownload.lookup peer = some state) :
    tracker.Changes ⟨tracker.mPeerDownload.erase peer, index, count⟩ peer [] := by
  constructor
  · funext other
    rcases eq_or_ne other peer with rfl | ne <;> simp [queue, *]
  · intro measure zero
    rw [zero, Nat.zero_add, queue, found]
    exact FinMap.total_erase_add (fun state => measure state.hashes) found

theorem exists_queuedBlock (queued : hash ∈ tracker.queue peer) :
    ∃ state position, tracker.findState peer = some state ∧
      state.findQueuedBlock hash = some position ∧
      (state.blocksInFlight.eraseIdx position).map (fun entry => entry.block.hash) =
        (tracker.queue peer).erase hash := by
  rw [queue] at queued ⊢
  rw [findState]
  cases held : tracker.mPeerDownload.lookup peer with
  | none => simp [held] at queued
  | some state =>
    have erased : (state.blocksInFlight.eraseP fun entry => entry.block.hash == hash).map
        (fun entry => entry.block.hash) = state.hashes.erase hash := by
      rw [PeerBlockDownloadState.hashes, erase_eq_eraseP, eraseP_map]
      simp [comp_def, BEq.comm]
    rw [eraseP_eq_eraseIdx, ← PeerBlockDownloadState.findQueuedBlock] at erased
    cases found : state.findQueuedBlock hash with
    | some position => exact ⟨state, position, rfl, found, by simpa [found] using erased⟩
    | none =>
      rw [held] at queued
      obtain ⟨entry, mem, same⟩ := mem_map.mp queued
      exact absurd same (beq_eq_false_iff_ne.mp (findIdx?_eq_none_iff.mp found entry mem))

section Steps

variable (consistent : tracker.Consistent)

include consistent

/-- The step of one peer: its queue changes, and the index and the counters with it. -/
theorem Consistent.change (change : tracker.Changes next peer hashes) (nodup : hashes.Nodup)
    (matched : next.mBlocksInFlight.Matches (Function.update tracker.queue peer hashes))
    (size : next.mBlocksInFlight.mSize = tracker.mBlocksInFlight.mSize + hashes.length -
      (tracker.queue peer).length)
    (counted : next.mPeersDownloadingFrom = tracker.mPeersDownloadingFrom + downloading hashes -
      downloading (tracker.queue peer)) :
    next.Consistent := by
  have lengths := change.sum length rfl
  have peers := change.sum downloading rfl
  have inFlight := consistent.inFlight
  have downloadingFrom := consistent.downloadingFrom
  refine ⟨change.queues ▸ matched, ?_, by omega, by omega⟩
  intro other
  rw [change.queues, update_apply]
  split
  · exact nodup
  · exact consistent.queueNodup other

theorem Consistent.stateFor : (tracker.stateFor peer).Consistent := by
  rw [BlockDownloadTracker.stateFor, FinMap.emplace]
  cases held : tracker.mPeerDownload.lookup peer with
  | some state => exact consistent
  | none =>
    have empty : tracker.queue peer = [] := by rw [queue, held, Option.elim_none]
    refine consistent.change (changes_insert rfl) nodup_nil ?_ ?_ ?_
    · change tracker.mBlocksInFlight.Matches (Function.update tracker.queue peer [])
      rw [← empty, update_eq_self]
      exact consistent.toMatches
    · rw [empty]
      rfl
    · rw [empty]
      exact (Int.add_sub_cancel _ 0).symm

theorem Consistent.mem_peers :
    peer ∈ tracker.mBlocksInFlight.peers hash ↔ hash ∈ tracker.queue peer := by
  rw [← consistent.contains_iff, BlockInFlightIndex.contains_eq_true]

variable (fromPeer : Option Int64) (now : Int64)

theorem Consistent.removeFrom (queued : hash ∈ tracker.queue peer) :
    (tracker.removeFrom hash fromPeer now peer).Consistent ∧ ∀ other ≠ peer,
      (tracker.removeFrom hash fromPeer now peer).queue other = tracker.queue other := by
  rw [BlockDownloadTracker.removeFrom]
  split
  · exact ⟨consistent, fun _ _ => rfl⟩
  · obtain ⟨state, position, found, positionEq, erased⟩ := exists_queuedBlock queued
    have nodup := consistent.queueNodup peer
    have contained := (consistent.contains_iff hash peer).mpr queued
    have length := length_erase_of_mem queued
    have pos := length_pos_of_mem queued
    simp only [found, positionEq]
    refine ⟨consistent.change (changes_insert erased) (nodup.erase hash)
      (consistent.toMatches.erase nodup queued) ?_ ?_, ?_⟩
    · rw [(BlockInFlightIndex.erase_spec contained).2]
      omega
    · dsimp only
      rw [← erased, downloading, downloading, isEmpty_map,
        isEmpty_eq_false_iff.mpr (ne_nil_of_mem queued)]
      generalize (state.blocksInFlight.eraseIdx position).isEmpty = empty
      cases empty <;> simp
    · intro other ne
      rw [(changes_insert rfl).queues, update_of_ne ne]

theorem Consistent.removeFromEach {peers : List Int64}
    (nodup : peers.Nodup) (queued : ∀ peer ∈ peers, hash ∈ tracker.queue peer) :
    (tracker.removeFromEach hash fromPeer now peers).Consistent ∧ ∀ other ∉ peers,
      (tracker.removeFromEach hash fromPeer now peers).queue other = tracker.queue other := by
  induction peers generalizing tracker with
  | nil => exact ⟨consistent, fun _ _ => rfl⟩
  | cons peer peers ih =>
    obtain ⟨here, later⟩ := forall_mem_cons.mp queued
    obtain ⟨notLater, laterNodup⟩ := nodup_cons.mp nodup
    obtain ⟨kept, others⟩ := consistent.removeFrom fromPeer now here
    obtain ⟨final, unchanged⟩ := ih kept laterNodup fun other mem => by
      rw [others other fun same => notLater (same ▸ mem)]
      exact later other mem
    refine ⟨final, fun other outside => ?_⟩
    rw [mem_cons, not_or] at outside
    exact (unchanged other outside.2).trans (others other outside.1)

theorem Consistent.enqueue {queued : QueuedBlock Pool}
    (absent : queued.block.hash ∉ tracker.queue peer) :
    (tracker.enqueue now peer queued).Consistent := by
  have before : ((tracker.findState peer).getD {}).hashes = tracker.queue peer := by
    rw [findState, queue]
    cases tracker.mPeerDownload.lookup peer <;> rfl
  have contained := (consistent.contains_iff queued.block.hash peer).not.mpr absent
  have appended : (((tracker.findState peer).getD {}).blocksInFlight ++ [queued]).map
      (fun entry => entry.block.hash) = tracker.queue peer ++ [queued.block.hash] := by
    rw [map_append, ← before]
    rfl
  refine consistent.change (changes_insert appended) ?_ (consistent.toMatches.add absent) ?_ ?_
  · rw [← concat_eq_append]
    exact (consistent.queueNodup peer).concat absent
  · rw [BlockDownloadTracker.enqueue, (BlockInFlightIndex.add_spec contained).2, length_append,
      length_singleton]
    omega
  · rw [BlockDownloadTracker.enqueue, ← before, PeerBlockDownloadState.hashes]
    cases ((tracker.findState peer).getD {}).blocksInFlight <;> simp [downloading]

theorem Consistent.requestBlock (block : BlockCandidateRef) {useCompactBlock : Bool}
    {mempool : Option Pool} (legal : (!useCompactBlock || mempool.isSome) = true) :
    ∃ res next, tracker.requestBlock now peer block useCompactBlock mempool =
      .ok (res, next) ∧ next.Consistent := by
  have consistent := @Consistent.stateFor _ _ peer consistent
  rw [BlockDownloadTracker.requestBlock]
  dsimp only
  split
  · exact ⟨_, _, rfl, consistent⟩
  next absent =>
    rw [BlockInFlightIndex.contains_eq_true] at absent
    obtain ⟨removed, unchanged⟩ := consistent.removeFromEach (some peer) now
      (consistent.nodup block.hash) fun _ => consistent.mem_peers.mp
    rw [legal]
    refine ⟨_, _, rfl, removed.enqueue now ?_⟩
    rw [unchanged peer absent, ← consistent.mem_peers]
    exact absent

theorem Consistent.forgetPeer (peer : Int64) : (tracker.forgetPeer peer).Consistent := by
  rw [BlockDownloadTracker.forgetPeer]
  cases found : tracker.mPeerDownload.lookup peer with
  | none => exact consistent
  | some state =>
    have before : tracker.queue peer = state.hashes := by rw [queue, found, Option.elim_some]
    obtain ⟨matched, size⟩ :=
      consistent.toMatches.eraseAll (before ▸ consistent.queueNodup peer) before
    rw [PeerBlockDownloadState.hashes, foldl_map] at matched size
    refine consistent.change (changes_erase found) nodup_nil matched ?_ ?_
    · rw [before]
      exact size
    · dsimp only
      rw [before, PeerBlockDownloadState.hashes]
      cases state.blocksInFlight <;> simp [downloading]

/-- In every round the block is still in the queue of the peer. -/
theorem Consistent.not_fallsBack {fromPeer : Option Int64} {now : Int64} {start later : List Int64}
    (peers : tracker.mBlocksInFlight.peers hash = start ++ peer :: later) :
    ¬ (tracker.removeFromEach hash fromPeer now start).FallsBack hash fromPeer peer := by
  have nodup := consistent.nodup hash
  rw [peers] at nodup
  obtain ⟨startNodup, -, disjoint⟩ := nodup_append.mp nodup
  have queued : ∀ asked ∈ start ++ peer :: later, hash ∈ tracker.queue asked := by
    rw [← peers]
    exact fun _ => consistent.mem_peers.mp
  rw [forall_mem_append, forall_mem_cons] at queued
  obtain ⟨-, unchanged⟩ := consistent.removeFromEach fromPeer now startNodup queued.1
  have here := queued.2.1
  rw [← unchanged peer fun mem => disjoint peer mem peer mem_cons_self rfl] at here
  obtain ⟨state, position, found, positionEq, -⟩ := exists_queuedBlock here
  simp [FallsBack, found, positionEq]

theorem Consistent.call {made : Call Pool} (legal : made.Legal) :
    ∃ next, tracker.call made = .ok next ∧ next.Consistent := by
  cases made with
  | requestBlock peer block useCompactBlock mempool now =>
    obtain ⟨res, next, requested, kept⟩ := consistent.requestBlock now block legal
    refine ⟨next, ?_, kept⟩
    rw [BlockDownloadTracker.call, requested]
    rfl
  | removeBlockRequest hash fromPeer now =>
    exact ⟨_, rfl, (consistent.removeFromEach fromPeer now (consistent.nodup hash) fun _ =>
      consistent.mem_peers.mp).1⟩
  | forgetPeer peer => exact ⟨_, rfl, consistent.forgetPeer peer⟩

theorem Consistent.calls {made : List (Call Pool)} (legal : ∀ call ∈ made, call.Legal) :
    ∃ final, made.foldlM BlockDownloadTracker.call tracker = .ok final ∧ final.Consistent := by
  induction made generalizing tracker with
  | nil => exact ⟨tracker, rfl, consistent⟩
  | cons first made ih =>
    obtain ⟨here, later⟩ := forall_mem_cons.mp legal
    obtain ⟨next, called, kept⟩ := consistent.call here
    rw [foldlM_cons, called]
    exact ih kept later

theorem Consistent.downloadingFrom_bounds : 0 ≤ tracker.mPeersDownloadingFrom ∧
    tracker.mPeersDownloadingFrom ≤ tracker.mPeerDownload.entries.card := by
  have atMost : tracker.sumOverQueues downloading ≤ tracker.mPeerDownload.entries.card := by
    rw [sumOverQueues, FinMap.total]
    induction tracker.mPeerDownload.entries using Multiset.induction_on with
    | empty => rfl
    | cons entry entries ih =>
      rw [Multiset.map_cons, Multiset.sum_cons, Multiset.card_cons, downloading]
      split <;> omega
  have counted := consistent.downloadingFrom
  omega

end Steps

/-- After every sequence of calls the queues, the index and the counters agree, and no removal, by
itself or in a request, takes a branch for a request that it does not find.  The counter of peers is
at most their number, so with fewer than `2 ^ 31` peers it does not overflow. -/
theorem calls_consistent (calls : List (Call Pool)) (legal : ∀ call ∈ calls, call.Legal) :
    ∃ tracker, calls.foldlM call ({} : BlockDownloadTracker Pool) = .ok tracker ∧
      tracker.Consistent ∧ (0 ≤ tracker.mPeersDownloadingFrom ∧
        tracker.mPeersDownloadingFrom ≤ tracker.mPeerDownload.entries.card) ∧
      ∀ asked, asked = tracker ∨ (∃ peer, asked = tracker.stateFor peer) →
        ∀ hash fromPeer now start peer later,
          asked.mBlocksInFlight.peers hash = start ++ peer :: later →
          ¬ (asked.removeFromEach hash fromPeer now start).FallsBack hash fromPeer peer := by
  have empty : Consistent ({} : BlockDownloadTracker Pool) := by
    refine ⟨⟨fun _ => nodup_nil, fun _ _ => ?_⟩, fun _ => nodup_nil, rfl, rfl⟩
    simp [BlockInFlightIndex.contains, queue]
  obtain ⟨tracker, ran, consistent⟩ := empty.calls legal
  refine ⟨tracker, ran, consistent, consistent.downloadingFrom_bounds, ?_⟩
  rintro asked (rfl | ⟨peer, rfl⟩) hash fromPeer now start peer later peers
  · exact consistent.not_fallsBack peers
  · exact consistent.stateFor.not_fallsBack peers

def twoPeerCalls : List (Call Unit) :=
  [.requestBlock 1 ⟨7, 0, 1, 0⟩ true (some ()) 5, .requestBlock 2 ⟨7, 0, 1, 0⟩ false none 6,
    .removeBlockRequest 7 (some 1) 8, .forgetPeer 2]

theorem calls_consistent_twoPeers : ∃ tracker, twoPeerCalls.foldlM call {} = .ok tracker ∧
    tracker.Consistent := by
  obtain ⟨tracker, ran, consistent, -⟩ :=
    calls_consistent twoPeerCalls (by simp [twoPeerCalls, Call.Legal])
  exact ⟨tracker, ran, consistent⟩

end BlockDownloadTracker

end Champy
