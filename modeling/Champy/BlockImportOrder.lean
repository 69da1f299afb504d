import Champy.BlockImport
import Mathlib.Data.List.Nodup
import Mathlib.Logic.Relation

/-!
# The order of the records of a block file

A reindex admits the same blocks for every order of the records: those that are acceptable
and whose ancestors are.  The invariant of the queue says that a block that can be admitted is
in the index or waits for its parent, and that the parent of a waiting block is in the queue
as soon as it is in the index.
-/

namespace Champy

open List

section Order

variable {Chain Block : Type}

def Indexed (env : ImportChain Chain Block) (chain : Chain) (hash : Uint256) : Prop :=
  env.lookupBlockIndex chain hash ≠ none

/-- A block may be connected: it is acceptable, and it is the genesis block or its parent is
in the index. -/
def Admissible (env : ImportChain Chain Block) (hashPrevBlock : Block → Uint256)
    (acceptable : Block → Prop) (chain : Chain) (block : Block) : Prop :=
  acceptable block ∧
    (env.getHash block = env.hashGenesisBlock ∨ Indexed env chain (hashPrevBlock block))

/-- `AcceptBlock` accepts a block exactly when it is acceptable and its parent is in the
index.  Activation keeps the index, and nothing interrupts. -/
structure AdmitsByParent (env : ImportChain Chain Block) (hashPrevBlock : Block → Uint256)
    (acceptable : Block → Prop) : Prop where
  accepts : ∀ chain block pos, Admissible env hashPrevBlock acceptable chain block →
    (env.acceptBlock chain block pos).1.stateIsError = false ∧
      ((env.acceptBlock chain block pos).1.status = .blockDataStored ∨
        (env.acceptBlock chain block pos).1.status = .blockDataAlreadyKnown) ∧
      ∀ hash, Indexed env (env.acceptBlock chain block pos).2 hash ↔
        hash = env.getHash block ∨ Indexed env chain hash
  rejects : ∀ chain block pos, ¬ Admissible env hashPrevBlock acceptable chain block →
    (env.acceptBlock chain block pos).1.stateIsError = false ∧
      ((env.acceptBlock chain block pos).1.status = .headerRejected ∨
        (env.acceptBlock chain block pos).1.status = .blockRejected) ∧
      ∀ hash, Indexed env (env.acceptBlock chain block pos).2 hash ↔ Indexed env chain hash
  activates : ∀ chain, ∃ next, env.activateBestChain chain = .ok next ∧
    ∀ hash, Indexed env next hash ↔ Indexed env chain hash
  activatesAll : ∀ chain, ∃ next, env.activateBestChains chain = .ok next ∧
    ∀ hash, Indexed env next hash ↔ Indexed env chain hash
  runs : ∀ chain, env.interrupted chain = false

/-- Where the block of an entry stands in the file. -/
def filePos (fileNumber : Int32) (entry : BlkRecord × Block) : FlatFilePos :=
  ⟨fileNumber, entry.1.blockPosition.toUInt32⟩

/-- A file of records whose blocks can be read, at positions of their own. -/
structure Readable (env : ImportChain Chain Block) (hashPrevBlock : Block → Uint256)
    (source : BlockFileSource Block) (fileNumber : Int32) (entries : List (BlkRecord × Block)) :
    Prop where
  hash_eq : ∀ entry ∈ entries, entry.1.hash = env.getHash entry.2
  hashPrevBlock_eq : ∀ entry ∈ entries, entry.1.hashPrevBlock = hashPrevBlock entry.2
  readBlock_eq : ∀ entry ∈ entries, source.readBlock entry.1 = .ok entry.2
  position_le : ∀ entry ∈ entries, entry.1.blockPosition.toNat ≤ 0xffffffff
  readBack : ∀ entry ∈ entries,
    source.readBlockFromPosition (filePos fileNumber entry) = some entry.2
  distinct : (entries.map (filePos fileNumber)).Nodup

theorem Readable.perm {env : ImportChain Chain Block} {hashPrevBlock : Block → Uint256}
    {source : BlockFileSource Block} {fileNumber : Int32}
    {entries others : List (BlkRecord × Block)}
    (file : Readable env hashPrevBlock source fileNumber entries) (order : entries.Perm others) :
    Readable env hashPrevBlock source fileNumber others where
  hash_eq entry mem := file.hash_eq entry (order.mem_iff.mpr mem)
  hashPrevBlock_eq entry mem := file.hashPrevBlock_eq entry (order.mem_iff.mpr mem)
  readBlock_eq entry mem := file.readBlock_eq entry (order.mem_iff.mpr mem)
  position_le entry mem := file.position_le entry (order.mem_iff.mpr mem)
  readBack entry mem := file.readBack entry (order.mem_iff.mpr mem)
  distinct := (order.map _).nodup_iff.mp file.distinct

/-- A block of a list that is acceptable, back to the genesis block. -/
inductive Reached (env : ImportChain Chain Block) (hashPrevBlock : Block → Uint256)
    (acceptable : Block → Prop) (blocks : List Block) : Block → Prop
  | genesis {block : Block} (mem : block ∈ blocks) (accepted : acceptable block)
      (isGenesis : env.getHash block = env.hashGenesisBlock) :
      Reached env hashPrevBlock acceptable blocks block
  | child {parent block : Block} (reached : Reached env hashPrevBlock acceptable blocks parent)
      (mem : block ∈ blocks) (accepted : acceptable block)
      (parentHash : env.getHash parent = hashPrevBlock block) :
      Reached env hashPrevBlock acceptable blocks block

variable {env : ImportChain Chain Block} {hashPrevBlock : Block → Uint256}
  {acceptable : Block → Prop}

/-! ## One admission -/

/-- An admission opens the children of an admissible block and puts its hash in the index. -/
theorem admitBlock_spec (admits : AdmitsByParent env hashPrevBlock acceptable) (chain : Chain)
    (block : Block) (pos : Option FlatFilePos) :
    ∃ outcome next, admitBlock env chain block pos = (.ok outcome, next) ∧
      (outcome.opensDeferredChildren = true ↔ Admissible env hashPrevBlock acceptable chain block) ∧
      ∀ hash, Indexed env next hash ↔ (Admissible env hashPrevBlock acceptable chain block ∧
        hash = env.getHash block) ∨ Indexed env chain hash := by
  by_cases admissible : Admissible env hashPrevBlock acceptable chain block
  · obtain ⟨noError, status, indexed⟩ := admits.accepts chain block pos admissible
    simp only [admissible, true_and, iff_true]
    rcases status with stored | known
    · refine ⟨⟨.stored, true⟩, _, ?_, rfl, indexed⟩
      simp [admitBlock, noError, stored]
    · refine ⟨⟨.alreadyKnown, true⟩, _, ?_, rfl, indexed⟩
      simp [admitBlock, noError, known]
  · obtain ⟨noError, status, indexed⟩ := admits.rejects chain block pos admissible
    simp only [admissible, false_and, false_or, iff_false]
    refine ⟨⟨.rejected, false⟩, _, ?_, Bool.false_ne_true, indexed⟩
    rcases status with header | rejected
    · simp [admitBlock, noError, header]
    · simp [admitBlock, noError, rejected]

/-! ## Reached blocks -/

section Blocks

variable {blocks more : List Block} {block parent : Block}

section ReachedBlock

variable (reached : Reached env hashPrevBlock acceptable blocks block)

include reached

theorem Reached.mem : block ∈ blocks := by
  cases reached with
  | genesis mem => exact mem
  | child _ mem => exact mem

theorem Reached.accepted : acceptable block := by
  cases reached with
  | genesis _ ok => exact ok
  | child _ _ ok => exact ok

theorem Reached.mono (subset : blocks ⊆ more) :
    Reached env hashPrevBlock acceptable more block := by
  induction reached with
  | genesis mem ok isGenesis => exact .genesis (subset mem) ok isGenesis
  | child _ mem ok parentHash ih => exact .child ih (subset mem) ok parentHash

theorem Reached.parent_reached (notGenesis : env.getHash block ≠ env.hashGenesisBlock) :
    ∃ parent, Reached env hashPrevBlock acceptable blocks parent ∧
      env.getHash parent = hashPrevBlock block := by
  cases reached with
  | genesis _ _ isGenesis => exact absurd isGenesis notGenesis
  | child reached _ _ parentHash => exact ⟨_, reached, parentHash⟩

end ReachedBlock

theorem eq_of_getHash_eq {first second : Block} (unique : (blocks.map env.getHash).Nodup)
    (firstMem : first ∈ blocks) (secondMem : second ∈ blocks)
    (same : env.getHash first = env.getHash second) : first = second :=
  inj_on_of_nodup_map unique firstMem secondMem same

theorem not_reached_of_parent (unique : (blocks.map env.getHash).Nodup) (parentMem : parent ∈ blocks)
    (parentHash : env.getHash parent = hashPrevBlock block) (refused : ¬ acceptable parent)
    (notGenesis : env.getHash block ≠ env.hashGenesisBlock) :
    ¬ Reached env hashPrevBlock acceptable blocks block := by
  intro reached
  obtain ⟨other, otherReached, otherHash⟩ := reached.parent_reached notGenesis
  have same : other = parent :=
    eq_of_getHash_eq unique otherReached.mem parentMem (otherHash.trans parentHash.symm)
  exact refused (same ▸ otherReached.accepted)

end Blocks

/-! ## The queue -/

/-- A position that waits for a hash, for an entry that has been scanned. -/
def WaitsFor (env : ImportChain Chain Block) (hashPrevBlock : Block → Uint256) (fileNumber : Int32)
    (scanned : List (BlkRecord × Block)) (waiter : Uint256 × FlatFilePos) : Prop :=
  ∃ entry ∈ scanned, waiter = (hashPrevBlock entry.2, filePos fileNumber entry) ∧
    env.getHash entry.2 ≠ env.hashGenesisBlock

/-- The state while the queue is worked off.  `pending` are positions that have been taken out
of the index of unknown parents and are not read yet. -/
structure Draining (env : ImportChain Chain Block) (hashPrevBlock : Block → Uint256)
    (acceptable : Block → Prop) (fileNumber : Int32) (all scanned : List (BlkRecord × Block))
    (state : ImportState Chain) (queue : List Uint256) (pending : List (Uint256 × FlatFilePos)) :
    Prop where
  sound : ∀ hash, Indexed env state.chain hash → ∃ block,
    Reached env hashPrevBlock acceptable (scanned.map Prod.snd) block ∧ env.getHash block = hash
  waiting : ∀ waiter ∈ pending ++ state.unknownParentIndex.children,
    WaitsFor env hashPrevBlock fileNumber scanned waiter
  parked : ∀ waiter ∈ state.unknownParentIndex.children, Indexed env state.chain waiter.1 →
    waiter.1 ∈ queue
  decided : ∀ hash ∈ queue ++ pending.map Prod.fst, Indexed env state.chain hash ∨
    ∃ entry ∈ scanned, env.getHash entry.2 = hash ∧ ¬ acceptable entry.2
  complete : ∀ entry ∈ scanned, Reached env hashPrevBlock acceptable (all.map Prod.snd) entry.2 →
    Indexed env state.chain (env.getHash entry.2) ∨
      (hashPrevBlock entry.2, filePos fileNumber entry) ∈
        pending ++ state.unknownParentIndex.children
  readOnce : (state.positionsRead ++
    (pending ++ state.unknownParentIndex.children).map Prod.snd).Nodup
  readScanned : ∀ pos ∈ state.positionsRead, ∃ entry ∈ scanned, filePos fileNumber entry = pos

section Queue

variable {source : BlockFileSource Block} {fileNumber : Int32}
  {all scanned : List (BlkRecord × Block)} {state : ImportState Chain} {queue : List Uint256}
  {pending : List (Uint256 × FlatFilePos)}

def afterReading (state : ImportState Chain) (fileNumber : Int32) (entry : BlkRecord × Block)
    (chain : Chain) (status : ImportAdmissionStatus) : ImportState Chain :=
  ⟨chain, state.unknownParentIndex, recordAdmissionOutcome state.counters status,
    state.positionsRead ++ [filePos fileNumber entry]⟩

section Waiting

variable {entry : BlkRecord × Block} {chain : Chain}
  (draining : Draining env hashPrevBlock acceptable fileNumber all scanned state queue
    ((hashPrevBlock entry.2, filePos fileNumber entry) :: pending)) (subset : scanned ⊆ all)
  (unique : ((all.map Prod.snd).map env.getHash).Nodup)
  (notGenesis : env.getHash entry.2 ≠ env.hashGenesisBlock)

include draining

theorem Draining.positions (entryMem : entry ∈ scanned) :
    (state.positionsRead ++ [filePos fileNumber entry] ++
        (pending ++ state.unknownParentIndex.children).map Prod.snd).Nodup ∧
      ∀ pos ∈ state.positionsRead ++ [filePos fileNumber entry],
        ∃ entry ∈ scanned, filePos fileNumber entry = pos := by
  constructor
  · have readOnce := draining.readOnce
    rwa [cons_append, map_cons, append_cons] at readOnce
  · intro pos mem
    rcases mem_append.mp mem with before | now
    · exact draining.readScanned pos before
    · exact ⟨entry, entryMem, (mem_singleton.mp now).symm⟩

include subset unique notGenesis

/-- A block that waited is not refused if it is ever to be admitted. -/
theorem Draining.admissible
    (reached : Reached env hashPrevBlock acceptable (all.map Prod.snd) entry.2) :
    Admissible env hashPrevBlock acceptable state.chain entry.2 := by
  refine ⟨reached.accepted, Or.inr ?_⟩
  rcases draining.decided _ (mem_append_right _ mem_cons_self) with
    known | ⟨parent, parentMem, parentHash, unacceptable⟩
  · exact known
  · exact absurd reached (not_reached_of_parent unique (mem_map_of_mem (subset parentMem))
      parentHash unacceptable notGenesis)

theorem Draining.read (file : Readable env hashPrevBlock source fileNumber all)
    (entryMem : entry ∈ scanned) (opened : List Uint256) (indexed : ∀ hash, Indexed env chain hash ↔
      (Admissible env hashPrevBlock acceptable state.chain entry.2 ∧
        hash = env.getHash entry.2) ∨ Indexed env state.chain hash)
    (opens : ∀ hash, hash ∈ opened ↔
      Admissible env hashPrevBlock acceptable state.chain entry.2 ∧ hash = env.getHash entry.2)
    (status : ImportAdmissionStatus) :
    Draining env hashPrevBlock acceptable fileNumber all scanned
      (afterReading state fileNumber entry chain status) (queue ++ opened) pending := by
  obtain ⟨readOnce, readScanned⟩ := draining.positions entryMem
  refine ⟨?_, ?_, ?_, ?_, ?_, readOnce, readScanned⟩
  · intro hash known
    rcases (indexed hash).mp known with ⟨admissible, new⟩ | old
    · obtain ⟨parent, reached, parentHash⟩ :=
        draining.sound _ (admissible.2.resolve_left notGenesis)
      exact ⟨entry.2, .child reached (mem_map_of_mem entryMem) admissible.1 parentHash, new.symm⟩
    · exact draining.sound hash old
  · intro waiter mem
    exact draining.waiting waiter (mem_cons_of_mem _ mem)
  · intro waiter mem known
    rcases (indexed _).mp known with new | old
    · exact mem_append_right _ ((opens _).mpr new)
    · exact mem_append_left _ (draining.parked waiter mem old)
  · intro hash mem
    have cases : hash ∈ opened ∨ hash ∈ queue ++
        (((hashPrevBlock entry.2, filePos fileNumber entry) :: pending).map Prod.fst) := by
      simp only [mem_append, map_cons, mem_cons] at mem ⊢
      tauto
    rcases cases with new | old
    · exact Or.inl ((indexed hash).mpr (Or.inl ((opens hash).mp new)))
    · exact (draining.decided hash old).imp_left fun known => (indexed hash).mpr (Or.inr known)
  · intro other otherMem reached
    rcases draining.complete other otherMem reached with known | waits
    · exact Or.inl ((indexed _).mpr (Or.inr known))
    · rcases mem_cons.mp waits with now | later
      · obtain rfl : other = entry := inj_on_of_nodup_map file.distinct (subset otherMem)
          (subset entryMem) (Prod.mk.inj now).2
        exact Or.inl ((indexed _).mpr (Or.inl
          ⟨draining.admissible subset unique notGenesis reached, rfl⟩))
      · exact Or.inr later

end Waiting

theorem Draining.take {head : Uint256}
    (draining : Draining env hashPrevBlock acceptable fileNumber all scanned state
      (head :: queue) []) :
    Draining env hashPrevBlock acceptable fileNumber all scanned
      { state with unknownParentIndex := (state.unknownParentIndex.takeChildrenOf head).2 } queue
      (state.unknownParentIndex.children.filter fun waiter => waiter.1 == head) := by
  have whole : ((state.unknownParentIndex.children.filter fun waiter => waiter.1 == head) ++
      state.unknownParentIndex.children.filter fun waiter => waiter.1 != head).Perm
        state.unknownParentIndex.children :=
    filter_append_perm (fun waiter => waiter.1 == head) state.unknownParentIndex.children
  refine ⟨draining.sound, ?_, ?_, ?_, ?_, ?_, draining.readScanned⟩
  · intro waiter mem
    exact draining.waiting waiter (whole.mem_iff.mp mem)
  · intro waiter mem known
    obtain ⟨waiterMem, ne⟩ := mem_filter.mp mem
    rcases mem_cons.mp (draining.parked waiter waiterMem known) with same | later
    · simp [same] at ne
    · exact later
  · intro hash mem
    rcases mem_append.mp mem with queued | taken
    · exact draining.decided hash (mem_append_left _ (mem_cons_of_mem _ queued))
    · obtain ⟨waiter, waiterMem, rfl⟩ := mem_map.mp taken
      have same : waiter.1 = head := eq_of_beq (mem_filter.mp waiterMem).2
      rw [same]
      exact draining.decided head (mem_append_left _ mem_cons_self)
  · intro entry entryMem reached
    exact (draining.complete entry entryMem reached).imp_right whole.mem_iff.mpr
  · exact ((whole.map Prod.snd).append_left _).nodup_iff.mpr draining.readOnce

section Drain

variable (admits : AdmitsByParent env hashPrevBlock acceptable)
  (file : Readable env hashPrevBlock source fileNumber all)
  (unique : ((all.map Prod.snd).map env.getHash).Nodup) (subset : scanned ⊆ all)

include admits file unique subset

variable {opened : List Uint256}

theorem Draining.child {waiter : Uint256 × FlatFilePos}
    (draining : Draining env hashPrevBlock acceptable fileNumber all scanned state
      (queue ++ opened) (waiter :: pending)) :
    ∃ next, processDeferredChild env source (state, opened) waiter.2 = .ok next ∧
      Draining env hashPrevBlock acceptable fileNumber all scanned next.1 (queue ++ next.2)
        pending := by
  obtain ⟨entry, entryMem, rfl, notGenesis⟩ := draining.waiting waiter mem_cons_self
  have readBack := file.readBack entry (subset entryMem)
  obtain ⟨outcome, chain, admitted, opensIff, indexed⟩ :=
    admitBlock_spec admits state.chain entry.2 (some (filePos fileNumber entry))
  have read := draining.read subset unique notGenesis file entryMem
    (if outcome.opensDeferredChildren then [env.getHash entry.2] else []) indexed
    (by simp [← opensIff]) outcome.status
  refine ⟨(afterReading state fileNumber entry chain outcome.status, opened ++
    if outcome.opensDeferredChildren then [env.getHash entry.2] else []), ?_, ?_⟩
  · cases opens : outcome.opensDeferredChildren <;>
      simp [processDeferredChild, readBack, admitted, opens, afterReading]
  · rw [← append_assoc]
    exact read

theorem Draining.children
    (draining : Draining env hashPrevBlock acceptable fileNumber all scanned state
      (queue ++ opened) pending) :
    ∃ next, (pending.map Prod.snd).foldlM (processDeferredChild env source) (state, opened) =
        .ok next ∧
      Draining env hashPrevBlock acceptable fileNumber all scanned next.1 (queue ++ next.2) [] := by
  induction pending generalizing state opened with
  | nil => exact ⟨(state, opened), rfl, draining⟩
  | cons waiter pending ih =>
    obtain ⟨middle, processed, drainingNext⟩ := draining.child admits file unique subset
    obtain ⟨next, later, drainingLater⟩ := ih drainingNext
    refine ⟨next, ?_, drainingLater⟩
    rw [map_cons, foldlM_cons, processed]
    exact later

theorem Draining.drain
    (draining : Draining env hashPrevBlock acceptable fileNumber all scanned state queue []) :
    ∃ final, drainQueue env source state queue = .ok final ∧
      Draining env hashPrevBlock acceptable fileNumber all scanned final [] [] ∧
      final.unknownParentIndex.maxEntries = state.unknownParentIndex.maxEntries ∧
      final.unknownParentIndex.children.length ≤ state.unknownParentIndex.children.length := by
  -- By induction on the positions that wait and the hashes in the queue, as the loop ends.
  generalize measured : state.unknownParentIndex.children.length + queue.length = size
  induction size using Nat.strong_induction_on generalizing state queue with
  | _ size ih =>
    cases queue with
    | nil =>
      refine ⟨state, ?_, draining, rfl, Nat.le_refl _⟩
      rw [drainQueue]
    | cons head queue =>
      have taken : Draining env hashPrevBlock acceptable fileNumber all scanned
          { state with unknownParentIndex := (state.unknownParentIndex.takeChildrenOf head).2 }
          (queue ++ [])
          (state.unknownParentIndex.children.filter fun waiter => waiter.1 == head) := by
        rw [append_nil]
        exact draining.take
      obtain ⟨next, processed, drainingNext⟩ := taken.children admits file unique subset
      obtain ⟨sameIndex, opened⟩ := foldlM_processDeferredChild_eq_ok processed
      have smaller : next.1.unknownParentIndex.children.length +
          (queue ++ next.2).length < size := by
        have lengths := state.unknownParentIndex.length_takeChildrenOf head
        rw [sameIndex, ← measured, length_append, length_cons]
        simp only [UnknownParentIndex.takeChildrenOf, length_nil] at lengths opened ⊢
        omega
      obtain ⟨final, drained, drainingFinal, sameLimit, fewer⟩ := ih _ smaller drainingNext rfl
      refine ⟨final, (drainQueue_cons_of_ok (admits.runs _) processed).trans drained,
        drainingFinal, ?_, ?_⟩
      · rw [sameLimit, sameIndex]
        rfl
      · apply Nat.le_trans fewer
        rw [sameIndex]
        exact length_filter_le _ _

end Drain

end Queue

/-! ## The records -/

section Records

variable {source : BlockFileSource Block} {fileNumber : Int32}
  {all scanned : List (BlkRecord × Block)} {state : ImportState Chain} {entry : BlkRecord × Block}

/-- A record that is processed at once: its hash is the queue, whether it is admitted or
not. -/
theorem Draining.enter {chain : Chain} (counters : BlockImportCounters)
    (draining : Draining env hashPrevBlock acceptable fileNumber all scanned state [] [])
    (known : env.getHash entry.2 = env.hashGenesisBlock ∨
      Indexed env state.chain (hashPrevBlock entry.2))
    (indexed : ∀ hash, Indexed env chain hash ↔
      (acceptable entry.2 ∧ hash = env.getHash entry.2) ∨ Indexed env state.chain hash) :
    Draining env hashPrevBlock acceptable fileNumber all (scanned ++ [entry])
      { state with chain := chain, counters := counters } [env.getHash entry.2] [] := by
  have entryMem : entry ∈ scanned ++ [entry] := mem_append_right _ mem_cons_self
  have wider : scanned ⊆ scanned ++ [entry] := subset_append_left _ _
  refine ⟨?_, ?_, ?_, ?_, ?_, draining.readOnce, ?_⟩
  · intro hash now
    rcases (indexed hash).mp now with ⟨ok, rfl⟩ | old
    · have blockMem : entry.2 ∈ (scanned ++ [entry]).map Prod.snd := mem_map_of_mem entryMem
      refine ⟨entry.2, ?_, rfl⟩
      rcases known with isGenesis | parentKnown
      · exact .genesis blockMem ok isGenesis
      · obtain ⟨parent, reached, parentHash⟩ := draining.sound _ parentKnown
        exact .child (reached.mono (map_subset _ wider)) blockMem ok parentHash
    · obtain ⟨block, reached, hashEq⟩ := draining.sound hash old
      exact ⟨block, reached.mono (map_subset _ wider), hashEq⟩
  · intro waiter mem
    obtain ⟨other, otherMem, same, notGenesis⟩ := draining.waiting waiter mem
    exact ⟨other, wider otherMem, same, notGenesis⟩
  · intro waiter mem now
    rcases (indexed _).mp now with ⟨-, same⟩ | old
    · exact mem_singleton.mpr same
    · exact absurd (draining.parked waiter mem old) not_mem_nil
  · intro hash mem
    have same : hash = env.getHash entry.2 := by simpa using mem
    by_cases ok : acceptable entry.2
    · exact Or.inl ((indexed hash).mpr (Or.inl ⟨ok, same⟩))
    · exact Or.inr ⟨entry, entryMem, same.symm, ok⟩
  · intro other otherMem reached
    rcases mem_append.mp otherMem with old | new
    · exact (draining.complete other old reached).imp_left fun before =>
        (indexed _).mpr (Or.inr before)
    · rw [mem_singleton.mp new] at reached ⊢
      exact Or.inl ((indexed _).mpr (Or.inl ⟨reached.accepted, rfl⟩))
  · intro pos mem
    obtain ⟨reader, readerMem, readerPos⟩ := draining.readScanned pos mem
    exact ⟨reader, wider readerMem, readerPos⟩

theorem finishRecord_reindex (admits : AdmitsByParent env hashPrevBlock acceptable)
    (fileNumber : Int32) (record : BlkRecord) (progress : ImportState Chain × Option Block) :
    ∃ chain, (∀ hash, Indexed env chain hash ↔ Indexed env progress.1.chain hash) ∧
      finishRecord env source (.reindex fileNumber) record progress =
        drainQueue env source { progress.1 with chain := chain } [record.hash] := by
  obtain ⟨genesisChain, genesisActivated, genesisIndexed⟩ :
      ∃ next, activateGenesisIfNeeded env progress.1.chain record.hash = .ok next ∧
        ∀ hash, Indexed env next hash ↔ Indexed env progress.1.chain hash := by
    unfold activateGenesisIfNeeded
    split
    · exact ⟨_, rfl, fun _ => Iff.rfl⟩
    · obtain ⟨next, activated, same⟩ := admits.activates progress.1.chain
      exact ⟨next, by rw [activated]; rfl, same⟩
  obtain ⟨pruneChain, pruneActivated, pruneIndexed⟩ :
      ∃ next, activatePruneModeIfNeeded env genesisChain progress.2 = .ok next ∧
        ∀ hash, Indexed env next hash ↔ Indexed env genesisChain hash := by
    unfold activatePruneModeIfNeeded
    split
    · exact ⟨_, rfl, fun _ => Iff.rfl⟩
    · obtain ⟨next, activated, same⟩ := admits.activatesAll genesisChain
      exact ⟨next, by rw [activated]; rfl, same⟩
  refine ⟨pruneChain, fun hash => (pruneIndexed hash).trans (genesisIndexed hash), ?_⟩
  simp only [finishRecord, genesisActivated, bind, Except.bind, pruneActivated]

section File

variable (file : Readable env hashPrevBlock source fileNumber all)

include file

theorem recordPos_reindex (entryMem : entry ∈ all) :
    (ExternalBlockFileImportMode.reindex fileNumber).recordPos entry.1 =
      .ok (some (filePos fileNumber entry)) := by
  have small := file.position_le entry entryMem
  simp [ExternalBlockFileImportMode.recordPos, recordPosition, Exec.assertThat, small, filePos]

theorem importRecord_of_unknown (entryMem : entry ∈ all)
    (notGenesis : env.getHash entry.2 ≠ env.hashGenesisBlock)
    (unknown : ¬ Indexed env state.chain (hashPrevBlock entry.2))
    (room : state.unknownParentIndex.children.length < state.unknownParentIndex.maxEntries) :
    importRecord env source (.reindex fileNumber) state entry.1 =
      .ok { state with unknownParentIndex := { state.unknownParentIndex with
        children := state.unknownParentIndex.children ++
          [(hashPrevBlock entry.2, filePos fileNumber entry)] } } := by
  have aside : entry.1.hash ≠ env.hashGenesisBlock ∧
      env.lookupBlockIndex state.chain entry.1.hashPrevBlock = none := by
    rw [file.hash_eq entry entryMem, file.hashPrevBlock_eq entry entryMem]
    exact ⟨notGenesis, not_not.mp unknown⟩
  have roomy : ¬ state.unknownParentIndex.children.length ≥ state.unknownParentIndex.maxEntries :=
    Nat.not_le.mpr room
  simp only [importRecord, recordPos_reindex file entryMem]
  rw [if_pos aside, deferRecord]
  simp only [UnknownParentIndex.add, if_neg roomy, file.hashPrevBlock_eq entry entryMem]

theorem importRecord_of_known (admits : AdmitsByParent env hashPrevBlock acceptable)
    (entryMem : entry ∈ all)
    (known : env.getHash entry.2 = env.hashGenesisBlock ∨
      Indexed env state.chain (hashPrevBlock entry.2))
    (newHash : ¬ Indexed env state.chain (env.getHash entry.2)) :
    ∃ chain counters, (∀ hash, Indexed env chain hash ↔
        (acceptable entry.2 ∧ hash = env.getHash entry.2) ∨ Indexed env state.chain hash) ∧
      importRecord env source (.reindex fileNumber) state entry.1 =
        drainQueue env source { state with chain := chain, counters := counters }
          [env.getHash entry.2] := by
  have atOnce : ¬ (entry.1.hash ≠ env.hashGenesisBlock ∧
      env.lookupBlockIndex state.chain entry.1.hashPrevBlock = none) := by
    rw [file.hash_eq entry entryMem, file.hashPrevBlock_eq entry entryMem]
    intro aside
    rcases known with isGenesis | parentKnown
    · exact aside.1 isGenesis
    · exact parentKnown aside.2
  have noEntry : env.lookupBlockIndex state.chain entry.1.hash = none := by
    rw [file.hash_eq entry entryMem]
    exact not_not.mp newHash
  obtain ⟨outcome, admittedChain, admitted, -, indexed⟩ :=
    admitBlock_spec admits state.chain entry.2 (some (filePos fileNumber entry))
  simp only [Admissible, and_iff_left known] at indexed
  obtain ⟨chain, sameIndex, finished⟩ := finishRecord_reindex admits fileNumber entry.1
    ({ state with
        chain := admittedChain
        counters := recordAdmissionOutcome state.counters outcome.status },
      if outcome.status = .stored then some entry.2 else none)
  refine ⟨chain, recordAdmissionOutcome state.counters outcome.status,
    fun hash => (sameIndex hash).trans (indexed hash), ?_⟩
  rw [file.hash_eq entry entryMem] at finished
  rw [← finished]
  simp only [importRecord, recordPos_reindex file entryMem]
  rw [if_neg atOnce]
  simp only [noEntry, Option.filter_none, file.readBlock_eq entry entryMem, admitRecord,
    Option.all_none, if_true, admitted, bind, Except.bind]

variable (draining : Draining env hashPrevBlock acceptable fileNumber all scanned state [] [])

include draining

theorem Draining.indexed_iff (subset : scanned ⊆ all) (hash : Uint256) :
    Indexed env state.chain hash ↔ ∃ block,
      Reached env hashPrevBlock acceptable (scanned.map Prod.snd) block ∧
        env.getHash block = hash := by
  have blocksSubset : scanned.map Prod.snd ⊆ all.map Prod.snd := map_subset Prod.snd subset
  -- A scanned block that waits is not the genesis block, and its parent is not in the index.
  have waits : ∀ entry ∈ scanned, (hashPrevBlock entry.2, filePos fileNumber entry) ∈
      [] ++ state.unknownParentIndex.children → env.getHash entry.2 ≠ env.hashGenesisBlock ∧
          ¬ Indexed env state.chain (hashPrevBlock entry.2) := by
    intro entry entryMem mem
    constructor
    · obtain ⟨other, otherMem, same, notGenesis⟩ := draining.waiting _ mem
      have sameEntry : entry = other := inj_on_of_nodup_map file.distinct (subset entryMem)
        (subset otherMem) (Prod.mk.inj same).2
      rwa [sameEntry]
    · intro known
      exact absurd (draining.parked _ mem known) not_mem_nil
  constructor
  · exact draining.sound hash
  · intro reachedHash
    obtain ⟨block, reached, rfl⟩ := reachedHash
    induction reached with
    | @genesis block mem ok isGenesis =>
      obtain ⟨entry, entryMem, rfl⟩ := mem_map.mp mem
      have whole : Reached env hashPrevBlock acceptable (all.map Prod.snd) entry.2 :=
        .genesis (blocksSubset mem) ok isGenesis
      rcases draining.complete entry entryMem whole with known | waiting
      · exact known
      · exact absurd isGenesis (waits entry entryMem waiting).1
    | @child parent block reached mem ok parentHash ih =>
      obtain ⟨entry, entryMem, rfl⟩ := mem_map.mp mem
      have whole := (Reached.child reached mem ok parentHash).mono blocksSubset
      rcases draining.complete entry entryMem whole with known | waiting
      · exact known
      · rw [parentHash] at ih
        exact absurd ih (waits entry entryMem waiting).2

theorem Draining.defer (subset : scanned ++ [entry] ⊆ all) (newEntry : entry ∉ scanned)
    (notGenesis : env.getHash entry.2 ≠ env.hashGenesisBlock)
    (unknown : ¬ Indexed env state.chain (hashPrevBlock entry.2)) :
    Draining env hashPrevBlock acceptable fileNumber all (scanned ++ [entry])
      { state with unknownParentIndex := { state.unknownParentIndex with
        children := state.unknownParentIndex.children ++
          [(hashPrevBlock entry.2, filePos fileNumber entry)] } } [] [] := by
  have entryMem : entry ∈ scanned ++ [entry] := mem_append_right _ mem_cons_self
  have wider : scanned ⊆ scanned ++ [entry] := subset_append_left _ _
  have newPosition : ∀ other ∈ scanned, filePos fileNumber other ≠ filePos fileNumber entry := by
    intro other otherMem same
    exact newEntry (inj_on_of_nodup_map file.distinct (subset (wider otherMem))
      (subset entryMem) same ▸ otherMem)
  refine ⟨?_, ?_, ?_, nofun, ?_, ?_, ?_⟩
  · intro hash known
    obtain ⟨block, reached, hashEq⟩ := draining.sound hash known
    exact ⟨block, reached.mono (map_subset _ wider), hashEq⟩
  · intro waiter mem
    rw [nil_append] at mem
    rcases mem_append.mp mem with old | new
    · obtain ⟨other, otherMem, same, otherNot⟩ := draining.waiting waiter old
      exact ⟨other, wider otherMem, same, otherNot⟩
    · exact ⟨entry, entryMem, mem_singleton.mp new, notGenesis⟩
  · intro waiter mem known
    rcases mem_append.mp mem with old | new
    · exact draining.parked waiter old known
    · rw [mem_singleton.mp new] at known
      exact absurd known unknown
  · intro other otherMem reached
    rw [nil_append]
    rcases mem_append.mp otherMem with old | new
    · exact (draining.complete other old reached).imp_right (mem_append_left _)
    · rw [mem_singleton.mp new]
      exact Or.inr (mem_append_right _ mem_cons_self)
  · rw [nil_append, map_append, ← append_assoc, nodup_append]
    refine ⟨draining.readOnce, nodup_singleton _, ?_⟩
    intro pos mem other otherMem same
    rw [mem_singleton.mp otherMem] at same
    rcases mem_append.mp mem with readBefore | waits
    · obtain ⟨reader, readerMem, readerPos⟩ := draining.readScanned pos readBefore
      exact newPosition reader readerMem (readerPos.trans same)
    · obtain ⟨waiter, waiterMem, rfl⟩ := mem_map.mp waits
      obtain ⟨reader, readerMem, waiterEq, -⟩ := draining.waiting waiter waiterMem
      rw [waiterEq] at same
      exact newPosition reader readerMem same
  · intro pos mem
    obtain ⟨reader, readerMem, readerPos⟩ := draining.readScanned pos mem
    exact ⟨reader, wider readerMem, readerPos⟩

end File

/-- A block has to wait: it is not the genesis block, and its parent is not reached yet. -/
def Defers (env : ImportChain Chain Block) (hashPrevBlock : Block → Uint256)
    (acceptable : Block → Prop) (scanned : List Block) (block : Block) : Prop :=
  env.getHash block ≠ env.hashGenesisBlock ∧
    ¬ ∃ parent, Reached env hashPrevBlock acceptable scanned parent ∧
      env.getHash parent = hashPrevBlock block

open Classical in
/-- How many blocks of a file have to wait. -/
noncomputable def deferrals (env : ImportChain Chain Block) (hashPrevBlock : Block → Uint256)
    (acceptable : Block → Prop) (scanned : List Block) : List Block → Nat
  | [] => 0
  | block :: later =>
    (if Defers env hashPrevBlock acceptable scanned block then 1 else 0) +
      deferrals env hashPrevBlock acceptable (scanned ++ [block]) later

theorem deferrals_le_length (scanned later : List Block) :
    deferrals env hashPrevBlock acceptable scanned later ≤ later.length := by
  induction later generalizing scanned with
  | nil => exact Nat.le_refl _
  | cons block later ih =>
    have bound := ih (scanned ++ [block])
    rw [deferrals, length_cons]
    split <;> omega

variable (admits : AdmitsByParent env hashPrevBlock acceptable)
  (file : Readable env hashPrevBlock source fileNumber all)
  (unique : ((all.map Prod.snd).map env.getHash).Nodup)
  (draining : Draining env hashPrevBlock acceptable fileNumber all scanned state [] [])

include admits file unique draining

open Classical in
theorem Draining.record (subset : scanned ++ [entry] ⊆ all) (newEntry : entry ∉ scanned)
    (room : state.unknownParentIndex.children.length +
      (if Defers env hashPrevBlock acceptable (scanned.map Prod.snd) entry.2 then 1 else 0) ≤
        state.unknownParentIndex.maxEntries) :
    ∃ next, importRecord env source (.reindex fileNumber) state entry.1 = .ok next ∧
      Draining env hashPrevBlock acceptable fileNumber all (scanned ++ [entry]) next [] [] ∧
      next.unknownParentIndex.maxEntries = state.unknownParentIndex.maxEntries ∧
      next.unknownParentIndex.children.length ≤ state.unknownParentIndex.children.length +
        if Defers env hashPrevBlock acceptable (scanned.map Prod.snd) entry.2 then 1 else 0 := by
  have wider : scanned ⊆ all := fun other mem => subset (mem_append_left _ mem)
  have entryMem : entry ∈ all := subset (mem_append_right _ mem_cons_self)
  have indexedIff := draining.indexed_iff file wider
  by_cases defers : Defers env hashPrevBlock acceptable (scanned.map Prod.snd) entry.2
  · have unknown : ¬ Indexed env state.chain (hashPrevBlock entry.2) := by
      rw [indexedIff]
      exact defers.2
    rw [if_pos defers] at room ⊢
    exact ⟨_, importRecord_of_unknown file entryMem defers.1 unknown room,
      draining.defer file subset newEntry defers.1 unknown, rfl, length_append.le⟩
  · have known : env.getHash entry.2 = env.hashGenesisBlock ∨
        Indexed env state.chain (hashPrevBlock entry.2) := by
      rw [indexedIff]
      exact or_iff_not_imp_left.mpr fun notGenesis =>
        not_not.mp fun unreached => defers ⟨notGenesis, unreached⟩
    have newHash : ¬ Indexed env state.chain (env.getHash entry.2) := by
      rw [indexedIff]
      intro reachedHash
      obtain ⟨block, reached, sameHash⟩ := reachedHash
      obtain ⟨other, otherMem, rfl⟩ := mem_map.mp reached.mem
      rw [map_map] at unique
      have same : other = entry := inj_on_of_nodup_map unique (wider otherMem) entryMem sameHash
      exact newEntry (same ▸ otherMem)
    obtain ⟨chain, counters, indexed, imported⟩ :=
      importRecord_of_known file admits entryMem known newHash
    obtain ⟨final, drained, drainingFinal, sameLimit, fewer⟩ :=
      (draining.enter counters known indexed).drain admits file unique subset
    exact ⟨final, imported.trans drained, drainingFinal, sameLimit, Nat.le_add_right_of_le fewer⟩

theorem Draining.records {later : List (BlkRecord × Block)} (split : all = scanned ++ later)
    (room : state.unknownParentIndex.children.length +
      deferrals env hashPrevBlock acceptable (scanned.map Prod.snd) (later.map Prod.snd) ≤
        state.unknownParentIndex.maxEntries) :
    ∃ final, importScanned env source (.reindex fileNumber) state
        (later.map fun entry => .record entry.1) = ⟨final, .ok .completed⟩ ∧
      Draining env hashPrevBlock acceptable fileNumber all all final [] [] := by
  induction later generalizing scanned state with
  | nil =>
    rw [append_nil] at split
    exact ⟨state, by rw [map_nil, importScanned], split ▸ draining⟩
  | cons entry later ih =>
    have splitNext : all = (scanned ++ [entry]) ++ later := by
      rw [split, append_assoc, singleton_append]
    have subset : scanned ++ [entry] ⊆ all := splitNext ▸ subset_append_left _ _
    have newEntry : entry ∉ scanned := by
      intro mem
      have positions := file.distinct
      rw [split, map_append, map_cons, nodup_append] at positions
      exact positions.2.2 _ (mem_map_of_mem mem) _ mem_cons_self rfl
    rw [map_cons, deferrals] at room
    obtain ⟨next, imported, drainingNext, sameLimit, fewer⟩ :=
      draining.record admits file unique subset newEntry (by omega)
    have roomNext : next.unknownParentIndex.children.length +
        deferrals env hashPrevBlock acceptable ((scanned ++ [entry]).map Prod.snd)
          (later.map Prod.snd) ≤ next.unknownParentIndex.maxEntries := by
      rw [map_append, sameLimit, map_singleton]
      omega
    obtain ⟨final, scannedLater, drainingFinal⟩ := ih drainingNext splitNext roomNext
    refine ⟨final, ?_, drainingFinal⟩
    rw [map_cons, importScanned, imported]
    exact scannedLater

end Records

/-! ## Trees -/

section Trees

variable {blocks : List Block}

def ParentOf (env : ImportChain Chain Block) (hashPrevBlock : Block → Uint256)
    (blocks : List Block) (block parent : Block) : Prop :=
  block ∈ blocks ∧ parent ∈ blocks ∧ env.getHash block ≠ env.hashGenesisBlock ∧
    env.getHash parent = hashPrevBlock block

/-- A finite block tree rooted at genesis. -/
structure IsBlockTree (env : ImportChain Chain Block) (hashPrevBlock : Block → Uint256)
    (blocks : List Block) : Prop where
  unique : (blocks.map env.getHash).Nodup
  rooted : ∃ block ∈ blocks, env.getHash block = env.hashGenesisBlock
  hasParent : ∀ block ∈ blocks, env.getHash block ≠ env.hashGenesisBlock →
    ∃ parent, ParentOf env hashPrevBlock blocks block parent
  acyclic : ∃ height : Block → Nat, ∀ block parent,
    ParentOf env hashPrevBlock blocks block parent → height parent < height block

def AcceptableBranch (env : ImportChain Chain Block) (hashPrevBlock : Block → Uint256)
    (acceptable : Block → Prop) (blocks : List Block) (block : Block) : Prop :=
  ∀ ancestor, Relation.ReflTransGen (ParentOf env hashPrevBlock blocks) block ancestor →
    acceptable ancestor

theorem acceptableBranch_of_reached {block : Block} (unique : (blocks.map env.getHash).Nodup)
    (reached : Reached env hashPrevBlock acceptable blocks block) :
    AcceptableBranch env hashPrevBlock acceptable blocks block := by
  induction reached with
  | genesis mem ok isGenesis =>
    intro ancestor path
    rcases path.cases_head with same | ⟨parent, step, -⟩
    · exact same ▸ ok
    · exact absurd isGenesis step.2.2.1
  | child reachedParent mem ok parentHash ih =>
    intro ancestor path
    rcases path.cases_head with same | ⟨parent, step, later⟩
    · exact same ▸ ok
    · have sameParent := eq_of_getHash_eq unique step.2.1 reachedParent.mem
        (step.2.2.2.trans parentHash.symm)
      exact ih ancestor (sameParent ▸ later)

theorem IsBlockTree.reached_iff (tree : IsBlockTree env hashPrevBlock blocks) {block : Block} :
    Reached env hashPrevBlock acceptable blocks block ↔
      block ∈ blocks ∧ AcceptableBranch env hashPrevBlock acceptable blocks block := by
  constructor
  · intro reached
    exact ⟨reached.mem, acceptableBranch_of_reached tree.unique reached⟩
  · intro branch
    obtain ⟨height, decreasing⟩ := tree.acyclic
    -- By induction on the height of the block.
    generalize measured : height block = size
    induction size using Nat.strong_induction_on generalizing block with
    | _ size ih =>
      have ok := branch.2 block .refl
      by_cases isGenesis : env.getHash block = env.hashGenesisBlock
      · exact .genesis branch.1 ok isGenesis
      · obtain ⟨parent, step⟩ := tree.hasParent block branch.1 isGenesis
        have smaller : height parent < size := measured ▸ decreasing block parent step
        have parentBranch : parent ∈ blocks ∧
            AcceptableBranch env hashPrevBlock acceptable blocks parent :=
          ⟨step.2.1, fun ancestor path => branch.2 ancestor (path.head step)⟩
        exact .child (ih _ smaller parentBranch rfl) branch.1 ok step.2.2.2

/-- A reindex of a file with the blocks of a tree, in any order. -/
theorem importExternalBlockFile_admits (admits : AdmitsByParent env hashPrevBlock acceptable)
    (tree : IsBlockTree env hashPrevBlock blocks) {chain : Chain}
    (fresh : ∀ hash, ¬ Indexed env chain hash) {source : BlockFileSource Block}
    {fileNumber : Int32} {entries : List (BlkRecord × Block)}
    (file : Readable env hashPrevBlock source fileNumber entries)
    (order : (entries.map Prod.snd).Perm blocks) {maxEntries : Nat}
    (room : deferrals env hashPrevBlock acceptable [] (entries.map Prod.snd) < maxEntries) :
    ∃ counters final, importExternalBlockFile env source (.reindex fileNumber) chain
        ⟨maxEntries, []⟩ (entries.map fun entry => .record entry.1) =
          (.ok ⟨.completed, counters⟩, final) ∧
      (∀ hash, Indexed env final.chain hash ↔ ∃ block ∈ blocks, env.getHash block = hash ∧
        AcceptableBranch env hashPrevBlock acceptable blocks block) ∧
      final.positionsRead.Nodup := by
  have unique : ((entries.map Prod.snd).map env.getHash).Nodup :=
    (order.map env.getHash).nodup_iff.mpr tree.unique
  have start : Draining env hashPrevBlock acceptable fileNumber entries []
      ⟨chain, ⟨maxEntries, []⟩, {}, []⟩ [] [] :=
    ⟨fun hash known => absurd known (fresh hash), nofun, nofun, nofun, nofun, nodup_nil, nofun⟩
  have roomStart : 0 + deferrals env hashPrevBlock acceptable [] (entries.map Prod.snd) ≤
      maxEntries := by
    omega
  obtain ⟨final, scanned, draining⟩ := start.records admits file unique rfl roomStart
  refine ⟨final.counters, final, ?_, ?_, ?_⟩
  · rw [importExternalBlockFile, scanned]
    rfl
  · intro hash
    rw [draining.indexed_iff file (List.Subset.refl _)]
    constructor
    · intro reachedHash
      obtain ⟨block, reached, hashEq⟩ := reachedHash
      have branch := tree.reached_iff.mp (reached.mono order.subset)
      exact ⟨block, branch.1, hashEq, branch.2⟩
    · intro acceptableBlock
      obtain ⟨block, mem, hashEq, branch⟩ := acceptableBlock
      exact ⟨block, (tree.reached_iff.mpr ⟨mem, branch⟩).mono order.symm.subset, hashEq⟩
  · exact (nodup_append.mp draining.readOnce).1

/-- A reindex does not depend on the order of the records.  It completes and admits exactly
the blocks that are acceptable with all their ancestors, and it reads each position that was
put aside at most once. -/
theorem importExternalBlockFile_orderIndependent
    (admits : AdmitsByParent env hashPrevBlock acceptable)
    (tree : IsBlockTree env hashPrevBlock blocks) {chain : Chain}
    (fresh : ∀ hash, ¬ Indexed env chain hash) {maxEntries : Nat}
    {source otherSource : BlockFileSource Block} {fileNumber otherNumber : Int32}
    {entries otherEntries : List (BlkRecord × Block)}
    (file : Readable env hashPrevBlock source fileNumber entries)
    (otherFile : Readable env hashPrevBlock otherSource otherNumber otherEntries)
    (order : (entries.map Prod.snd).Perm blocks)
    (otherOrder : (otherEntries.map Prod.snd).Perm blocks)
    (room : deferrals env hashPrevBlock acceptable [] (entries.map Prod.snd) < maxEntries)
    (otherRoom : deferrals env hashPrevBlock acceptable [] (otherEntries.map Prod.snd) <
      maxEntries) :
    ∃ counters final otherCounters otherFinal,
      importExternalBlockFile env source (.reindex fileNumber) chain ⟨maxEntries, []⟩
        (entries.map fun entry => .record entry.1) = (.ok ⟨.completed, counters⟩, final) ∧
      importExternalBlockFile env otherSource (.reindex otherNumber) chain ⟨maxEntries, []⟩
        (otherEntries.map fun entry => .record entry.1) =
          (.ok ⟨.completed, otherCounters⟩, otherFinal) ∧
      (∀ hash, Indexed env final.chain hash ↔ Indexed env otherFinal.chain hash) ∧
      (∀ hash, Indexed env final.chain hash ↔ ∃ block ∈ blocks, env.getHash block = hash ∧
        AcceptableBranch env hashPrevBlock acceptable blocks block) ∧
      final.positionsRead.Nodup ∧ otherFinal.positionsRead.Nodup := by
  obtain ⟨counters, final, imported, indexed, readOnce⟩ :=
    importExternalBlockFile_admits admits tree fresh file order room
  obtain ⟨otherCounters, otherFinal, otherImported, otherIndexed, otherReadOnce⟩ :=
    importExternalBlockFile_admits admits tree fresh otherFile otherOrder otherRoom
  exact ⟨counters, final, otherCounters, otherFinal, imported, otherImported,
    fun hash => (indexed hash).trans (otherIndexed hash).symm, indexed, readOnce, otherReadOnce⟩

end Trees

/-! ## A file with three blocks -/

/-- A chain that keeps the hashes of the admitted blocks.  The block with hash 3 is not
acceptable. -/
def sampleImportChain : ImportChain (List Uint256) (Uint256 × Uint256) where
  hashGenesisBlock := 1
  getHash := Prod.fst
  lookupBlockIndex chain hash := if hash ∈ chain then some ⟨true, 0⟩ else none
  acceptBlock chain block _ :=
    if block.1 ≠ 3 ∧ (block.1 = 1 ∨ block.2 ∈ chain) then
      (⟨.blockDataStored, false, ""⟩, block.1 :: chain)
    else (⟨.blockRejected, false, ""⟩, chain)
  activeHeight _ := 0
  activateBestChain := .ok
  isPruneMode _ := false
  hasIndexedBlockFiles _ := false
  activateBestChains := .ok
  interrupted _ := false

/-- Two children before the genesis block. -/
def sampleFile : List (BlkRecord × (Uint256 × Uint256)) :=
  [(⟨8, 1, 2⟩, (2, 1)), (⟨108, 1, 3⟩, (3, 1)), (⟨208, 0, 1⟩, (1, 0))]

def sampleFileSource : BlockFileSource (Uint256 × Uint256) where
  readBlock record := .ok (record.hash, record.hashPrevBlock)
  readBlockFromPosition pos :=
    (sampleFile.find? fun entry => filePos 0 entry == pos).map Prod.snd

theorem sampleImportChain_admits :
    AdmitsByParent sampleImportChain Prod.snd fun block => block.1 ≠ 3 := by
  have indexed : ∀ chain hash, Indexed sampleImportChain chain hash ↔ hash ∈ chain := by
    intro chain hash
    simp [Indexed, sampleImportChain]
  refine ⟨?_, ?_, ?_, ?_, ?_⟩
  · intro chain block pos admissible
    have ok : block.1 ≠ 3 ∧ (block.1 = 1 ∨ block.2 ∈ chain) :=
      ⟨admissible.1, admissible.2.imp_right (indexed chain _).mp⟩
    have stored : sampleImportChain.acceptBlock chain block pos =
        (⟨.blockDataStored, false, ""⟩, block.1 :: chain) := if_pos ok
    rw [stored]
    refine ⟨rfl, Or.inl rfl, ?_⟩
    intro hash
    rw [indexed, indexed, mem_cons]
    rfl
  · intro chain block pos inadmissible
    have refused : ¬ (block.1 ≠ 3 ∧ (block.1 = 1 ∨ block.2 ∈ chain)) := by
      intro ok
      exact inadmissible ⟨ok.1, ok.2.imp_right (indexed chain _).mpr⟩
    have rejected : sampleImportChain.acceptBlock chain block pos =
        (⟨.blockRejected, false, ""⟩, chain) := if_neg refused
    rw [rejected]
    exact ⟨rfl, Or.inr rfl, fun _ => Iff.rfl⟩
  · intro chain
    exact ⟨chain, rfl, fun _ => Iff.rfl⟩
  · intro chain
    exact ⟨chain, rfl, fun _ => Iff.rfl⟩
  · intro chain
    rfl

theorem sampleFile_readable : Readable sampleImportChain Prod.snd sampleFileSource 0 sampleFile := by
  have entries : ∀ entry ∈ sampleFile, entry = (⟨8, 1, 2⟩, (2, 1)) ∨
      entry = (⟨108, 1, 3⟩, (3, 1)) ∨ entry = (⟨208, 0, 1⟩, (1, 0)) := by
    intro entry mem
    simpa [sampleFile] using mem
  refine ⟨?_, ?_, ?_, ?_, ?_, by decide +kernel⟩
  all_goals
    intro entry mem
    rcases entries entry mem with rfl | rfl | rfl <;> first | rfl | decide +kernel

theorem sampleFile_tree : IsBlockTree sampleImportChain Prod.snd (sampleFile.map Prod.snd) := by
  let genesis := sampleImportChain.hashGenesisBlock
  have genesisMem : (genesis, (0 : Uint256)) ∈ sampleFile.map Prod.snd := by decide +kernel
  have parents : ∀ block ∈ sampleFile.map Prod.snd, block.1 ≠ genesis → block.2 = genesis := by
    intro block mem notGenesis
    have entries : block = (2, 1) ∨ block = (3, 1) ∨ block = (1, 0) := by
      simpa [sampleFile] using mem
    rcases entries with rfl | rfl | rfl
    · rfl
    · rfl
    · exact absurd rfl notGenesis
  refine ⟨by decide +kernel, ⟨(genesis, 0), genesisMem, rfl⟩, ?_,
    fun block => if block.1 = genesis then 0 else 1, ?_⟩
  · intro block mem notGenesis
    exact ⟨(genesis, 0), mem, genesisMem, notGenesis, (parents block mem notGenesis).symm⟩
  · intro block parent step
    have isRoot : parent.1 = genesis :=
      (step.2.2.2 : parent.1 = block.2).trans (parents block step.1 step.2.2.1)
    have notRoot : ¬ block.1 = genesis := step.2.2.1
    dsimp only
    rw [if_pos isRoot, if_neg notRoot]
    exact Nat.one_pos

/-- The sample file, and the file once more with the genesis block first. -/
theorem importExternalBlockFile_orderIndependent_sampleFile :
    ∃ counters final otherCounters otherFinal,
      importExternalBlockFile sampleImportChain sampleFileSource (.reindex 0) [] ⟨10, []⟩
        (sampleFile.map fun entry => .record entry.1) = (.ok ⟨.completed, counters⟩, final) ∧
      importExternalBlockFile sampleImportChain sampleFileSource (.reindex 0) [] ⟨10, []⟩
        (sampleFile.reverse.map fun entry => .record entry.1) =
          (.ok ⟨.completed, otherCounters⟩, otherFinal) ∧
      ∀ hash, Indexed sampleImportChain final.chain hash ↔
        Indexed sampleImportChain otherFinal.chain hash := by
  have reversed : Readable sampleImportChain Prod.snd sampleFileSource 0 sampleFile.reverse :=
    sampleFile_readable.perm (reverse_perm sampleFile).symm
  have room : ∀ blocks : List (Uint256 × Uint256), blocks.length = 3 →
      deferrals sampleImportChain Prod.snd (fun block => block.1 ≠ 3) [] blocks < 10 := by
    intro blocks length
    have bound : deferrals sampleImportChain Prod.snd (fun block => block.1 ≠ 3) [] blocks ≤
        blocks.length := deferrals_le_length [] blocks
    omega
  have fresh : ∀ hash, ¬ Indexed sampleImportChain [] hash := by
    intro hash known
    exact known rfl
  obtain ⟨counters, final, otherCounters, otherFinal, imported, otherImported, same, -⟩ :=
    importExternalBlockFile_orderIndependent sampleImportChain_admits sampleFile_tree
      fresh sampleFile_readable reversed (List.Perm.refl _)
      ((reverse_perm sampleFile).map Prod.snd) (room _ rfl) (room _ rfl)
  exact ⟨counters, final, otherCounters, otherFinal, imported, otherImported, same⟩

end Order

end Champy
