import Champy.BlockLedger
import Champy.SegmentSpend

/-!
# What the plan of a segment says

The walk of `PlanSegmentSpendInputs` keeps the outputs of the segment that are
unspent and the outpoints that were modified.  Together with the snapshot they mean
a ledger: an outpoint holds the unspent output of the segment, or nothing if it was
modified, or else what the snapshot holds.  Every transaction acts on that ledger as
its transfer, and every input is sorted by what the ledger holds for it.
-/

namespace Champy

open List SegmentSpendInputPlan SegmentPlanning

/-- The coin and time of an output of the segment. -/
def SegmentCreatedOutput.snapshot (output : SegmentCreatedOutput) : SegmentCoinSnapshot :=
  ⟨output.coin, output.previousMedianTimePast⟩

/-- The unspent outputs with the times that a segment keeps of them. -/
abbrev SegmentLedger : Type := Ledger COutPoint SegmentCoinSnapshot

/-- The transfer of a transaction, with the time of its block. -/
def segmentTransfer (context : SegmentBlockContext) (tx : CTransaction) :
    Transfer COutPoint SegmentCoinSnapshot :=
  ⟨tx.spentOutpoints, (createdCoinEffects tx context.height).map fun create =>
    (create.outpoint, ⟨create.coin, context.previousMedianTimePast⟩)⟩

def SegmentBlockView.transfers (block : SegmentBlockView) :
    List (Transfer COutPoint SegmentCoinSnapshot) :=
  block.transactions.map (segmentTransfer block.context)

theorem segmentOutputs_creates (ctx : SegmentBlockContext) (index : Nat) (tx : CTransaction × Nat) :
    (segmentOutputs ctx index tx).map (fun output => (output.outpoint, output.snapshot)) =
      (segmentTransfer ctx tx.1).creates := by
  rw [segmentTransfer, segmentOutputs, createdCoinEffects, map_filterMap, map_filterMap]
  apply filterMap_congr
  intro output _
  split <;> rfl

theorem segmentLookups_outpoints (index : Nat) (tx : CTransaction × Nat) :
    (segmentLookups index tx).map (fun lookup => lookup.lookup.outpoint) = tx.1.spentOutpoints := by
  rw [segmentLookups, transactionLookups, map_map, map_map]
  exact zipIdx_map_fst 0 _

namespace SegmentPlanning

/-- The ledger that a point of the walk means. -/
def view (snapshot : SegmentLedger) (state : SegmentPlanning) :
    SegmentLedger :=
  fun outpoint =>
    match state.unspentSegmentOutputs.lookup outpoint with
    | some output => some output.snapshot
    | none => if outpoint ∈ state.modifiedBeforeTransaction then none else snapshot outpoint

section View

variable {snap : SegmentLedger} {state : SegmentPlanning}
  {outputs : List SegmentCreatedOutput}

theorem view_eq_none {point : COutPoint} : state.view snap point = none ↔
      state.unspentSegmentOutputs.lookup point = none ∧
        (point ∉ state.modifiedBeforeTransaction → snap point = none) := by
  unfold view
  cases state.unspentSegmentOutputs.lookup point with
  | some output => simp
  | none => by_cases seen : point ∈ state.modifiedBeforeTransaction <;> simp [seen]

theorem planLookup_cases (outputs : List SegmentCreatedOutput) (state : SegmentPlanning)
    (lookup : SegmentSpentOutputLookup) :
    (∃ output, state.unspentSegmentOutputs.lookup lookup.lookup.outpoint = some output ∧
      state.planLookup outputs lookup = state.planDependency lookup output) ∨
    (state.unspentSegmentOutputs.lookup lookup.lookup.outpoint = none ∧
      lookup.lookup.outpoint ∈ state.modifiedBeforeTransaction ∧
      state.planLookup outputs lookup = state.planDuplicate lookup) ∨
    (state.unspentSegmentOutputs.lookup lookup.lookup.outpoint = none ∧
      lookup.lookup.outpoint ∉ state.modifiedBeforeTransaction ∧
      state.planLookup outputs lookup = state.planExternal outputs lookup) := by
  unfold planLookup
  cases held : state.unspentSegmentOutputs.lookup lookup.lookup.outpoint with
  | some output => exact Or.inl ⟨output, rfl, rfl⟩
  | none =>
    by_cases seen : lookup.lookup.outpoint ∈ state.modifiedBeforeTransaction
    · exact Or.inr (Or.inl ⟨rfl, seen, if_pos seen⟩)
    · exact Or.inr (Or.inr ⟨rfl, seen, if_neg seen⟩)

theorem view_planLookup (lookup : SegmentSpentOutputLookup) :
    (state.planLookup outputs lookup).view snap =
      Function.update (state.view snap) lookup.lookup.outpoint none := by
  funext point
  by_cases same : point = lookup.lookup.outpoint
  · rw [same, Function.update_self, view_eq_none]
    rcases planLookup_cases outputs state lookup with
      ⟨output, held, planned⟩ | ⟨held, seen, planned⟩ | ⟨held, seen, planned⟩
    · rw [planned]
      simp [planDependency, modified]
    · rw [planned]
      exact ⟨held, fun unseen => absurd seen unseen⟩
    · rw [planned]
      simp [planExternal, modified, held]
  · rw [Function.update_of_ne same]
    rcases planLookup_cases outputs state lookup with
      ⟨output, held, planned⟩ | ⟨held, seen, planned⟩ | ⟨held, seen, planned⟩
    · rw [planned]
      simp [view, planDependency, modified, same, Finmap.lookup_erase_ne same]
    · rw [planned]
      rfl
    · rw [planned]
      simp [view, planExternal, modified, same]

theorem view_planOutput (output : SegmentCreatedOutput) : (state.planOutput output).view snap =
      Function.update (state.view snap) output.outpoint (some output.snapshot) := by
  funext point
  unfold planOutput
  by_cases same : point = output.outpoint
  · subst same
    simp [view]
  · simp [view, modified, same, Finmap.lookup_insert_of_ne _ same]

theorem view_foldl_planLookup (lookups : List SegmentSpentOutputLookup) (state : SegmentPlanning) :
    (lookups.foldl (planLookup outputs) state).view snap =
      (state.view snap).without (lookups.map fun lookup => lookup.lookup.outpoint) := by
  induction lookups generalizing state with
  | nil => exact (Ledger.without_nil _).symm
  | cons lookup lookups ih =>
    rw [foldl_cons, ih, view_planLookup, Ledger.without_update]
    rfl

theorem view_foldl_planOutput (outputs : List SegmentCreatedOutput) (state : SegmentPlanning) :
    (outputs.foldl planOutput state).view snap =
      (state.view snap).adding (outputs.map fun output => (output.outpoint, output.snapshot)) := by
  induction outputs generalizing state with
  | nil => rfl
  | cons output outputs ih =>
    rw [foldl_cons, ih, view_planOutput]
    rfl

theorem view_planTransaction (ctx : SegmentBlockContext) (index : Nat) (tx : CTransaction × Nat) :
    (state.planTransaction outputs ctx index tx).view snap =
      (state.view snap).after (segmentTransfer ctx tx.1) := by
  rw [planTransaction, view_foldl_planOutput, view_foldl_planLookup, segmentOutputs_creates,
    segmentLookups_outpoints]
  rfl

end View

end SegmentPlanning

/-! ## Sorting the inputs -/

/-- What the inputs of each block find when their turn comes. -/
def resolvedBlocks (ledger : SegmentLedger) :
    List SegmentBlockView → List (List (List (Option SegmentCoinSnapshot)))
  | [] => []
  | block :: blocks =>
    ledger.resolved block.transfers :: resolvedBlocks (ledger.afterAll block.transfers) blocks

def SegmentSpentOutputLookup.place (lookup : SegmentSpentOutputLookup) : Nat × Nat × Nat :=
  (lookup.blockIndex, lookup.lookup.transactionIndex, lookup.lookup.inputIndex)

/-- The entry at a place of a grid of answers. -/
def answerAt (answers : List (List (List (Option SegmentCoinSnapshot))))
    (place : Nat × Nat × Nat) : Option SegmentCoinSnapshot :=
  ((answers[place.1]?.bind fun rows => rows[place.2.1]?).bind fun row => row[place.2.2]?).join

def segmentBlockLookups (block : SegmentBlockView × Nat) : List SegmentSpentOutputLookup :=
  block.1.transactions.zipIdx.flatMap (segmentLookups block.2)

/-- The lookups of a plan with the answers that it gives to them. -/
def SegmentSpendInputPlan.entries (snapshot : SegmentLedger)
    (plan : SegmentSpendInputPlan) :
    List (SegmentSpentOutputLookup × Option SegmentCoinSnapshot) :=
  plan.externalLookups.map (fun lookup => (lookup, snapshot lookup.lookup.outpoint)) ++
    (plan.intraSegmentDependencies.map (fun dependency =>
      (dependency.lookup, some dependency.createdOutput.snapshot)) ++
    plan.duplicateSpends.map (fun lookup => (lookup, none)))

theorem SegmentSpendInputPlan.mem_entries {snap : SegmentLedger}
    {plan : SegmentSpendInputPlan} {lookup : SegmentSpentOutputLookup}
    {answer : Option SegmentCoinSnapshot} :
    (lookup, answer) ∈ plan.entries snap ↔
      lookup ∈ plan.externalLookups ∧ answer = snap lookup.lookup.outpoint ∨
      (∃ dependency ∈ plan.intraSegmentDependencies, dependency.lookup = lookup ∧
        answer = some dependency.createdOutput.snapshot) ∨
      lookup ∈ plan.duplicateSpends ∧ answer = none := by
  simp only [entries, mem_append, mem_map, Prod.mk.injEq, eq_comm (b := answer)]
  simp [← and_assoc]

/-- A plan answers the lookups seen so far as a grid does. -/
def Answers (snapshot : SegmentLedger)
    (answers : List (List (List (Option SegmentCoinSnapshot))))
    (seen : List SegmentSpentOutputLookup) (plan : SegmentSpendInputPlan) : Prop :=
  ∀ lookup answer, (lookup, answer) ∈ plan.entries snapshot ↔
    lookup ∈ seen ∧ answer = answerAt answers lookup.place

namespace SegmentPlanning

section Sorting

variable {snap : SegmentLedger} {state : SegmentPlanning}
  {outputs : List SegmentCreatedOutput}
  {answers : List (List (List (Option SegmentCoinSnapshot)))}
  {seen : List SegmentSpentOutputLookup}

variable {lookup : SegmentSpentOutputLookup} {index : Nat}

/-- An input is answered by the ledger at its turn. -/
theorem mem_entries_planLookup {entry : SegmentSpentOutputLookup × Option SegmentCoinSnapshot} :
    entry ∈ (state.planLookup outputs lookup).plan.entries snap ↔ entry ∈ state.plan.entries snap ∨
        entry = (lookup, state.view snap lookup.lookup.outpoint) := by
  rcases planLookup_cases outputs state lookup with
    ⟨output, held, planned⟩ | ⟨held, seen, planned⟩ | ⟨held, seen, planned⟩
  · have answer : state.view snap lookup.lookup.outpoint = some output.snapshot := by
      simp [view, held]
    rw [planned, answer]
    simp only [entries, planDependency, map_append, mem_append, map_cons, map_nil, mem_singleton]
    tauto
  · have answer : state.view snap lookup.lookup.outpoint = none := by
      simp [view, held, seen]
    rw [planned, answer]
    simp only [entries, planDuplicate, map_append, mem_append, map_cons, map_nil, mem_singleton]
    tauto
  · have answer : state.view snap lookup.lookup.outpoint = snap lookup.lookup.outpoint := by
      simp [view, held, seen]
    rw [planned, answer]
    simp only [entries, planExternal, map_append, mem_append, map_cons, map_nil, mem_singleton]
    tauto

theorem answers_planLookup (sorted : Answers snap answers seen state.plan)
    (answer : answerAt answers lookup.place = state.view snap lookup.lookup.outpoint) :
    Answers snap answers (seen ++ [lookup]) (state.planLookup outputs lookup).plan := by
  intro other otherAnswer
  rw [mem_entries_planLookup, sorted other otherAnswer, mem_append, mem_singleton,
    Prod.mk.injEq, ← answer]
  constructor
  · rintro (⟨before, eq⟩ | ⟨rfl, eq⟩)
    · exact ⟨Or.inl before, eq⟩
    · exact ⟨Or.inr rfl, eq⟩
  · rintro ⟨before | rfl, eq⟩
    · exact Or.inl ⟨before, eq⟩
    · exact Or.inr ⟨rfl, eq⟩

theorem answers_foldl_planLookup {lookups : List SegmentSpentOutputLookup}
    (sorted : Answers snap answers seen state.plan)
    (nodup : (lookups.map fun lookup => lookup.lookup.outpoint).Nodup)
    (answer : ∀ lookup ∈ lookups,
      answerAt answers lookup.place = state.view snap lookup.lookup.outpoint) :
    Answers snap answers (seen ++ lookups) (lookups.foldl (planLookup outputs) state).plan := by
  induction lookups generalizing state seen with
  | nil => rwa [append_nil]
  | cons lookup lookups ih =>
    obtain ⟨notLater, nodup⟩ := nodup_cons.mp nodup
    rw [forall_mem_cons] at answer
    have later : ∀ other ∈ lookups, answerAt answers other.place =
        (state.planLookup outputs lookup).view snap other.lookup.outpoint := by
      intro other mem
      have ne : other.lookup.outpoint ≠ lookup.lookup.outpoint := by
        intro same
        exact notLater (mem_map.mpr ⟨other, mem, same⟩)
      rw [view_planLookup, Function.update_of_ne ne, answer.2 other mem]
    have rests := ih (answers_planLookup sorted answer.1) nodup later
    rwa [append_assoc, singleton_append] at rests

theorem plan_foldl_planOutput (outputs : List SegmentCreatedOutput) (state : SegmentPlanning) :
    (outputs.foldl planOutput state).plan = state.plan := by
  induction outputs generalizing state with
  | nil => rfl
  | cons output outputs ih => exact ih _

theorem mem_segmentLookups {transactionIndex : Nat} {tx : CTransaction} :
    lookup ∈ segmentLookups index (tx, transactionIndex) ↔
      lookup.blockIndex = index ∧ lookup.lookup.transactionIndex = transactionIndex ∧
        tx.spentOutpoints[lookup.lookup.inputIndex]? = some lookup.lookup.outpoint := by
  rw [segmentLookups, transactionLookups, map_map, mem_map]
  constructor
  · rintro ⟨⟨point, inputIndex⟩, mem, rfl⟩
    exact ⟨rfl, rfl, mem_zipIdx_iff_getElem?.mp mem⟩
  · rintro ⟨rfl, rfl, found⟩
    exact ⟨(lookup.lookup.outpoint, lookup.lookup.inputIndex),
      mem_zipIdx_iff_getElem?.mpr found, rfl⟩

variable {rows : List (List (Option SegmentCoinSnapshot))} {ctx : SegmentBlockContext}

/-- One transaction whose row of the grid is what the ledger holds. -/
theorem answers_planTransaction {tx : CTransaction × Nat}
    (sorted : Answers snap answers seen state.plan) (nodup : tx.1.spentOutpoints.Nodup)
    (block : answers[index]? = some rows)
    (row : rows[tx.2]? = some (tx.1.spentOutpoints.map (state.view snap))) :
    Answers snap answers (seen ++ segmentLookups index tx)
      (state.planTransaction outputs ctx index tx).plan := by
  rw [planTransaction, plan_foldl_planOutput]
  apply answers_foldl_planLookup sorted
  · rw [segmentLookups_outpoints]
    exact nodup
  · intro lookup mem
    obtain ⟨blockEq, transactionEq, found⟩ := mem_segmentLookups.mp mem
    rw [answerAt, SegmentSpentOutputLookup.place, blockEq, transactionEq, block, Option.bind_some,
      row, Option.bind_some, getElem?_map, found]
    rfl

theorem view_foldl_planTransaction (ctx : SegmentBlockContext) (index : Nat)
    (txs : List (CTransaction × Nat)) (state : SegmentPlanning) :
    (txs.foldl (planTransaction outputs ctx index) state).view snap =
      (state.view snap).afterAll (txs.map fun tx => segmentTransfer ctx tx.1) := by
  induction txs generalizing state with
  | nil => rfl
  | cons tx txs ih =>
    rw [foldl_cons, ih, view_planTransaction]
    rfl

theorem drop_cons {α : Type} {entries rest : List α} {index : Nat} {first : α}
    (dropped : entries.drop index = first :: rest) :
    entries[index]? = some first ∧ entries.drop (index + 1) = rest := by
  have head := congrArg head? dropped
  have tail := congrArg tail dropped
  rw [head?_drop] at head
  rw [tail_drop] at tail
  exact ⟨head, tail⟩

theorem answers_foldl_planTransaction (block : answers[index]? = some rows)
    {txs : List CTransaction} {start : Nat}
    (nodup : ∀ tx ∈ txs, tx.spentOutpoints.Nodup)
    (sorted : Answers snap answers seen state.plan)
    (rest : rows.drop start = (state.view snap).resolved (txs.map (segmentTransfer ctx))) :
    Answers snap answers (seen ++ (txs.zipIdx start).flatMap (segmentLookups index))
      ((txs.zipIdx start).foldl (planTransaction outputs ctx index) state).plan := by
  induction txs generalizing state seen start with
  | nil => simpa using sorted
  | cons tx txs ih =>
    rw [forall_mem_cons] at nodup
    rw [map_cons, Ledger.resolved] at rest
    obtain ⟨row, later⟩ := drop_cons rest
    have viewNext : (state.planTransaction outputs ctx index (tx, start)).view
        snap = (state.view snap).after (segmentTransfer ctx tx) :=
      view_planTransaction ctx index (tx, start)
    rw [← viewNext] at later
    rw [zipIdx_cons, flatMap_cons, foldl_cons, ← append_assoc]
    exact ih nodup.2 (answers_planTransaction sorted nodup.1 block row) later

variable (modifiedBeforeBlock : Finset COutPoint) (block : SegmentBlockView × Nat)

theorem view_beginBlock :
    (state.beginBlock modifiedBeforeBlock block).view snap = state.view snap := by
  unfold beginBlock planOverwriteChecks
  split <;> rfl

theorem entries_beginBlock :
    (state.beginBlock modifiedBeforeBlock block).plan.entries snap = state.plan.entries snap := by
  unfold beginBlock planOverwriteChecks
  split <;> rfl

theorem zipIdx_transfers (block : SegmentBlockView) (start : Nat) :
    (block.transactions.zipIdx start).map (fun tx => segmentTransfer block.context tx.1) =
      block.transfers := by
  have firsts := congrArg (map (segmentTransfer block.context))
    (zipIdx_map_fst start block.transactions)
  rwa [map_map] at firsts

theorem view_planBlock (snap : SegmentLedger) (outputs : List SegmentCreatedOutput)
    (state : SegmentPlanning × Finset COutPoint) (block : SegmentBlockView) (index : Nat) :
    (planBlock outputs state (block, index)).1.view snap =
      (state.1.view snap).afterAll block.transfers := by
  rw [planBlock, view_foldl_planTransaction, zipIdx_transfers, view_beginBlock]

theorem answers_foldl_planBlock {blocks : List SegmentBlockView} {start : Nat}
    {state : SegmentPlanning × Finset COutPoint}
    (nodup : ∀ block ∈ blocks, ∀ tx ∈ block.transactions, tx.spentOutpoints.Nodup)
    (sorted : Answers snap answers seen state.1.plan)
    (rest : answers.drop start = resolvedBlocks (state.1.view snap) blocks) :
    Answers snap answers (seen ++ (blocks.zipIdx start).flatMap segmentBlockLookups)
      ((blocks.zipIdx start).foldl (planBlock outputs) state).1.plan := by
  induction blocks generalizing state seen start with
  | nil => simpa using sorted
  | cons block blocks ih =>
    rw [forall_mem_cons] at nodup
    rw [resolvedBlocks] at rest
    obtain ⟨rows, later⟩ := drop_cons rest
    have sortedStart : Answers snap answers seen
        (state.1.beginBlock state.2 (block, start)).plan := by
      intro lookup answer
      rw [entries_beginBlock]
      exact sorted lookup answer
    have rowsStart : ((state.1.view snap).resolved block.transfers).drop 0 =
        ((state.1.beginBlock state.2 (block, start)).view snap).resolved
          (block.transactions.map (segmentTransfer block.context)) := by
      rw [drop_zero, view_beginBlock]
      rfl
    have sortedBlock : Answers snap answers (seen ++ segmentBlockLookups (block, start))
        (planBlock outputs state (block, start)).1.plan :=
      answers_foldl_planTransaction rows nodup.1 sortedStart rowsStart
    rw [← view_planBlock snap outputs state block start] at later
    rw [zipIdx_cons, flatMap_cons, foldl_cons, ← append_assoc]
    exact ih nodup.2 sortedBlock later

end Sorting

end SegmentPlanning

def segmentAllLookups (blocks : List SegmentBlockView) : List SegmentSpentOutputLookup :=
  blocks.zipIdx.flatMap segmentBlockLookups

/-- The plan of a segment answers each lookup with what the ledger holds when its
turn comes, if no transaction spends an outpoint twice. -/
theorem answers_planSegmentSpendInputs {blocks : List SegmentBlockView} (snap : SegmentLedger)
    (nodup : ∀ block ∈ blocks, ∀ tx ∈ block.transactions, tx.spentOutpoints.Nodup) :
    Answers snap (resolvedBlocks snap blocks) (segmentAllLookups blocks)
      (planSegmentSpendInputs blocks) := by
  have nothingSeen : Answers snap (resolvedBlocks snap blocks) []
      (start (extractSegmentCreatedOutputs blocks)).1.plan := by
    intro lookup answer
    simp [entries, start]
  have allRows : (resolvedBlocks snap blocks).drop 0 = resolvedBlocks
      ((start (extractSegmentCreatedOutputs blocks)).1.view snap) blocks :=
    rfl
  exact answers_foldl_planBlock nodup nothingSeen allRows

end Champy
