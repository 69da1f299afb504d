import Champy.BlockTree
import Champy.MeasuredLoops
import Champy.Primitives
import Champy.StoppingLoops

/-!
# One step towards the best chain

`ActivateCoreBestChainStepWithFork` disconnects blocks down to the fork of the active chain and the
most-work candidate, and connects the ancestors of the candidate in batches of at most 32.  A
batch is collected from its last block back, and connected the other way round.
-/

namespace Champy

open Exec

/-- How the connection of a block ends.  `mutated` is `BLOCK_MUTATED`; a block that cannot be
read is a system error. -/
inductive ConnectOutcome where
  | connected
  | invalid (mutated : Bool)
  | systemError

inductive ActivationError where
  | systemError

/-- The results of the disconnections and connections that a step may make, and the work. -/
structure ActivationEnv (Block : Type) where
  disconnects : Block → Bool
  connects : Block → ConnectOutcome
  nChainWork : Block → Uint256

/-- What a step changes: the active tip, the blocks in the order in which they were
disconnected and connected, and the block given to `MarkInvalidChainFound`. -/
structure ChainActivation (Block : Type) where
  tip : Option Block
  disconnected : List Block
  connected : List Block := []
  invalidChain : Option Block := none
  invalidChainFound : Bool := false

namespace BlockTree

section Step

variable {Block ε : Type} (tree : BlockTree Block)

/-- A walk along parents: the blocks that it passes, and the one it stops at. -/
def walkWhile (passes : Block → Bool) (visit : Block → Exec ε Unit) (start : Option Block) :
    Exec ε (List Block × Option Block) :=
  match start with
  | none => .ok ([], none)
  | some block =>
    if passes block then do
      visit block
      let (passed, stop) ← walkWhile passes visit (tree.pprev block)
      pure (block :: passed, stop)
    else .ok ([], some block)
  termination_by start.elim 0 (tree.nHeight · + 1)
  decreasing_by exact tree.pprev_elim_lt block

/-- `CChain::Height`, for the chain that ends with a block. -/
def chainHeight (tip : Option Block) : Int :=
  tip.elim (-1) (tree.nHeight ·)

variable [DecidableEq Block] (env : ActivationEnv Block)

def disconnectTip (block : Block) : Exec ActivationError Unit := do
  assertThat (tree.pprev block).isSome
  ensure (env.disconnects block) .systemError

/-- The blocks above `height` that come next, the last one first, and the new height. -/
def nextCoreChainConnectBatch (candidate : Block) (height : Int) :
    Exec ActivationError (List Block × Int) := do
  let limit ← checkedInt32 (height + 32)
  let target := min limit.toInt (tree.nHeight candidate)
  let (blocks, _) ← tree.walkWhile (fun block => tree.nHeight block != height) (fun _ => .ok ())
    (tree.getAncestor candidate target)
  pure (blocks, target)

/-- One block of a batch that starts with `front`, and whether the step goes on. -/
def connectTip (oldTip front : Option Block) (state : ChainActivation Block) (block : Block) :
    Exec ActivationError (Bool × ChainActivation Block) := do
  assertThat (tree.pprev block == state.tip)
  match env.connects block with
  | .systemError => reject .systemError
  | .invalid mutated =>
    pure (false, { state with
      invalidChain := if mutated then state.invalidChain else front
      invalidChainFound := true })
  | .connected =>
    pure (!oldTip.all fun old => env.nChainWork block > env.nChainWork old,
      { state with tip := some block, connected := state.connected ++ [block] })

def connectRound (oldTip : Option Block) (candidate : Block) (loop : Int × ChainActivation Block) :
    Exec ActivationError (ChainActivation Block ⊕ Int × ChainActivation Block) :=
  if loop.1 = tree.nHeight candidate then pure (.inl loop.2)
  else do
    let (blocks, height) ← tree.nextCoreChainConnectBatch candidate loop.1
    let (goesOn, state) ← forWhile (tree.connectTip env oldTip blocks.head?) blocks.reverse
      loop.2
    pure (if goesOn then .inr (height, state) else .inl state)

theorem height_of_connectRound {oldTip : Option Block} {candidate : Block}
    {loop next : Int × ChainActivation Block}
    (ran : tree.connectRound env oldTip candidate loop = .ok (.inr next)) :
    (tree.nHeight candidate - next.1).natAbs < (tree.nHeight candidate - loop.1).natAbs := by
  rw [connectRound] at ran
  split at ran
  · cases ran
  next further =>
    obtain ⟨⟨blocks, height⟩, collected, ran⟩ := bind_eq_ok.mp ran
    obtain ⟨⟨goesOn, state⟩, -, ran⟩ := bind_eq_ok.mp ran
    obtain ⟨limit, added, collected⟩ := bind_eq_ok.mp collected
    obtain ⟨⟨passed, stop⟩, -, collected⟩ := bind_eq_ok.mp collected
    have limitEq := checkedInt32_eq_ok.mp added
    cases collected
    cases goesOn with
    | false => cases ran
    | true =>
      cases ran
      dsimp only
      omega

def connectLoop (oldTip : Option Block) (candidate : Block) :
    MeasuredLoop (Int × ChainActivation Block) (Failure ActivationError) (ChainActivation Block) where
  round := tree.connectRound env oldTip candidate
  measure loop := (tree.nHeight candidate - loop.1).natAbs
  decreases := tree.height_of_connectRound env

def activateCoreBestChainStepWithFork (oldTip fork : Option Block) (candidate : Block) :
    Exec ActivationError (ChainActivation Block) := do
  let (disconnected, tip) ← tree.walkWhile (fun block => some block != fork)
    (tree.disconnectTip env) oldTip
  (tree.connectLoop env oldTip candidate).run
    (tree.chainHeight fork, { tip := tip, disconnected := disconnected })

end Step

/-! ## Paths -/

section Paths

variable {Block ε : Type}

/-- The blocks lead from one tip to another, each the parent of the next. -/
def Connects (tree : BlockTree Block) : Option Block → List Block → Option Block → Prop
  | tip, [], last => tip = last
  | tip, block :: blocks, last => tree.pprev block = tip ∧ Connects tree (some block) blocks last

variable {tree : BlockTree Block} {tip middle last : Option Block} {blocks later : List Block}
  {block candidate : Block}

theorem Connects.append (first : tree.Connects tip blocks middle)
    (second : tree.Connects middle later last) : tree.Connects tip (blocks ++ later) last := by
  induction blocks generalizing tip with
  | nil => exact first ▸ second
  | cons block blocks ih => exact ⟨first.1, ih first.2⟩

theorem connects_concat (path : tree.Connects tip (blocks ++ [block]) last) :
    last = some block ∧ tree.Connects tip blocks (tree.pprev block) := by
  induction blocks generalizing tip with
  | nil => exact ⟨path.2.symm, path.1.symm⟩
  | cons first blocks ih =>
    obtain ⟨lastEq, shorter⟩ := ih path.2
    exact ⟨lastEq, path.1, shorter⟩

variable {visit : Block → Exec ε Unit} {passes : Block → Bool}

theorem walkWhile_of_stops (stops : ∀ block, tip = some block → passes block = false) :
    tree.walkWhile passes visit tip = .ok ([], tip) := by
  cases tip with
  | none => rw [walkWhile]
  | some block =>
    rw [walkWhile, stops block rfl]
    rfl

/-- A walk goes back to the start of a path when it passes the blocks of the path. -/
theorem walkWhile_of_connects (path : tree.Connects tip blocks last)
    (passed : ∀ block ∈ blocks, passes block = true ∧ visit block = .ok ())
    (stops : ∀ block, tip = some block → passes block = false) :
    tree.walkWhile passes visit last = .ok (blocks.reverse, tip) := by
  induction blocks using List.reverseRecOn generalizing last with
  | nil =>
    obtain rfl : tip = last := path
    exact walkWhile_of_stops stops
  | append_singleton blocks block ih =>
    obtain ⟨rfl, shorter⟩ := connects_concat path
    obtain ⟨passes, visited⟩ := passed block (by simp)
    have walked := ih shorter fun other mem => passed other (List.mem_append_left _ mem)
    rw [walkWhile, passes, if_pos rfl, visited, ok_bind, walked, List.reverse_concat]
    rfl

theorem exists_connects {low high : Int} (start : -1 ≤ low) (ordered : low ≤ high)
    (within : high ≤ tree.nHeight candidate) :
    ∃ blocks, tree.Connects (tree.getAncestor candidate low) blocks
        (tree.getAncestor candidate high) ∧ ∀ block ∈ blocks, low < tree.nHeight block := by
  induction high, ordered using Int.leInduction with
  | base => exact ⟨[], rfl, nofun⟩
  | succ high ordered ih =>
    obtain ⟨blocks, path, above⟩ := ih (by omega)
    obtain ⟨block, found, height⟩ : ∃ block, tree.getAncestor candidate
        ((high + 1).toNat : Nat) = some block ∧ tree.nHeight block = (high + 1).toNat :=
      exists_getAncestor (by omega)
    rw [Int.toNat_of_nonneg (by omega)] at found
    have parent := pprev_of_getAncestor found
    rw [add_sub_cancel_right] at parent
    refine ⟨blocks ++ [block], path.append ⟨parent, found.symm⟩, ?_⟩
    intro other mem
    rcases List.mem_append.mp mem with old | new
    · exact above other old
    · rw [List.mem_singleton.mp new]
      omega

end Paths

/-! ## Connecting -/

section Connecting

variable {Block : Type} [DecidableEq Block] (tree : BlockTree Block) (env : ActivationEnv Block)

/-- The blocks connected so far succeeded, and lead from the fork to the tip. -/
structure Follows (fork : Option Block) (disconnected : List Block)
    (state : ChainActivation Block) : Prop where
  disconnected_eq : state.disconnected = disconnected
  path : tree.Connects fork state.connected state.tip
  succeeded : ∀ block ∈ state.connected, env.connects block = .connected

/-- Where a step may end: at the candidate, with more work than the old tip, or before the
first block towards the candidate that is not connected. -/
def Ended (oldTip : Option Block) (candidate : Block) (tip : Option Block) : Prop :=
  tip = some candidate ∨
  (∃ block, tip = some block ∧
    ∀ old, oldTip = some old → env.nChainWork old < env.nChainWork block) ∨
  ∃ block mutated later, tree.pprev block = tip ∧ env.connects block = .invalid mutated ∧
    tree.Connects (some block) later (some candidate)

/-- Between two batches the tip is the ancestor of the candidate at the height of the loop. -/
def AtHeight (fork : Option Block) (disconnected : List Block) (candidate : Block)
    (loop : Int × ChainActivation Block) : Prop :=
  -1 ≤ loop.1 ∧ loop.1 ≤ tree.nHeight candidate ∧
    loop.2.tip = tree.getAncestor candidate loop.1 ∧ tree.Follows env fork disconnected loop.2

/-- A common ancestor of the active tip and the candidate; without a tip there is none. -/
def CommonAncestor (oldTip fork : Option Block) (candidate : Block) : Prop :=
  oldTip = none ∧ fork = none ∨
  ∃ top, ∃ height : Nat, oldTip = some top ∧ height ≤ tree.nHeight top ∧
    height ≤ tree.nHeight candidate ∧ tree.getAncestor top height = fork ∧
    tree.getAncestor candidate height = fork

variable {tree env} {oldTip fork front last : Option Block} {disconnected blocks later : List Block}
  {candidate : Block} {state : ChainActivation Block}

omit [DecidableEq Block] in
theorem nextCoreChainConnectBatch_spec {height : Int} (start : -1 ≤ height)
    (below : height < tree.nHeight candidate) (room : tree.nHeight candidate + 31 < 2 ^ 31) :
    ∃ blocks target, tree.nextCoreChainConnectBatch candidate height = .ok (blocks.reverse, target) ∧
      height < target ∧ target ≤ tree.nHeight candidate ∧
      tree.Connects (tree.getAncestor candidate height) blocks
        (tree.getAncestor candidate target) := by
  have limit : (Int32.ofInt (height + 32)).toInt = height + 32 :=
    Int32.toInt_ofInt_of_le (by omega) (by omega)
  obtain ⟨target, targetEq⟩ : ∃ target, min (height + 32) (tree.nHeight candidate : Int) = target :=
    ⟨_, rfl⟩
  have reaches : target ≤ tree.nHeight candidate := targetEq ▸ Int.min_le_right _ _
  have further : height < target := by omega
  obtain ⟨blocks, path, above⟩ := exists_connects start (Int.le_of_lt further) reaches
  refine ⟨blocks, target, ?_, further, reaches, path⟩
  have walked : tree.walkWhile (fun block => tree.nHeight block != height)
      (fun _ => (.ok () : Exec ActivationError Unit)) (tree.getAncestor candidate target) =
        .ok (blocks.reverse, tree.getAncestor candidate height) := by
    apply walkWhile_of_connects path
    · intro block mem
      exact ⟨bne_iff_ne.mpr (Int.ne_of_gt (above block mem)), rfl⟩
    · intro block found
      rw [(nHeight_getAncestor found).2.1, bne_self_eq_false]
  rw [nextCoreChainConnectBatch, checkedInt32_eq_ok.mpr limit, ok_bind, limit, targetEq]
  dsimp only
  rw [walked]
  rfl

/-- A batch is connected block by block, up to its end or to the end of the step. -/
theorem forWhile_connectTip_spec (noSystemError : ∀ block, env.connects block ≠ .systemError)
    (path : tree.Connects state.tip blocks last) (onward : tree.Connects last later (some candidate))
    (follows : tree.Follows env fork disconnected state) :
    ∃ goesOn next, forWhile (tree.connectTip env oldTip front) blocks state =
        .ok (goesOn, next) ∧ tree.Follows env fork disconnected next ∧
      if goesOn then next.tip = last else tree.Ended env oldTip candidate next.tip := by
  induction blocks generalizing state with
  | nil => exact ⟨true, state, rfl, follows, path⟩
  | cons block blocks ih =>
    have asserted : assertThat (tree.pprev block == state.tip) =
        (.ok () : Exec ActivationError Unit) := by
      rw [path.1, beq_self_eq_true]
      rfl
    cases outcome : env.connects block with
    | systemError => exact absurd outcome (noSystemError block)
    | invalid mutated =>
      refine ⟨false, { state with
        invalidChain := if mutated then state.invalidChain else front
        invalidChainFound := true }, ?_, ⟨follows.1, follows.2, follows.3⟩, Or.inr (Or.inr
          ⟨block, mutated, blocks ++ later, path.1, outcome, path.2.append onward⟩)⟩
      rw [forWhile, connectTip, asserted, ok_bind, outcome]
      rfl
    | connected =>
      have followsNext : tree.Follows env fork disconnected
          { state with tip := some block, connected := state.connected ++ [block] } := by
        refine ⟨follows.1, follows.2.append ⟨path.1, rfl⟩, ?_⟩
        intro other mem
        rcases List.mem_append.mp mem with old | new
        · exact follows.3 other old
        · exact List.mem_singleton.mp new ▸ outcome
      rw [forWhile, connectTip, asserted, ok_bind, outcome]
      cases better : oldTip.all fun old => env.nChainWork block > env.nChainWork old with
      | true =>
        refine ⟨false, _, rfl, followsNext, Or.inr (Or.inl ⟨block, rfl, ?_⟩)⟩
        intro old same
        rw [same] at better
        exact of_decide_eq_true better
      | false => exact ih path.2 followsNext

variable {loop : Int × ChainActivation Block}

theorem connectRound_spec (noSystemError : ∀ block, env.connects block ≠ .systemError)
    (room : tree.nHeight candidate + 31 < 2 ^ 31)
    (atHeight : tree.AtHeight env fork disconnected candidate loop) :
    ∃ outcome, (tree.connectLoop env oldTip candidate).round loop = .ok outcome ∧
      Sum.elim (fun final => tree.Follows env fork disconnected final ∧
          tree.Ended env oldTip candidate final.tip)
        (tree.AtHeight env fork disconnected candidate) outcome := by
  obtain ⟨start, within, atTip, follows⟩ := atHeight
  by_cases done : loop.1 = tree.nHeight candidate
  · refine ⟨.inl loop.2, if_pos done, follows, Or.inl ?_⟩
    rw [atTip, done, getAncestor_self]
  · obtain ⟨blocks, target, collected, further, reaches, path⟩ :=
      nextCoreChainConnectBatch_spec start (by omega) room
    obtain ⟨later, onward, -⟩ := exists_connects (by omega) reaches (Int.le_refl _)
    rw [getAncestor_self] at onward
    rw [← atTip] at path
    obtain ⟨goesOn, next, ran, followsNext, ends⟩ :=
      forWhile_connectTip_spec noSystemError path onward follows
    refine ⟨if goesOn then .inr (target, next) else .inl next, ?_, ?_⟩
    · change tree.connectRound env oldTip candidate loop = _
      rw [connectRound, if_neg done, collected, ok_bind]
      dsimp only
      rw [List.reverse_reverse, ran]
      rfl
    · cases goesOn with
      | true => exact ⟨by omega, reaches, ends, followsNext⟩
      | false => exact ⟨followsNext, ends⟩

theorem connectRound_of_overflow
    (further : loop.1 ≠ tree.nHeight candidate) (large : 2 ^ 31 ≤ loop.1 + 32) :
    (tree.connectLoop env oldTip candidate).round loop = .error (.fault .signedOverflow) := by
  change tree.connectRound env oldTip candidate loop = _
  rw [connectRound, if_neg further, nextCoreChainConnectBatch, checkedInt32, if_neg (by omega)]
  rfl

theorem CommonAncestor.walkWhile (disconnects : ∀ block, env.disconnects block = true)
    (common : tree.CommonAncestor oldTip fork candidate) :
    ∃ blocks, tree.Connects fork blocks oldTip ∧
      tree.walkWhile (fun block => some block != fork) (tree.disconnectTip env) oldTip =
        .ok (blocks.reverse, fork) := by
  rcases common with ⟨rfl, rfl⟩ | ⟨top, height, rfl, below, -, rfl, -⟩
  · exact ⟨[], rfl, walkWhile_of_stops nofun⟩
  · obtain ⟨blocks, path, above⟩ :=
      exists_connects (by omega) (Int.ofNat_le.mpr below) (Int.le_refl _)
    rw [getAncestor_self] at path
    refine ⟨blocks, path, walkWhile_of_connects path ?_ ?_⟩
    · intro block mem
      have higher := above block mem
      have notFork : some block ≠ tree.getAncestor top height := by
        intro same
        have eq := (nHeight_getAncestor same.symm).2.1
        omega
      have parent : (tree.pprev block).isSome = true := by
        rw [Option.isSome_iff_ne_none]
        intro genesis
        have zero := tree.nHeight_of_genesis genesis
        omega
      refine ⟨bne_iff_ne.mpr notFork, ?_⟩
      rw [disconnectTip, parent, disconnects]
      rfl
    · intro block found
      rw [found, bne_self_eq_false]

/-- A step disconnects exactly down to the fork and connects blocks in the order of their
parents, with every assertion holding.  It ends with the candidate, with more work than before,
or with the parent of the first block that could not be connected. -/
theorem activateCoreBestChainStepWithFork_progress
    (disconnects : ∀ block, env.disconnects block = true)
    (noSystemError : ∀ block, env.connects block ≠ .systemError)
    (room : tree.nHeight candidate + 31 < 2 ^ 31)
    (common : tree.CommonAncestor oldTip fork candidate) :
    ∃ final, tree.activateCoreBestChainStepWithFork env oldTip fork candidate = .ok final ∧
      tree.Connects fork final.disconnected.reverse oldTip ∧
      tree.Connects fork final.connected final.tip ∧
      (∀ block ∈ final.connected, env.connects block = .connected) ∧
      tree.Ended env oldTip candidate final.tip := by
  obtain ⟨blocks, path, walked⟩ := common.walkWhile disconnects
  have atFork : tree.AtHeight env fork blocks.reverse candidate
      (tree.chainHeight fork, { tip := fork, disconnected := blocks.reverse }) := by
    have follows : tree.Follows env fork blocks.reverse
        { tip := fork, disconnected := blocks.reverse } := ⟨rfl, rfl, nofun⟩
    rcases common with ⟨-, rfl⟩ | ⟨-, height, -, -, within, -, rfl⟩
    · have low : (-1 : Int) ≤ tree.nHeight candidate := by omega
      exact ⟨Int.le_refl _, low, (getAncestor_of_neg (show (-1 : Int) < 0 by decide)).symm, follows⟩
    · obtain ⟨block, found, heightEq⟩ := exists_getAncestor within
      have atBlock : tree.chainHeight (tree.getAncestor candidate height) = height := by
        rw [found, ← heightEq]
        rfl
      rw [AtHeight, atBlock]
      exact ⟨by omega, by omega, rfl, follows⟩
  obtain ⟨final, ran, follows, ends⟩ :=
    MeasuredLoop.run_spec (fun _ => connectRound_spec noSystemError room) atFork
  refine ⟨final, ?_, ?_, follows.path, follows.succeeded, ends⟩
  · rw [activateCoreBestChainStepWithFork, walked]
    exact ran
  · rw [follows.disconnected_eq, List.reverse_reverse]
    exact path

/-- A chain with a second block on top of the genesis block. -/
def forkedTree : BlockTree (Fin (2 ^ 31)) where
  pprev block :=
    if block.val = 0 then none
    else some ⟨if block.val = 2 then 0 else block - 1, by split <;> omega⟩
  nHeight block := if block.val ≤ 1 then block else block - 1
  nTime _ := 0
  nHeight_of_genesis := by
    intro block genesis
    simp_all
  nHeight_of_pprev := by
    intro block parent parentEq
    split at parentEq
    · cases parentEq
    · cases parentEq
      dsimp only
      split <;> split <;> split <;> omega
  nHeight_lt block := by
    split <;> omega

def succeedingEnv : ActivationEnv (Fin (2 ^ 31)) :=
  ⟨fun _ => true, fun _ => .connected, fun _ => 0⟩

theorem activateCoreBestChainStepWithFork_forkedTree :
    ∃ final, forkedTree.activateCoreBestChainStepWithFork succeedingEnv (some 1) (some 0) 2 =
        .ok final ∧
      forkedTree.Connects (some 0) final.disconnected.reverse (some 1) ∧
      forkedTree.Connects (some 0) final.connected final.tip ∧
      (∀ block ∈ final.connected, succeedingEnv.connects block = .connected) ∧
      forkedTree.Ended succeedingEnv (some 1) 2 final.tip :=
  activateCoreBestChainStepWithFork_progress (fun _ => rfl) (fun _ => nofun) (by decide)
    (.inr ⟨1, 0, rfl, by decide, by decide, by decide, by decide⟩)

/-- Near the largest `int` the height of the next batch overflows. -/
theorem activateCoreBestChainStepWithFork_overflow :
    forkedTree.CommonAncestor (some (-2)) (some (-2)) (-1) ∧
      forkedTree.activateCoreBestChainStepWithFork succeedingEnv (some (-2)) (some (-2)) (-1) =
        .error (.fault .signedOverflow) := by
  constructor
  · exact .inr ⟨-2, 2 ^ 31 - 3, rfl, by decide, by decide, by decide, by decide⟩
  · rw [activateCoreBestChainStepWithFork, walkWhile_of_stops (by rintro _ ⟨⟩; decide)]
    exact MeasuredLoop.run_of_error (connectRound_of_overflow (by decide) (by decide))

end Connecting

end BlockTree

end Champy
