import Champy.VersionBits

/-!
# The cache of deployment states

A cache that holds only right states keeps to that.  The walk backwards stops at a known state
or at a block before the begin time; median times do not fall along a chain, so no earlier
period has started either.  The walk forward then applies the rule once for each period.
-/

namespace Champy

open BlockTree Nat

namespace ThresholdConditionChecker

variable {Block : Type} {tree : BlockTree Block} {checker : ThresholdConditionChecker Block}

/-- The last blocks of a period, whose height has a successor. -/
def EndsPeriod (tree : BlockTree Block) (checker : ThresholdConditionChecker Block)
    (last : Option Block) : Prop :=
  ∀ block, last = some block →
    checker.period.toInt.toNat ∣ tree.nHeight block + 1 ∧ tree.nHeight block + 1 < 2 ^ 31

theorem period_eq (checker : ThresholdConditionChecker Block) :
    checker.period.toInt = (checker.period.toInt.toNat : Nat) ∧ 0 < checker.period.toInt.toNat := by
  have pos := checker.one_le_period
  omega

/-! ## The state machine along a chain -/

variable {cache : ThresholdConditionCache Block} {pindexPrev : Option Block} {block : Block}
  {periods : Nat}

/-- The state after some periods is the same on every block that comes after them. -/
theorem stateAfter_getAncestor {ancestor : Block} {height : Int}
    (found : tree.getAncestor block height = some ancestor)
    (within : periods * checker.period.toInt ≤ height + 1) :
    checker.stateAfter tree ancestor periods = checker.stateAfter tree block periods := by
  have pos := checker.one_le_period
  induction periods with
  | zero => rfl
  | succ periods ih =>
    have fewer : periods * checker.period.toInt ≤ height + 1 := by
      rw [cast_succ, Int.add_mul] at within
      omega
    rw [cast_succ] at within
    rw [stateAfter, stateAfter, ih fewer, getAncestor_getAncestor found (by omega)]

variable {last : Block}

theorem mayBecome_transition {old state : ThresholdState}
    (reached : old.mayBecome state) : old.mayBecome (checker.transition tree state last) := by
  cases old <;> cases state <;> grind [ThresholdState.mayBecome, transition]

theorem mayBecome_stateAfter {more : Nat} (le : periods ≤ more) :
    (checker.stateAfter tree block periods).mayBecome (checker.stateAfter tree block more) := by
  induction more, le using le_induction with
  | base => cases checker.stateAfter tree block periods <;> rfl
  | succ more _ ih =>
    rw [stateAfter]
    split
    · exact ih
    · exact mayBecome_transition ih

theorem stateAfter_of_lt_beginTime (advance : tree.TimesAdvance)
    (early : tree.getMedianTimePast block < checker.beginTime.toInt) (periods : Nat) :
    checker.stateAfter tree block periods = .defined := by
  induction periods with
  | zero => rfl
  | succ periods ih =>
    rw [stateAfter]
    split
    · exact ih
    next last found =>
      have earlier := getMedianTimePast_le_of_getAncestor advance found
      rw [ih, transition, if_neg (by omega)]

theorem deploymentState_of_nHeight
    (height : tree.nHeight block + 1 = checker.period.toInt.toNat * periods) :
    checker.deploymentState tree (some block) = checker.stateAfter tree block periods := by
  rw [deploymentState, height, Nat.mul_div_cancel_left _ checker.period_eq.2]

/-- The block before a number of whole periods, which is none before the first. -/
theorem deploymentState_getAncestor (checker : ThresholdConditionChecker Block)
    (within : checker.period.toInt.toNat * periods ≤ tree.nHeight block + 1) :
    checker.deploymentState tree
        (tree.getAncestor block ((checker.period.toInt.toNat * periods : Nat) - 1)) =
      checker.stateAfter tree block periods ∧
    ∀ ancestor, tree.getAncestor block ((checker.period.toInt.toNat * periods : Nat) - 1) =
        some ancestor →
      tree.nHeight ancestor + 1 = checker.period.toInt.toNat * periods := by
  obtain ⟨period, pos⟩ := checker.period_eq
  cases periods with
  | zero =>
    rw [getAncestor_of_neg (by omega)]
    exact ⟨rfl, nofun⟩
  | succ periods =>
    have someBlocks : 0 < checker.period.toInt.toNat * (periods + 1) :=
      mul_pos pos (succ_pos periods)
    have position : ((checker.period.toInt.toNat * (periods + 1) : Nat) : Int) - 1 =
        (checker.period.toInt.toNat * (periods + 1) - 1 : Nat) := by omega
    have before : checker.period.toInt.toNat * (periods + 1) - 1 ≤ tree.nHeight block := by omega
    obtain ⟨ancestor, found, height⟩ := exists_getAncestor before
    have ancestorHeight : tree.nHeight ancestor + 1 =
        checker.period.toInt.toNat * (periods + 1) := by omega
    have enough : ((periods + 1 : Nat) : Int) * checker.period.toInt ≤
        (checker.period.toInt.toNat * (periods + 1) - 1 : Nat) + 1 := by
      rw [← position, period, Int.toNat_natCast, cast_mul, Int.mul_comm]
      omega
    rw [position, found]
    constructor
    · rw [deploymentState_of_nHeight ancestorHeight, stateAfter_getAncestor found enough]
    · intro other same
      cases same
      exact ancestorHeight

theorem deploymentState_eq_transition (ends : EndsPeriod tree checker (some last)) :
    checker.deploymentState tree (some last) = checker.transition tree
          (checker.deploymentState tree (checker.previousPeriodEnd tree last)) last ∧
      EndsPeriod tree checker (checker.previousPeriodEnd tree last) := by
  obtain ⟨period, pos⟩ := checker.period_eq
  obtain ⟨⟨periods, height⟩, short⟩ := ends last rfl
  cases periods with
  | zero => omega
  | succ periods =>
    rw [mul_succ] at height
    have previous : checker.previousPeriodEnd tree last =
        tree.getAncestor last ((checker.period.toInt.toNat * periods : Nat) - 1) := by
      rw [previousPeriodEnd, period, Int.toNat_natCast]
      congr 1
      omega
    obtain ⟨state, previousHeight⟩ := deploymentState_getAncestor checker
      (show checker.period.toInt.toNat * periods ≤ tree.nHeight last + 1 by omega)
    have itself : ((periods : Int) + 1) * checker.period.toInt - 1 = (tree.nHeight last : Nat) := by
      rw [period, Int.add_mul, Int.one_mul, Int.mul_comm, ← cast_mul]
      omega
    rw [previous, state]
    constructor
    · rw [deploymentState_of_nHeight (by rw [mul_succ, height]), stateAfter, itself,
        getAncestor_self]
    · intro ancestor found
      have ancestorHeight := previousHeight ancestor found
      exact ⟨⟨periods, ancestorHeight⟩, by omega⟩

theorem periodEnd_spec (checker : ThresholdConditionChecker Block)
    (short : ∀ block, pindexPrev = some block → tree.nHeight block + 1 < 2 ^ 31) :
    ∃ last, checker.periodEnd tree pindexPrev = .ok last ∧ EndsPeriod tree checker last ∧
      checker.deploymentState tree last = checker.deploymentState tree pindexPrev := by
  cases pindexPrev with
  | none => exact ⟨none, rfl, nofun, rfl⟩
  | some block =>
    obtain ⟨period, pos⟩ := checker.period_eq
    have bound := short block rfl
    have next : (checkedInt32 (tree.nHeight block + 1) : Exec Empty Int32) =
        .ok (Int32.ofNat (tree.nHeight block + 1)) := by
      rw [checkedInt32_eq_ok]
      exact Int32.toInt_ofNat_of_lt bound
    have division := div_add_mod (tree.nHeight block + 1) checker.period.toInt.toNat
    have ancestor : tree.getAncestor block (tree.nHeight block -
          (Int32.ofNat (tree.nHeight block + 1)).toInt.tmod checker.period.toInt) =
        tree.getAncestor block ((checker.period.toInt.toNat *
          ((tree.nHeight block + 1) / checker.period.toInt.toNat) : Nat) - 1) := by
      rw [Int32.toInt_ofNat_of_lt bound, period, Int.toNat_natCast, ← Int.ofNat_tmod]
      exact congrArg (tree.getAncestor block) (by omega)
    obtain ⟨state, height⟩ := deploymentState_getAncestor checker
      (mul_div_le (tree.nHeight block + 1) checker.period.toInt.toNat)
    refine ⟨_, by rw [periodEnd, next, Exec.ok_bind, ancestor]; rfl, ?_, state⟩
    intro last found
    have lastHeight := height last found
    exact ⟨⟨_, lastHeight⟩, by omega⟩

/-! ## The walk forward -/

theorem countCondition_eq {blocks : Nat} {last : Option Block}
    (within : blocks ≤ heightAbove tree last) :
    checker.countCondition tree blocks last = .ok (checker.signalling tree blocks last) := by
  induction blocks generalizing last with
  | zero => rfl
  | succ blocks ih =>
    cases last with
    | none => exact absurd within (not_succ_le_zero blocks)
    | some block =>
      have earlier : blocks ≤ heightAbove tree (tree.pprev block) := by
        cases parentEq : tree.pprev block with
        | none =>
          rw [heightAbove, tree.nHeight_of_genesis parentEq] at within
          exact le_of_succ_le_succ within
        | some parent =>
          rw [heightAbove, tree.nHeight_of_pprev parentEq] at within
          exact le_of_succ_le_succ within
      rw [countCondition, ih earlier]
      rfl

theorem stateNext_eq (ends : EndsPeriod tree checker (some last)) (state : ThresholdState) :
    checker.stateNext tree state last = .ok (checker.transition tree state last) := by
  obtain ⟨divides, short⟩ := ends last rfl
  cases state with
  | defined => rfl
  | started =>
    have within : checker.period.toInt.toNat ≤ heightAbove tree (some last) :=
      le_of_dvd (succ_pos _) divides
    rw [stateNext, countCondition_eq within]
    rfl
  | lockedIn =>
    have value : (Int32.ofNat (tree.nHeight last + 1)).toInt = (tree.nHeight last + 1 : Nat) :=
      Int32.toInt_ofNat_of_lt short
    have next : (checkedInt32 (tree.nHeight last + 1) : Exec Empty Int32) =
        .ok (Int32.ofNat (tree.nHeight last + 1)) := checkedInt32_eq_ok.mpr value
    rw [stateNext, next, Exec.ok_bind, transition]
    simp only [ge_iff_le, Int32.le_iff_toInt_le, value, cast_succ]
    rfl
  | failed => rfl
  | active => rfl

variable [DecidableEq Block]

/-- A cache of right states. -/
def Sound (tree : BlockTree Block) (checker : ThresholdConditionChecker Block)
    (cache : ThresholdConditionCache Block) : Prop :=
  ∀ key state, cache.lookup key = some state → state = checker.deploymentState tree key

theorem Sound.insert (sound : Sound tree checker cache) (key : Option Block) :
    Sound tree checker (cache.insert key (checker.deploymentState tree key)) := by
  intro other state found
  by_cases same : other = key
  · subst same
    rw [Finmap.lookup_insert] at found
    exact (Option.some.inj found).symm
  · rw [Finmap.lookup_insert_of_ne _ same] at found
    exact sound other state found

/-- The ends of periods that are still to be computed, from the one after `pindexPrev` up to
`goal`. -/
inductive Pending (tree : BlockTree Block) (checker : ThresholdConditionChecker Block)
    (goal : Option Block) : Option Block → List Block → Prop
  | done : Pending tree checker goal goal []
  | next {block : Block} {later : List Block} (ends : EndsPeriod tree checker (some block))
      (rest : Pending tree checker goal (some block) later) :
      Pending tree checker goal (checker.previousPeriodEnd tree block) (block :: later)

theorem forwardRounds_spec {goal : Option Block} {later : List Block}
    (pending : Pending tree checker goal pindexPrev later) (sound : Sound tree checker cache) :
    ∃ res, later.foldlM (checker.forwardRound tree)
        (checker.deploymentState tree pindexPrev, cache) =
          .ok (checker.deploymentState tree goal, res) ∧
      Sound tree checker res := by
  induction pending generalizing cache with
  | done => exact ⟨cache, rfl, sound⟩
  | next ends rest ih =>
    rename_i block later
    obtain ⟨state, -⟩ := deploymentState_eq_transition ends
    obtain ⟨res, ran, resultSound⟩ := ih (sound.insert (some block))
    refine ⟨res, ?_, resultSound⟩
    rw [List.foldlM_cons, forwardRound, stateNext_eq ends, ← state]
    exact ran

/-! ## The walk backwards -/

/-- What a round of the walk keeps. -/
def Walking (tree : BlockTree Block) (checker : ThresholdConditionChecker Block)
    (goal : Option Block) (walk : WalkState Block) : Prop :=
  Sound tree checker walk.cache ∧ EndsPeriod tree checker walk.pindexPrev ∧
    Pending tree checker goal walk.pindexPrev walk.vToCompute

theorem walkRound_spec (advance : tree.TimesAdvance) {goal : Option Block} {walk : WalkState Block}
    (walking : Walking tree checker goal walk) :
    ∃ outcome, checker.walkRound tree walk = .ok outcome ∧
      Sum.elim (fun ended => Walking tree checker goal ended ∧ ended.cache.lookup ended.pindexPrev =
          some (checker.deploymentState tree ended.pindexPrev)) (Walking tree checker goal)
        outcome := by
  obtain ⟨sound, ends, pending⟩ := walking
  rw [walkRound]
  by_cases known : walk.pindexPrev ∈ walk.cache
  · obtain ⟨state, found⟩ := Finmap.mem_iff.mp known
    rw [if_pos known]
    refine ⟨_, rfl, ⟨sound, ends, pending⟩, ?_⟩
    rw [found, sound _ _ found]
  rw [if_neg known]
  cases current : walk.pindexPrev with
  | none =>
    rw [current] at pending ends
    refine ⟨_, rfl, ⟨sound.insert none, ends, pending⟩, ?_⟩
    dsimp only
    rw [Finmap.lookup_insert]
    rfl
  | some block =>
    rw [current] at pending ends
    dsimp only
    by_cases early : tree.getMedianTimePast block < checker.beginTime.toInt
    · have state : checker.deploymentState tree (some block) = .defined :=
        stateAfter_of_lt_beginTime advance early _
      have inserted := sound.insert (some block)
      rw [state] at inserted
      rw [if_pos early]
      refine ⟨_, rfl, ⟨inserted, ends, pending⟩, ?_⟩
      dsimp only
      rw [Finmap.lookup_insert, state]
    · rw [if_neg early]
      exact ⟨_, rfl, sound, (deploymentState_eq_transition ends).2, .next ends pending⟩

/-! ## Queries -/

theorem getStateFor_spec (checker : ThresholdConditionChecker Block) (advance : tree.TimesAdvance)
    (short : ∀ block, pindexPrev = some block → tree.nHeight block + 1 < 2 ^ 31)
    (sound : Sound tree checker cache) :
    ∃ res, checker.getStateFor tree pindexPrev cache =
        .ok (checker.expectedState tree pindexPrev, res) ∧ Sound tree checker res := by
  rw [getStateFor, expectedState]
  by_cases always : checker.beginTime = alwaysActive
  · rw [if_pos always, if_pos always]
    exact ⟨cache, rfl, sound⟩
  rw [if_neg always, if_neg always]
  by_cases never : checker.beginTime = neverActive
  · rw [if_pos never, if_pos never]
    exact ⟨cache, rfl, sound⟩
  rw [if_neg never, if_neg never]
  obtain ⟨last, found, ends, state⟩ := periodEnd_spec checker short
  have walking : Walking tree checker last ⟨last, [], cache⟩ := ⟨sound, ends, .done⟩
  obtain ⟨ended, ran, ⟨endedSound, -, pending⟩, known⟩ :
      ∃ ended, (checker.walkLoop tree).run ⟨last, [], cache⟩ = .ok ended ∧
        Walking tree checker last ended ∧ ended.cache.lookup ended.pindexPrev =
          some (checker.deploymentState tree ended.pindexPrev) :=
    MeasuredLoop.run_spec (fun walk kept => walkRound_spec advance kept) walking
  obtain ⟨res, forward, resultSound⟩ := forwardRounds_spec pending endedSound
  refine ⟨res, ?_, resultSound⟩
  rw [found, Exec.ok_bind, ran, Exec.ok_bind, known, ← state]
  exact forward

/-- Every answer is the state of the block's own chain, whatever was asked before. -/
theorem getStatesFor_eq (advance : tree.TimesAdvance) {queries : List (Option Block)}
    (short : ∀ block, some block ∈ queries → tree.nHeight block + 1 < 2 ^ 31) :
    checker.getStatesFor tree queries ∅ = .ok (queries.map (checker.expectedState tree)) := by
  have fromSound : ∀ cache, Sound tree checker cache →
      checker.getStatesFor tree queries cache = .ok (queries.map (checker.expectedState tree)) := by
    induction queries with
    | nil => exact fun _ _ => rfl
    | cons pindexPrev queries ih =>
      intro cache sound
      obtain ⟨result, answered, resultSound⟩ := getStateFor_spec checker advance
        (fun block same => short block (same ▸ List.mem_cons_self)) sound
      have rest := ih (fun block mem => short block (List.mem_cons_of_mem pindexPrev mem)) result
        resultSound
      rw [getStatesFor, answered, Exec.ok_bind]
      dsimp only
      rw [rest]
      rfl
  exact fromSound ∅ nofun

/-- A genesis block and a block after it. -/
def twoBlocks : BlockTree Bool where
  pprev block := if block then some false else none
  nHeight block := if block then 1 else 0
  nTime block := if block then 2 else 1
  nHeight_of_genesis := by decide
  nHeight_of_pprev := by decide
  nHeight_lt := by decide

/-- Periods of one block, every block signals. -/
def everyBlock (beginTime : Int64) : ThresholdConditionChecker Bool where
  condition _ := true
  beginTime := beginTime
  endTime := 1000
  minActivationHeight := 0
  period := 1
  threshold := 1
  one_le_period := by decide

theorem getStatesFor_twoBlocks :
    (everyBlock 2).getStatesFor twoBlocks [some true, none, some false] ∅ =
      .ok ([some true, none, some false].map ((everyBlock 2).expectedState twoBlocks)) := by
  have advance : ∀ block parent, twoBlocks.pprev block = some parent →
      twoBlocks.getMedianTimePast parent < twoBlocks.getBlockTime block := by
    decide +kernel
  exact getStatesFor_eq advance (by decide)

/-- A deployment that is always active is active before the first transition. -/
theorem getStatesFor_alwaysActive :
    (everyBlock alwaysActive).getStatesFor twoBlocks [none] ∅ = .ok [.active] ∧
      (everyBlock alwaysActive).deploymentState twoBlocks none = .defined := by
  exact ⟨rfl, rfl⟩

/-- A deployment never goes back along a chain, whatever the cache has seen: one that is locked in
can only become active, and an active or failed one stays so. -/
theorem getStateFor_mayBecome (advance : tree.TimesAdvance) {ancestor : Block} {height : Int}
    (found : tree.getAncestor block height = some ancestor)
    (short : tree.nHeight block + 1 < 2 ^ 31) (sound : Sound tree checker cache) :
    ∃ old new middle last, checker.getStateFor tree (some ancestor) cache = .ok (old, middle) ∧
      checker.getStateFor tree (some block) middle = .ok (new, last) ∧ old.mayBecome new := by
  obtain ⟨-, position, below⟩ := nHeight_getAncestor found
  obtain ⟨middle, first, middleSound⟩ := getStateFor_spec checker advance
    (fun other (same : some ancestor = some other) => by cases same; omega) sound
  obtain ⟨last, second, -⟩ := getStateFor_spec checker advance
    (fun other (same : some block = some other) => by cases same; exact short) middleSound
  refine ⟨_, _, middle, last, first, second, ?_⟩
  rw [expectedState, expectedState]
  split_ifs
  · rfl
  · rfl
  have within := div_mul_le_self (tree.nHeight ancestor + 1) checker.period.toInt.toNat
  have agrees : checker.deploymentState tree (some ancestor) = _ :=
    stateAfter_getAncestor found (by rw [checker.period_eq.1, Int.toNat_natCast]; omega)
  rw [agrees]
  exact mayBecome_stateAfter (Nat.div_le_div_right (by omega))

theorem getStateFor_mayBecome_twoBlocks : ∃ old new middle last,
      (everyBlock 2).getStateFor twoBlocks (some false) ∅ = .ok (old, middle) ∧
      (everyBlock 2).getStateFor twoBlocks (some true) middle = .ok (new, last) ∧
      old.mayBecome new := by
  have advance : ∀ block parent, twoBlocks.pprev block = some parent →
      twoBlocks.getMedianTimePast parent < twoBlocks.getBlockTime block := by
    decide +kernel
  have found : twoBlocks.getAncestor true 0 = some false := by decide
  exact getStateFor_mayBecome advance found (by decide) nofun

end ThresholdConditionChecker

end Champy
