import Champy.ContextualChecksAgreement
import Champy.ValidationVerify

/-!
# The time that lock times are compared with

The consensus library compares lock times with the previous median time once relative lock
times are enforced, and with the block's own time before.  `verify` compares them with the
previous median time in both cases.  A block is later than the median time before it, so
`verify` rejects every transaction that the consensus library rejects, and without relative
lock times some more.
-/

namespace Champy

namespace Validation

open Protocol Exec

/-! ## Rules before the finality of transactions -/

/-- What a failure says about the finality of the transactions: nothing when the rules before
it stopped, not final, or final when a later rule stopped. -/
def finalityOfFailure : Failure Stop → Option Bool
  | .reject (.invalid rejection) =>
    match rejection.rule with
    | .c01TransactionFinality => some false
    | .c04CoinbaseHeight => some true
    | .c05WitnessCommitmentPresence => some true
    | .c06WitnessNoncePresence => some true
    | .c07WitnessMerkleCommitment => some true
    | _ => none
  | _ => none

def Says (finality : Option Bool) (failure : Failure Stop) : Prop :=
  finalityOfFailure failure = finality

variable {failure : Failure Stop}

@[simp]
theorem says_iff {finality : Option Bool} :
    Says finality failure ↔ finalityOfFailure failure = finality :=
  Iff.rfl

@[simp]
theorem failsOnly_checkedInt64 {value : Int} : FailsOnly (Says none) (checkedInt64 value) := by
  simp [checkedInt64, abort, finalityOfFailure]

variable {doubleSha256 : ByteHash} {cond : Bool} {error : Stop}

theorem failsOnly_addOutputValue (maxMoney outputSum : Int64) (output : TxOutput) :
    FailsOnly (Says none) (addOutputValue maxMoney outputSum output) := by
  simp [addOutputValue, require, subInt64, addInt64, finalityOfFailure]

@[simp]
theorem failsOnly_assessTransactionIntrinsic (doubleSha256 : ByteHash)
    (tx : Transaction) (context : TransactionContext) :
    FailsOnly (Says none) (assessTransactionIntrinsic doubleSha256 tx context) := by
  simp [assessTransactionIntrinsic, requireInputRules, require, finalityOfFailure,
    failsOnly_foldlM (failsOnly_addOutputValue _)]

@[simp]
theorem failsOnly_assessBlockIntrinsic (doubleSha256 : ByteHash) (candidate : Block)
    (context : BlockLocalContext) :
    FailsOnly (Says none) (assessBlockIntrinsic doubleSha256 candidate context) := by
  simp [assessBlockIntrinsic, require, finalityOfFailure, failsOnly_mapM]

@[simp]
theorem failsOnly_difficultyAdjustmentInterval (params : ConsensusParams) :
    FailsOnly (Says none) (difficultyAdjustmentInterval params) := by
  simp [difficultyAdjustmentInterval, finalityOfFailure]

variable (header : BlockHeader) (context : HeaderContext)

@[simp]
theorem failsOnly_expectedDifficultyBits (params : ConsensusParams) :
    FailsOnly (Says none) (expectedDifficultyBits header context params) := by
  have stored (bits : UInt32) : FailsOnly (Says none) (storedTarget bits params.powLimit) := by
    rw [storedTarget]
    split
    · exact failsOnly_error.mpr rfl
    · exact .ok
  have inside : FailsOnly (Says none) (targetInsidePeriod header context params) := by
    rw [targetInsidePeriod]
    split
    · simp [finalityOfFailure]
    · exact .ok
  have start : FailsOnly (Says none) (targetAtPeriodStart context params) := by
    rw [targetAtPeriodStart]
    split
    · exact .ok
    · simp [finalityOfFailure, stored]
  rw [expectedDifficultyBits]
  split
  · split
    · exact failsOnly_error.mpr rfl
    · exact .ok
  · simp [inside, start]

@[simp]
theorem failsOnly_violatesTimewarp (params : ConsensusParams) :
    FailsOnly (Says none) (violatesTimewarp header context params) := by
  simp [violatesTimewarp, finalityOfFailure]

theorem failsOnly_assessHeaderWithContext (doubleSha256 : ByteHash)
    (header : BlockHeader) (context : HeaderContext) (time : Int64) (params : ConsensusParams) :
    FailsOnly (Says none) (assessHeaderWithContext doubleSha256 header context time params) := by
  have reference : FailsOnly (Says none) (requireParentReference header context) := by
    simp [requireParentReference, require, finalityOfFailure]
  simp only [assessHeaderWithContext, require]
  apply reference.bind
  intro _
  split <;> simp [invalid, reject, finalityOfFailure]

/-! ## The verdict -/

def verdictOf : VerifyResult BlockFacts → Option Bool
  | .ok _ => some true
  | .error failure => finalityOfFailure failure

/-- The verdict of `verify` on the finality of a block's transactions, if it comes to one. -/
def finalityVerdict : Exec EvidenceStop BlockFacts → Option Bool
  | .ok _ => some true
  | .error (.reject (.stopped stop)) => finalityOfFailure (.reject stop)
  | .error _ => none

theorem finalityVerdict_mapReject (run : VerifyResult BlockFacts) :
    finalityVerdict (Exec.mapReject EvidenceStop.stopped run) = verdictOf run := by
  rcases run with (stop | fault) | facts <;> rfl

variable {run : VerifyResult BlockFacts}

theorem verdictOf_eq_none
    (stopped : run = .error failure) (early : Says none failure) : verdictOf run = none := by
  rw [stopped]
  exact early

variable {next : Unit → VerifyResult BlockFacts}

theorem verdictOf_ensure_bind (holds : cond = true) :
    verdictOf (Exec.ensure cond error >>= next) = verdictOf (next ()) := by
  rw [holds]
  rfl

theorem verdictOf_ensure_bind_of_false (broken : cond = false) :
    verdictOf (Exec.ensure cond error >>= next) = finalityOfFailure (.reject error) := by
  rw [broken]
  rfl

theorem forM_assessTransactionFinality_eq {context : TransactionFinalityContext}
    {txs : List Transaction}
    (accepted : ∀ tx ∈ txs, (assessTransactionIntrinsic doubleSha256 tx ⟨context.limits⟩).accepts) :
    (txs.forM fun tx => do
        let _ ← assessTransactionFinality doubleSha256 tx context) =
      if ∀ tx ∈ txs, finalUnderLocktime tx context = true then .ok ()
      else invalid .c01TransactionFinality "transaction locktime is not final" := by
  induction txs with
  | nil => rfl
  | cons tx txs ih =>
    obtain ⟨facts, ran⟩ := accepted tx List.mem_cons_self
    have later := ih fun other mem => accepted other (List.mem_cons_of_mem tx mem)
    rw [List.forM_eq_forM] at later ⊢
    rw [List.forM_cons, later, assessTransactionFinality, ran]
    simp only [List.forall_mem_cons]
    cases final : finalUnderLocktime tx context with
    | true => simp [require, Exec.ensure]
    | false => simp [require, Exec.ensure, Exec.reject, invalid]

theorem verdictOf_of_failsOnly (late : FailsOnly (Says (some true)) run) :
    verdictOf run = some true := by
  cases ended : run with
  | ok facts => rfl
  | error failure => exact late failure ended

theorem failsOnly_requireWitnessCommitment (segwitActive : Bool) (facts : BlockFacts)
    (coinbaseWitness : List (List UInt8)) :
    FailsOnly (Says (some true))
      (requireWitnessCommitment doubleSha256 segwitActive facts coinbaseWitness) := by
  simp only [requireWitnessCommitment, require]
  split <;> simp [finalityOfFailure]

section Contextual

variable {doubleSha256 : ByteHash} {candidate : Block}
  {context : BlockContextualContext} {facts : BlockFacts}

theorem accepts_of_assessBlockIntrinsic {context : BlockLocalContext}
    (ran : assessBlockIntrinsic doubleSha256 candidate context = .ok facts) :
    ∀ tx ∈ candidate.transactions,
      (assessTransactionIntrinsic doubleSha256 tx context.limits.transactions).accepts := by
  simp only [assessBlockIntrinsic, require, bind_eq_ok, ensure_eq_ok, exists_const] at ran
  obtain ⟨-, -, -, -, -, -, transactionFacts, mapped, -⟩ := ran
  exact mapM_exists_ok_iff.mp ⟨transactionFacts, mapped⟩

theorem noWitnessBeforeSegwit_iff {segwitActive hasWitness : Bool} :
    (!(!segwitActive && hasWitness)) = true ↔ segwitActive = true ∨ hasWitness = false := by
  cases segwitActive <;> cases hasWitness <;> decide

theorem verdictOf_assessBlockContextual
    (ran : assessBlockIntrinsic doubleSha256 candidate context.localContext = .ok facts)
    (witness : context.deployments.segwitActive = true ∨ facts.hasWitness = false)
    (weight : facts.weight ≤ context.localContext.limits.maxBlockWeight) :
    verdictOf (assessBlockContextual doubleSha256 candidate context) =
      some (decide (∀ tx ∈ candidate.transactions, finalUnderLocktime tx
        ⟨context.localContext.limits.transactions.limits, context.height,
          context.locktimeCutoff⟩ = true)) := by
  have finality := @forM_assessTransactionFinality_eq doubleSha256
    ⟨context.localContext.limits.transactions.limits, context.height, context.locktimeCutoff⟩
    candidate.transactions (accepts_of_assessBlockIntrinsic ran)
  simp only [assessBlockContextual, ran, ok_bind, require,
    noWitnessBeforeSegwit_iff.mpr witness, decide_eq_true weight, Exec.ensure_true, finality]
  by_cases final : ∀ tx ∈ candidate.transactions, finalUnderLocktime tx
      ⟨context.localContext.limits.transactions.limits, context.height,
        context.locktimeCutoff⟩ = true
  · rw [if_pos final, decide_eq_true final, ok_bind]
    apply verdictOf_of_failsOnly
    simp [failsOnly_requireWitnessCommitment, finalityOfFailure]
  · rw [if_neg final, decide_eq_false final]
    rfl

/-- The contextual rules come to the finality of the transactions. -/
def BodyReachesFinality (doubleSha256 : ByteHash) (candidate : Block)
    (context : BlockContextualContext) : Prop :=
  ∃ facts, assessBlockIntrinsic doubleSha256 candidate context.localContext = .ok facts ∧
    (context.deployments.segwitActive = true ∨ facts.hasWitness = false) ∧
    facts.weight ≤ context.localContext.limits.maxBlockWeight

theorem verdictOf_assessBlockContextual_of_not
    (stops : ¬BodyReachesFinality doubleSha256 candidate context) :
    verdictOf (assessBlockContextual doubleSha256 candidate context) = none := by
  rw [assessBlockContextual]
  cases ran : assessBlockIntrinsic doubleSha256 candidate context.localContext with
  | error failure => exact failsOnly_assessBlockIntrinsic _ _ _ failure ran
  | ok facts =>
    rw [ok_bind]
    by_cases witness : context.deployments.segwitActive = true ∨ facts.hasWitness = false
    · have heavy : ¬facts.weight ≤ context.localContext.limits.maxBlockWeight :=
        fun weight => stops ⟨facts, ran, witness, weight⟩
      rw [require, verdictOf_ensure_bind (noWitnessBeforeSegwit_iff.mpr witness), require,
        verdictOf_ensure_bind_of_false (decide_eq_false heavy)]
      rfl
    · rw [require, verdictOf_ensure_bind_of_false
        (Bool.eq_false_of_not_eq_true fun holds => witness (noWitnessBeforeSegwit_iff.mp holds))]
      rfl

theorem verdictOf_assessBlockContextual_eq_some_iff {verdict : Bool} :
    verdictOf (assessBlockContextual doubleSha256 candidate context) = some verdict ↔
      BodyReachesFinality doubleSha256 candidate context ∧
        (verdict = true ↔ ∀ tx ∈ candidate.transactions, finalUnderLocktime tx
          ⟨context.localContext.limits.transactions.limits, context.height,
            context.locktimeCutoff⟩ = true) := by
  by_cases reaches : BodyReachesFinality doubleSha256 candidate context
  · obtain ⟨facts, ran, witness, weight⟩ := id reaches
    rw [verdictOf_assessBlockContextual ran witness weight, Option.some.injEq,
      and_iff_right reaches, eq_comm, Bool.eq_iff_iff, decide_eq_true_iff]
  · rw [verdictOf_assessBlockContextual_of_not reaches]
    simp [reaches]

end Contextual

/-! ## Lock times at two times -/

/-- A lock time that is not reached, in a transaction with an input that does not switch it
off. -/
def LockedAt (tx : Transaction) (height time : Int) : Prop :=
  tx.locktime ≠ 0 ∧
    (if tx.locktime < locktimeThreshold then height ≤ tx.locktime.toNat
      else time ≤ tx.locktime.toNat) ∧
    ∃ input ∈ tx.inputs, input.sequence ≠ 0xffffffff

/-- A lock time, given as a time, that is reached at the later time only. -/
def LockedBetween (tx : Transaction) (earlier later : Int) : Prop :=
  locktimeThreshold ≤ tx.locktime ∧ earlier ≤ tx.locktime.toNat ∧ tx.locktime.toNat < later ∧
    ∃ input ∈ tx.inputs, input.sequence ≠ 0xffffffff

theorem finalUnderLocktime_eq_true_iff (tx : Transaction) (context : TransactionFinalityContext) :
    finalUnderLocktime tx context = true ↔
      ¬LockedAt tx context.height.toInt context.timestamp.toNat := by
  have sequences : (tx.inputs.all fun input => input.sequence == 0xffffffff) = true ↔
      ¬∃ input ∈ tx.inputs, input.sequence ≠ 0xffffffff := by
    simp
  rw [finalUnderLocktime, LockedAt, ite_eq_left_iff, ite_eq_left_iff, sequences]
  split <;> grind

theorem lockedAt_iff_of_le {tx : Transaction} {height earlier later : Int}
    (ordered : earlier ≤ later) :
    LockedAt tx height earlier ↔ LockedAt tx height later ∨ LockedBetween tx earlier later := by
  rw [LockedAt, LockedAt, LockedBetween, ← UInt32.not_lt]
  split
  case isTrue byHeight => simp [byHeight]
  case isFalse byTime =>
    have nonzero : tx.locktime ≠ 0 := by
      intro zero
      rw [zero] at byTime
      exact byTime (by decide)
    grind

/-! ## The context of a chain -/

variable (headers : List BlockHeader)

theorem withDifficultyPeriod_fields (params : ConsensusParams) (context : HeaderContext) :
    (withDifficultyPeriod headers params context).height = context.height ∧
      (withDifficultyPeriod headers params context).previousMedianTimePast =
        context.previousMedianTimePast ∧
      (withDifficultyPeriod headers params context).hasParent = context.hasParent := by
  simp only [withDifficultyPeriod]
  by_cases noInterval : params.difficultyAdjustmentInterval ≤ 0
  · simp [noInterval]
  · rw [if_neg noInterval]
    by_cases reaches : params.difficultyAdjustmentInterval.toNat ≤ headers.length
    · rw [if_pos reaches]
      split <;> exact ⟨rfl, rfl, rfl⟩
    · rw [if_neg reaches]
      split <;> exact ⟨rfl, rfl, rfl⟩

variable {ancestors : HeaderContext} {params : ConsensusParams}

theorem validateHeaderContext_fields {headers : List BlockHeader}
    (validated : validateHeaderContext doubleSha256 headers params = .ok ancestors) :
    ancestors.height = Int32.ofNat headers.length ∧
      ancestors.previousMedianTimePast = previousMedianTimePast headers ∧
      (headers = [] ∨ ancestors.hasParent = true) := by
  cases headers with
  | nil =>
    cases validated
    exact ⟨rfl, rfl, .inl rfl⟩
  | cons genesis later =>
    simp only [validateHeaderContext, bind_eq_ok, ensure_eq_ok, exists_const,
      pure_eq_ok, Except.ok.injEq] at validated
    obtain ⟨-, -, -, rfl⟩ := validated
    obtain ⟨height, median, parent⟩ := withDifficultyPeriod_fields (genesis :: later) params _
    exact ⟨height, median, .inr parent⟩

theorem exists_previousMedianTimePast :
    ∃ median : UInt32, previousMedianTimePast headers = Int64.ofNat median.toNat := by
  simp only [previousMedianTimePast]
  split
  · exact ⟨0, rfl⟩
  · exact ⟨_, rfl⟩

theorem locktimeCutoff_ofNat (time : UInt32) :
    locktimeCutoff (Int64.ofNat time.toNat) = .ok time := by
  have bound := time.toNat_lt
  have value := toInt_ofNat_toNat time
  have inRange : ¬(Int64.ofNat time.toNat < 0 ∨ Int64.ofNat time.toNat > 0xffffffff) := by
    rw [gt_iff_lt, Int64.lt_iff_toInt_lt, Int64.lt_iff_toInt_lt, value,
      show (0xffffffff : Int64).toInt = 0xffffffff from rfl, show (0 : Int64).toInt = 0 from rfl]
    omega
  have small : time.toNat < UInt64.size := by
    change time.toNat < 2 ^ 64
    omega
  rw [locktimeCutoff, if_neg inRange, pure_eq_ok, Except.ok.injEq, ← UInt32.toNat_inj,
    UInt64.toNat_toUInt32, Int64.toUInt64_ofNat', UInt64.toNat_ofNat_of_lt' small,
    Nat.mod_eq_of_lt bound]

/-- A block with a parent is later than the median time before it. -/
theorem previousMedianTimePast_lt {header : BlockHeader} {time : Int64}
    (accepted : (assessHeaderWithContext doubleSha256 header ancestors time params).accepts)
    (parent : ancestors.hasParent = true) :
    ancestors.previousMedianTimePast.toInt < header.time.toNat := by
  obtain ⟨facts, ran⟩ := accepted
  simp only [assessHeaderWithContext, require, bind_eq_ok, ensure_eq_ok, exists_const] at ran
  obtain ⟨_, -, -, ran⟩ := ran
  cases derived : deriveTarget header.bits params.powLimit with
  | none => simp [derived, invalid] at ran
  | some target =>
    simp only [derived, bind_eq_ok, ensure_eq_ok, exists_const] at ran
    obtain ⟨bits, -, -, timewarp, -, -, later, -⟩ := ran
    simpa [parent] using later

/-! ## The two verdicts -/

section Verdicts

variable (doubleSha256 : ByteHash) (block : Block) (headers : List BlockHeader)
  (time : Int64) (context : BlockValidationContext)

/-- The rules that `verify` checks before the finality of the transactions accept. -/
def ReachesFinality : Prop :=
  ∃ ancestors facts, validateHeaderContext doubleSha256 headers context.consensus = .ok ancestors ∧
    (assessHeaderWithContext doubleSha256 block.header ancestors time context.consensus).accepts ∧
    assessBlockIntrinsic doubleSha256 block { limits := context.limits } = .ok facts ∧
    (context.deployments.segwitActive = true ∨ facts.hasWitness = false) ∧
    facts.weight ≤ context.limits.maxBlockWeight

/-- The options of the consensus library for the same block, chain and deployments. -/
def contextualOptions : BlockContextualTransactionOptions :=
  buildBlockContextualTransactionOptions (toCoreHeader block.header)
    ⟨Int32.ofNat headers.length, previousMedianTimePast headers,
      ⟨context.deployments.heightInCoinbaseActive, context.locktime.verifySequence,
        context.deployments.segwitActive⟩⟩

theorem finalityVerdict_verifyOnChain_eq_some_iff {verdict : Bool} :
    finalityVerdict (verifyOnChain doubleSha256 block headers time context) = some verdict ↔
      ReachesFinality doubleSha256 block headers time context ∧
        (verdict = true ↔ ∀ tx ∈ block.transactions, ¬LockedAt tx (Int32.ofNat headers.length).toInt
            (previousMedianTimePast headers).toInt) := by
  obtain ⟨median, isMedian⟩ := exists_previousMedianTimePast headers
  rw [verifyOnChain, ReachesFinality]
  cases validated : validateHeaderContext doubleSha256 headers context.consensus with
  | error failure =>
    rcases failure with (code | error) | fault <;>
      simp [Exec.mapReject, finalityVerdict, HeaderContextStop.toEvidence, finalityOfFailure]
  | ok ancestors =>
    obtain ⟨height, ancestorsMedian, -⟩ := validateHeaderContext_fields validated
    have cutoff : locktimeCutoff ancestors.previousMedianTimePast = .ok median := by
      rw [ancestorsMedian, isMedian, locktimeCutoff_ofNat]
    rw [Exec.mapReject_eq_ok.mpr rfl, ok_bind, finalityVerdict_mapReject, verify, cutoff, ok_bind]
    cases ran : assessHeaderWithContext doubleSha256 block.header ancestors time
        context.consensus with
    | error failure =>
      have early : Says none failure := failsOnly_assessHeaderWithContext _ _ _ _ _ failure ran
      rw [error_bind, verdictOf_eq_none rfl early]
      constructor
      · intro impossible
        cases impossible
      · intro reached
        obtain ⟨⟨other, facts, isOther, ⟨headerFacts, accepted⟩, -⟩, -⟩ := reached
        cases isOther
        rw [ran] at accepted
        cases accepted
    | ok facts =>
      rw [ok_bind, verdictOf_assessBlockContextual_eq_some_iff]
      simp only [finalUnderLocktime_eq_true_iff, height, isMedian, toInt_ofNat_toNat]
      apply and_congr_left
      intro _
      constructor
      · intro reached
        obtain ⟨blockFacts, intrinsic, witness, weight⟩ := reached
        exact ⟨ancestors, blockFacts, rfl, ⟨facts, ran⟩, intrinsic, witness, weight⟩
      · intro reached
        obtain ⟨_, blockFacts, _, _, intrinsic, witness, weight⟩ := reached
        exact ⟨blockFacts, intrinsic, witness, weight⟩

theorem checkBlockFinalTransactions_contextualOptions_iff :
    checkBlockFinalTransactions (toCoreBlock doubleSha256 block).vtx
        (contextualOptions block headers context).blockHeight
        (contextualOptions block headers context).locktimeCutoff = .ok () ↔
      ∀ tx ∈ block.transactions, ¬LockedAt tx (Int32.ofNat headers.length).toInt
        (if context.locktime.verifySequence then (previousMedianTimePast headers).toInt
          else block.header.time.toNat) := by
  obtain ⟨median, isMedian⟩ := exists_previousMedianTimePast headers
  obtain ⟨cutoff, isCutoff, value⟩ : ∃ cutoff : UInt32,
      (contextualOptions block headers context).locktimeCutoff = Int64.ofNat cutoff.toNat ∧
      (cutoff.toNat : Int) = if context.locktime.verifySequence then
        (previousMedianTimePast headers).toInt else block.header.time.toNat := by
    simp only [contextualOptions, buildBlockContextualTransactionOptions, isMedian,
      toInt_ofNat_toNat]
    split
    · exact ⟨median, rfl, rfl⟩
    · exact ⟨block.header.time, rfl, rfl⟩
  rw [isCutoff, checkBlockFinalTransactions_eq_ok_iff, ← value]
  simp only [finalUnderLocktime_eq_true_iff]
  rfl

/-- The previous median time is not after the time of a block that `verify` gets that far. -/
theorem ReachesFinality.previousMedianTimePast_le
    (reaches : ReachesFinality doubleSha256 block headers time context) :
    (previousMedianTimePast headers).toInt ≤ block.header.time.toNat := by
  obtain ⟨ancestors, facts, validated, accepted, -⟩ := reaches
  obtain ⟨-, median, noParent | parent⟩ := validateHeaderContext_fields validated
  · rw [noParent, show previousMedianTimePast [] = 0 by simp [previousMedianTimePast]]
    exact Int.natCast_nonneg block.header.time.toNat
  · rw [← median]
    exact (previousMedianTimePast_lt accepted parent).le

/-- Verdicts that are given once the earlier rules accept agree exactly when what they say
does. -/
theorem verdict_agrees_iff {outcome : Option Bool} {reaches final coreFinal : Prop}
    (given : ∀ verdict, outcome = some verdict ↔ reaches ∧ (verdict = true ↔ final)) :
    (∀ verdict, outcome = some verdict → (verdict = true ↔ coreFinal)) ↔
      (reaches → (final ↔ coreFinal)) := by
  classical
  constructor
  · intro agrees reached
    have atVerdict := agrees (decide final) ((given _).mpr ⟨reached, decide_eq_true_iff⟩)
    rwa [decide_eq_true_iff] at atVerdict
  · intro agrees verdict isVerdict
    obtain ⟨reached, meaning⟩ := (given verdict).mp isVerdict
    rw [meaning, agrees reached]

/-- The verdict of `verify` is the one of the consensus library exactly in these cases. -/
theorem finalityVerdict_agrees_iff :
    (∀ verdict, finalityVerdict (verifyOnChain doubleSha256 block headers time context) =
        some verdict →
      (verdict = true ↔ checkBlockFinalTransactions (toCoreBlock doubleSha256 block).vtx
        (contextualOptions block headers context).blockHeight
        (contextualOptions block headers context).locktimeCutoff = .ok ())) ↔
      (ReachesFinality doubleSha256 block headers time context →
        context.locktime.verifySequence = true ∨
        (∀ tx ∈ block.transactions, ¬LockedBetween tx (previousMedianTimePast headers).toInt
          block.header.time.toNat) ∨
        ∃ tx ∈ block.transactions,
          LockedAt tx (Int32.ofNat headers.length).toInt block.header.time.toNat) := by
  rw [checkBlockFinalTransactions_contextualOptions_iff, verdict_agrees_iff fun verdict =>
    finalityVerdict_verifyOnChain_eq_some_iff doubleSha256 block headers time context]
  apply forall_congr'
  intro reaches
  by_cases csv : context.locktime.verifySequence = true
  · simp [csv]
  · have ordered := reaches.previousMedianTimePast_le
    simp only [csv, lockedAt_iff_of_le ordered, not_or]
    constructor
    · intro same
      by_cases locked : ∃ tx ∈ block.transactions,
          LockedAt tx (Int32.ofNat headers.length).toInt block.header.time.toNat
      · exact .inr (.inr locked)
      · have final := same.mpr fun tx mem isLocked => locked ⟨tx, mem, isLocked⟩
        exact .inr (.inl fun tx mem => (final tx mem).2)
    · intro condition
      constructor
      · intro final tx mem
        exact (final tx mem).1
      · intro final tx mem
        rcases condition with impossible | noneBetween | ⟨other, otherMem, isLocked⟩
        · exact absurd impossible (by decide)
        · exact ⟨final tx mem, noneBetween tx mem⟩
        · exact absurd isLocked (final other otherMem)

end Verdicts

/-- The only header before `lockedBlock`. -/
def lockedParent : BlockHeader := ⟨1, 0, 0, 500000010, 0x207fffff, 0⟩

/-- A block whose lock time is after the previous median time and before its own time. -/
def lockedBlock : Block :=
  ⟨⟨1, 0, 0, 500000100, 0x207fffff, 0⟩,
    [⟨1, [⟨⟨0, 0xffffffff⟩, [1, 1], 0, []⟩], [⟨0, []⟩], 500000050⟩]⟩

/-- A context in which relative lock times are not enforced. -/
def beforeRelativeLocks : BlockValidationContext where
  consensus := { powLimit := 0x7fffffffffffffffffffffffffffffffffffffffffffffffffffffffffffffff }
  deployments := ⟨false, false⟩

theorem finalityVerdict_lockedBlock :
    finalityVerdict (verifyOnChain (fun _ => 0) lockedBlock [lockedParent] 500000100
        beforeRelativeLocks) = some false ∧
      checkBlockFinalTransactions (toCoreBlock (fun _ => 0) lockedBlock).vtx
        (contextualOptions lockedBlock [lockedParent] beforeRelativeLocks).blockHeight
        (contextualOptions lockedBlock [lockedParent] beforeRelativeLocks).locktimeCutoff =
          .ok () := by
  decide +kernel

/-- With relative lock times both libraries find the same block not final. -/
theorem finalityVerdict_agrees_withRelativeLocks :
    finalityVerdict (verifyOnChain (fun _ => 0) lockedBlock [lockedParent] 500000100
        { beforeRelativeLocks with locktime := ⟨1⟩ }) = some false ∧
      (false = true ↔ checkBlockFinalTransactions (toCoreBlock (fun _ => 0) lockedBlock).vtx
        (contextualOptions lockedBlock [lockedParent]
          { beforeRelativeLocks with locktime := ⟨1⟩ }).blockHeight
        (contextualOptions lockedBlock [lockedParent]
          { beforeRelativeLocks with locktime := ⟨1⟩ }).locktimeCutoff = .ok ()) := by
  have reached : finalityVerdict (verifyOnChain (fun _ => 0) lockedBlock [lockedParent] 500000100
      { beforeRelativeLocks with locktime := ⟨1⟩ }) = some false := by
    decide +kernel
  exact ⟨reached, (finalityVerdict_agrees_iff (fun _ => 0) lockedBlock [lockedParent] 500000100
    { beforeRelativeLocks with locktime := ⟨1⟩ }).mpr (fun _ => .inl rfl) false reached⟩

end Validation

end Champy
