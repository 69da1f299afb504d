import Champy.CompactTargets

/-!
# The two difficulty rules agree

The value library collects ancestors by their index in a list of headers; the consensus library
walks back from the last block of the index.  Over the same chain both find the same first block
of the period and the same last block above the minimum difficulty, and the two retargets compute
the same number, because the limit leaves room for the product.
-/

namespace Champy

open ArithUint256 Validation List ConsensusParams PowNumber

namespace Validation

open Protocol Exec

/-! ## The same parameters and the same chain -/

@[simps]
def ConsensusParams.toCore (params : ConsensusParams) : ProofOfWorkParams where
  powLimit := params.powLimit
  fPowAllowMinDifficultyBlocks := params.allowMinDifficultyBlocks
  enforceBIP94 := params.enforceBip94
  fPowNoRetargeting := params.noRetargeting
  nPowTargetSpacing := params.targetSpacing
  nPowTargetTimespan := params.targetTimespan

/-- The index entry of a header that has the given number of ancestors. -/
def indexEntry (header : BlockHeader) (ancestors : Nat) : BlockIndexEntry :=
  ⟨Int32.ofNat ancestors, header.time, header.bits⟩

/-- The index entries of a chain whose last header stands first. -/
def indexEntries : List BlockHeader → List BlockIndexEntry
  | [] => []
  | header :: older => indexEntry header older.length :: indexEntries older

def indexedChain (headers : List BlockHeader) : Option IndexedChain :=
  match headers.reverse with
  | [] => none
  | parent :: older => some ⟨indexEntry parent older.length, indexEntries older⟩

abbrev chainOf (parent : BlockHeader) (older : List BlockHeader) : IndexedChain :=
  ⟨indexEntry parent older.length, indexEntries older⟩

/-- Each header references the one before it, and the first references nothing. -/
def ContiguousChain (hash256 : ByteHash) (headers : List BlockHeader) : Prop :=
  (∀ genesis ∈ headers.head?, genesis.previousBlockHash = 0) ∧
    headers.IsChain fun previous header =>
      header.previousBlockHash = previous.hash hash256

theorem contiguousAfter_iff (hash256 : ByteHash) (previous : BlockHeader)
    (headers : List BlockHeader) :
    contiguousAfter hash256 previous headers = true ↔
      (previous :: headers).IsChain fun previous header =>
        header.previousBlockHash = previous.hash hash256 := by
  induction headers generalizing previous with
  | nil => simp [contiguousAfter]
  | cons header headers ih =>
    rw [contiguousAfter, Bool.and_eq_true, beq_iff_eq, ih, isChain_cons_cons]

theorem indexEntries_getElem? (headers : List BlockHeader) (index : Nat) :
    (indexEntries headers)[index]? =
      headers[index]?.map fun header => indexEntry header (headers.length - 1 - index) := by
  induction headers generalizing index with
  | nil => rfl
  | cons header older ih =>
    cases index with
    | zero => simp [indexEntries]
    | succ index =>
      have pos : older.length - 1 - index = older.length + 1 - 1 - (index + 1) := by omega
      rw [indexEntries, getElem?_cons_succ, getElem?_cons_succ, ih, length_cons, pos]

theorem getD_reverse {headers : List BlockHeader} {index : Nat} (inside : index < headers.length)
    (default default' : BlockHeader) :
    headers.reverse.getD (headers.length - 1 - index) default = headers.getD index default' := by
  have pos : headers.length - 1 - index < headers.length := by omega
  have back : headers.length - 1 - (headers.length - 1 - index) = index := by omega
  rw [getD_eq_getElem?_getD, getD_eq_getElem?_getD, getElem?_reverse pos, back,
    getElem?_eq_getElem inside, Option.getD_some, Option.getD_some]

/-! ## The walk back over minimum difficulty -/

theorem getD_parent (parent default : BlockHeader) (older later : List BlockHeader) :
    ((parent :: older).reverse ++ later).getD older.length default = parent := by
  simp [getD_eq_getElem?_getD]

theorem toInt_nHeight (header : BlockHeader) {ancestors : Nat} (bound : ancestors < 2 ^ 31) :
    (indexEntry header ancestors).nHeight.toInt = ancestors :=
  Int32.toInt_ofNat_of_lt bound

theorem lastNonMinDifficultyTarget_eq (powLimitBits : UInt32) (interval : Int)
    (parent : BlockHeader) (older later : List BlockHeader) (bound : older.length < 2 ^ 31) :
    lastNonMinDifficultyTarget powLimitBits interval ((parent :: older).reverse ++ later)
        (older.length + 1) =
      some (lastNonMinDifficultyBits powLimitBits interval (indexEntry parent older.length)
        (indexEntries older)) := by
  induction older generalizing parent later with
  | nil =>
    rw [lastNonMinDifficultyTarget, getD_parent]
    simp [lastNonMinDifficultyBits, indexEntries, indexEntry]
  | cons grandparent older ih =>
    have earlier := ih grandparent (parent :: later) (by rw [length_cons] at bound; omega)
    have chain : (parent :: grandparent :: older).reverse ++ later =
        (grandparent :: older).reverse ++ (parent :: later) := by
      rw [reverse_cons, append_assoc, singleton_append]
    have bits : (indexEntry parent (grandparent :: older).length).nBits = parent.bits := rfl
    rw [lastNonMinDifficultyTarget, getD_parent, indexEntries, lastNonMinDifficultyBits,
      toInt_nHeight parent bound, bits]
    by_cases goesOn : ((grandparent :: older).length : Int).tmod interval ≠ 0 ∧
        parent.bits = powLimitBits
    · have passes : ¬ (parent.bits ≠ powLimitBits ∨
          ((grandparent :: older).length : Int).tmod interval = 0) := by
        rw [not_or, not_not]
        exact ⟨goesOn.2, goesOn.1⟩
      rw [if_neg passes, if_pos goesOn, chain]
      exact earlier
    · have stops : parent.bits ≠ powLimitBits ∨
          ((grandparent :: older).length : Int).tmod interval = 0 := by
        rw [not_and_or, not_not] at goesOn
        exact goesOn.symm
      rw [if_pos stops, if_neg goesOn]

/-! ## Retargeting -/

theorem deriveTarget_eq_some {compact : UInt32} {limit : Uint256} {target : Words 8}
    (derived : deriveTarget compact limit = some target) :
    target = (setCompact compact).value ∧ target.toNat ≤ limit.toNat := by
  simp only [deriveTarget] at derived
  split at derived
  · cases derived
  · split at derived
    · cases derived
    · split at derived
      next => cases derived
      next inside =>
        cases derived
        rw [Words.compare_eq, Nat.compare_eq_gt, toNat_fromBytes] at inside
        exact ⟨fromCompact_eq compact, Nat.not_lt.mp inside⟩

theorem toNat_uint32_ofInt {value : Int} (nonneg : 0 ≤ value) (bound : value < 2 ^ 32) :
    (UInt32.ofInt value).toNat = value.toNat := by
  rw [UInt32.ofInt, Int.emod_eq_of_lt nonneg bound, UInt32.toNat_ofNat_of_lt' (by
    rw [UInt32.size]
    omega)]

theorem toNat_uint64_ofInt {value : Int} (nonneg : 0 ≤ value) (bound : value < 2 ^ 64) :
    (UInt64.ofInt value).toNat = value.toNat := by
  rw [UInt64.ofInt, Int.emod_eq_of_lt nonneg bound, UInt64.toNat_ofNat_of_lt' (by
    rw [UInt64.size]
    omega)]

theorem toNat_ofUInt64 (b : UInt64) : (ofUInt64 b).toNat = b.toNat := by
  have bound := b.toNat_lt
  have amount : (32 : UInt64).toNat % 64 = 32 := rfl
  apply toNat_ofFn_digits
  · intro index inside
    rcases Nat.lt_trichotomy index 1 with first | second | other
    · have zero : index = 0 := by omega
      subst zero
      simp
    · subst second
      rw [if_neg (by decide), if_pos rfl, UInt64.toNat_toUInt32, UInt64.toNat_shiftRight, amount,
        Nat.shiftRight_eq_div_pow, Nat.mul_one]
    · have larger : 2 ^ 64 ≤ 2 ^ (32 * index) := Nat.pow_le_pow_right (by decide) (by omega)
      rw [if_neg (by omega), if_neg (by omega), Nat.div_eq_of_lt (by omega)]
      rfl
  · exact Nat.lt_trans bound (by decide)

/-- The timespan that counts. -/
def clampedTimespan (actual target : Int) : Int :=
  if actual < target.tdiv 4 then target.tdiv 4
  else if target * 4 < actual then target * 4 else actual

section Retarget

variable {target : Int} (positive : 0 < target) (short : 4 * target < 2 ^ 32)

include positive short

variable (actual : Int)

theorem clampedTimespan_bounds :
    0 ≤ clampedTimespan actual target ∧ clampedTimespan actual target ≤ 4 * target := by
  have quarter : target.tdiv 4 = target / 4 := Int.tdiv_eq_ediv_of_nonneg (by omega)
  rw [clampedTimespan, quarter]
  split
  · omega
  · split <;> omega

theorem clampTimespan_eq : clampTimespan actual target = .ok (clampedTimespan actual target) := by
  have quarter : target.tdiv 4 = target / 4 := Int.tdiv_eq_ediv_of_nonneg (by omega)
  obtain ⟨longest, longestEq, value⟩ := exists_checkedInt64 (target * 4) (by omega) (by omega)
  rw [clampTimespan, longestEq, ok_bind, value, pure_eq_ok, clampedTimespan, quarter]
  congr 1
  by_cases fast : actual < target / 4
  · rw [if_pos fast, if_pos fast, if_neg (by omega)]
  · rw [if_neg fast, if_neg fast]

/-- The product has room in both implementations, and both quotients are exact. -/
theorem retarget_quotient {base : Words 8} {divisor : UInt64} (limit : Words 8)
    (same : divisor.toNat = target.toNat) (room : base.toNat * (4 * target).toNat < 2 ^ 256) :
    ∃ quot, (mulUInt32 base (UInt32.ofInt (clampedTimespan actual target))).divide
        (ofUInt64 divisor) = some quot ∧
      retarget base actual target limit = if quot.compare limit = .gt then limit else quot := by
  obtain ⟨nonneg, bounded⟩ := clampedTimespan_bounds positive short actual
  have factor32 := toNat_uint32_ofInt nonneg (by omega)
  have factor64 := toNat_uint64_ofInt nonneg (by omega)
  have divisor64 := toNat_uint64_ofInt (Int.le_of_lt positive) (by omega)
  have fits : base.toNat * (clampedTimespan actual target).toNat < 2 ^ (32 * 8) := by
    apply Nat.lt_of_le_of_lt _ room
    exact Nat.mul_le_mul_left _ (by omega)
  have in64 : 2 ^ 32 * (clampedTimespan actual target).toNat < 2 ^ 64 := by omega
  have in128 : 2 ^ 32 * (clampedTimespan actual target).toNat < 2 ^ 128 := by omega
  obtain ⟨coreProduct, -⟩ := Words.mulWord_spec in64 fits
  obtain ⟨valueProduct, carry⟩ := Words.mulWord_spec in128 fits
  have divides : 0 < (ofUInt64 divisor).toNat := by
    rw [toNat_ofUInt64, same]
    omega
  obtain ⟨quot, divided, value⟩ := Words.divide_spec
    (mulUInt32 base (UInt32.ofInt (clampedTimespan actual target))) divides
  refine ⟨quot, divided, ?_⟩
  rw [mulUInt32, factor32, coreProduct, toNat_ofUInt64, same] at value
  have eq : divide (base.mulWord 128 (clampedTimespan actual target).toNat).1
      (UInt64.ofInt target) = quot := by
    rw [← Words.toNat_inj, divide, divisor64, Words.toNat_divWord (by omega), valueProduct, value]
  have multiplied : multiply base (UInt64.ofInt (clampedTimespan actual target)) =
      ((base.mulWord 128 (clampedTimespan actual target).toNat).1, false) := by
    rw [multiply, factor64, carry]
    rfl
  have unfolded : retarget base actual target limit =
      (let multiplication := multiply base (UInt64.ofInt (clampedTimespan actual target))
      if multiplication.2 then limit
      else if (divide multiplication.1 (UInt64.ofInt target)).compare limit = .gt then
        limit
        else divide multiplication.1 (UInt64.ofInt target)) := rfl
  rw [unfolded, multiplied, ← eq]
  exact if_neg Bool.false_ne_true

end Retarget

/-! ## The rules -/

section Rules

variable {hash256 : ByteHash} {params : ConsensusParams}

theorem validateHeaderContext_eq {headers : List BlockHeader} {parent : BlockHeader}
    {older : List BlockHeader} (ends : headers.reverse = parent :: older)
    (short : headers.length ≤ 2 ^ 31 - 1) (contiguous : ContiguousChain hash256 headers) :
    validateHeaderContext hash256 headers params = .ok (withDifficultyPeriod headers params
        { height := Int32.ofNat headers.length
          previousMedianTimePast := previousMedianTimePast headers
          hasParent := true
          parentHash := parent.hash hash256
          parentTime := parent.time
          parentTarget := parent.bits }) := by
  obtain ⟨nullParent, linked⟩ := contiguous
  cases headers with
  | nil => cases ends
  | cons genesis later =>
    have last : later.getLastD genesis = parent := by
      have back : (genesis :: later).getLast? = some parent := by
        rw [getLast?_eq_head?_reverse, ends, head?_cons]
      rw [getLast?_cons, Option.some.injEq] at back
      rw [← back, getLastD_eq_getLast?]
    have null : genesis.previousBlockHash = 0 := nullParent genesis rfl
    have links := (contiguousAfter_iff hash256 genesis later).mpr linked
    simp only [validateHeaderContext, ensure, decide_eq_true short, null, links, beq_self_eq_true,
      if_true, ok_bind, pure_eq_ok, last]

theorem compactWorkLimit_eq (limit : Uint256) :
    ArithUint256.getCompact (uintToArith256 limit) false = .ok (compactWorkLimit limit) := by
  rw [getCompact_eq, compactWorkLimit, fromBytes_eq]

section Interval

/-- The first block of the period that ends with `parent`. -/
def periodStart (params : ConsensusParams) (parent : BlockHeader) (older : List BlockHeader) :
    BlockHeader :=
  (parent :: older).getD (params.difficultyAdjustmentInterval.toNat - 1) parent

/-- The bits of the last block above the minimum difficulty. -/
def walkedBits (params : ConsensusParams) (parent : BlockHeader) (older : List BlockHeader) :
    UInt32 :=
  lastNonMinDifficultyBits (compactWorkLimit params.powLimit) params.difficultyAdjustmentInterval
    (indexEntry parent older.length) (indexEntries older)

theorem toInt_height {count : Nat} (short : count ≤ 2 ^ 31 - 1) :
    (Int32.ofNat count).toInt = count :=
  Int32.toInt_ofNat_of_lt (by omega)

variable (interval : 1 ≤ params.difficultyAdjustmentInterval)

include interval

theorem targetSpacing_pos : 0 < params.targetSpacing := by
  rw [ConsensusParams.difficultyAdjustmentInterval] at interval
  split at interval
  next => omega
  next positive => exact Int64.not_le.mp positive

theorem difficultyAdjustmentInterval_toCore :
    params.toCore.difficultyAdjustmentInterval = params.difficultyAdjustmentInterval := by
  have positive := Int64.not_le.mpr (targetSpacing_pos interval)
  rw [ConsensusParams.difficultyAdjustmentInterval, if_neg positive]
  rfl

theorem interval_mul_spacing_le : params.difficultyAdjustmentInterval * params.targetSpacing.toInt ≤
      params.targetTimespan.toInt := by
  have positive := targetSpacing_pos interval
  have spacing : 0 < params.targetSpacing.toInt := Int64.lt_iff_toInt_lt.mp positive
  rw [ConsensusParams.difficultyAdjustmentInterval, if_neg (Int64.not_le.mpr positive)] at interval ⊢
  have nonneg : 0 ≤ params.targetTimespan.toInt := by
    by_contra negative
    have flipped : (-params.targetTimespan.toInt).tdiv params.targetSpacing.toInt =
        -params.targetTimespan.toInt.tdiv params.targetSpacing.toInt := Int.neg_tdiv ..
    have quot : 0 ≤ (-params.targetTimespan.toInt).tdiv params.targetSpacing.toInt :=
      Int.tdiv_nonneg (by omega) (by omega)
    omega
  rw [Int.tdiv_eq_ediv_of_nonneg nonneg]
  exact Int.ediv_mul_le _ (by omega)

theorem spacing_le_timespan :
    0 < params.targetSpacing.toInt ∧ params.targetSpacing.toInt ≤ params.targetTimespan.toInt ∧
      params.difficultyAdjustmentInterval ≤ params.targetTimespan.toInt := by
  have spacing : 0 < params.targetSpacing.toInt :=
    Int64.lt_iff_toInt_lt.mp (targetSpacing_pos interval)
  have product := interval_mul_spacing_le interval
  have bySpacing : 1 * params.targetSpacing.toInt ≤
      params.difficultyAdjustmentInterval * params.targetSpacing.toInt :=
    Int.mul_le_mul_of_nonneg_right interval (by omega)
  have byInterval : params.difficultyAdjustmentInterval * 1 ≤
      params.difficultyAdjustmentInterval * params.targetSpacing.toInt :=
    Int.mul_le_mul_of_nonneg_left spacing (by omega)
  exact ⟨spacing, by omega, by omega⟩

theorem difficultyAdjustmentInterval_eq :
    difficultyAdjustmentInterval params = .ok params.difficultyAdjustmentInterval := by
  obtain ⟨spacing, ordered, -⟩ := spacing_le_timespan interval
  have spacing64 : params.targetSpacing > 0 := targetSpacing_pos interval
  have timespan64 : params.targetTimespan > 0 := by
    apply Int64.lt_iff_toInt_lt.mpr
    change 0 < params.targetTimespan.toInt
    omega
  have positive : params.difficultyAdjustmentInterval > 0 := by omega
  simp [difficultyAdjustmentInterval, ensure, spacing64, timespan64, positive]

variable {parent : BlockHeader} {older : List BlockHeader}

theorem validateHeaderContext_spec {headers : List BlockHeader}
    (ends : headers.reverse = parent :: older) (short : headers.length ≤ 2 ^ 31 - 1)
    (contiguous : ContiguousChain hash256 headers) :
    ∃ ctx, validateHeaderContext hash256 headers params = .ok ctx ∧ ctx.hasParent = true ∧
      ctx.height = Int32.ofNat (older.length + 1) ∧
      ctx.parentTime = parent.time ∧
      ctx.parentTarget = parent.bits ∧
      ctx.hasLastNonMinDifficultyBlock = true ∧
      ctx.lastNonMinDifficultyBlockTarget = walkedBits params parent older ∧
      (params.difficultyAdjustmentInterval.toNat ≤ older.length + 1 →
        ctx.hasFirstDifficultyPeriodBlock = true ∧
        ctx.firstDifficultyPeriodBlockTime = (periodStart params parent older).time ∧
        ctx.firstDifficultyPeriodBlockTarget = (periodStart params parent older).bits) := by
  have length : headers.length = older.length + 1 := by
    rw [← length_reverse, ends, length_cons]
  have chain : headers = (parent :: older).reverse ++ [] := by
    rw [append_nil, ← ends, reverse_reverse]
  have walk := lastNonMinDifficultyTarget_eq (compactWorkLimit params.powLimit)
    params.difficultyAdjustmentInterval parent older [] (by omega)
  refine ⟨_, validateHeaderContext_eq ends short contiguous, ?_⟩
  simp only [withDifficultyPeriod, length]
  rw [if_neg (by omega), chain, walk]
  by_cases reaches : params.difficultyAdjustmentInterval.toNat ≤ older.length + 1
  · have first : ((parent :: older).reverse ++ []).getD
        (older.length + 1 - params.difficultyAdjustmentInterval.toNat) ⟨0, 0, 0, 0, 0, 0⟩ =
          periodStart params parent older := by
      have pos : older.length + 1 - params.difficultyAdjustmentInterval.toNat =
          (parent :: older).length - 1 - (params.difficultyAdjustmentInterval.toNat - 1) := by
        rw [length_cons]
        omega
      rw [pos, append_nil]
      apply getD_reverse
      rw [length_cons]
      omega
    rw [if_pos reaches, first]
    exact ⟨rfl, rfl, rfl, rfl, rfl, rfl, fun _ => ⟨rfl, rfl, rfl⟩⟩
  · rw [if_neg reaches]
    exact ⟨rfl, rfl, rfl, rfl, rfl, rfl, fun impossible => absurd impossible reaches⟩

/-- At a boundary the period that ends with the last block has its first block in the chain. -/
theorem firstPeriodBlock_eq (short : older.length + 1 ≤ 2 ^ 31 - 1)
    (boundary : ((older.length + 1 : Nat) : Int).tmod params.difficultyAdjustmentInterval = 0) :
    params.difficultyAdjustmentInterval.toNat ≤ older.length + 1 ∧
      firstPeriodBlock (chainOf parent older)
          (Int32.ofNat (older.length + 1)) params.difficultyAdjustmentInterval =
        .ok (indexEntry (periodStart params parent older)
          (older.length + 1 - params.difficultyAdjustmentInterval.toNat)) := by
  obtain ⟨period, isPeriod⟩ := Int.eq_ofNat_of_zero_le
    (show 0 ≤ params.difficultyAdjustmentInterval by omega)
  rw [isPeriod] at interval boundary
  rw [periodStart, isPeriod, Int.toNat_natCast]
  have reaches : period ≤ older.length + 1 := by
    have divides := Int.dvd_of_tmod_eq_zero boundary
    have bound := Int.le_of_dvd (by omega) divides
    omega
  refine ⟨reaches, ?_⟩
  have firstInt := toInt_height (show older.length + 1 - period ≤ 2 ^ 31 - 1 by omega)
  have firstHeight : (checkedInt32 ((older.length : Int) - (period - 1)) : Exec Empty Int32) =
      .ok (Int32.ofNat (older.length + 1 - period)) := by
    rw [checkedInt32_eq_ok, firstInt]
    omega
  have nonneg : Int32.ofNat (older.length + 1 - period) ≥ 0 := by
    apply Int32.le_iff_toInt_le.mpr
    rw [firstInt]
    exact Int.natCast_nonneg _
  have ancestor : IndexedChain.getAncestor (chainOf parent older)
      ((older.length + 1 - period : Nat) : Int) = some (indexEntry
        ((parent :: older).getD (period - 1) parent) (older.length + 1 - period)) := by
    have distance : ((older.length : Int) - (older.length + 1 - period : Nat)).toNat =
        period - 1 := by
      omega
    have inside : period - 1 < (parent :: older).length := by
      rw [length_cons]
      omega
    have entries : indexEntry parent older.length :: indexEntries older =
        indexEntries (parent :: older) := rfl
    have pos : (parent :: older).length - 1 - (period - 1) = older.length + 1 - period := by
      rw [length_cons]
      omega
    have range : (decide (((older.length + 1 - period : Nat) : Int) > older.length) ||
        decide (((older.length + 1 - period : Nat) : Int) < 0)) = false := by
      rw [Bool.or_eq_false_iff, decide_eq_false_iff_not, decide_eq_false_iff_not]
      omega
    rw [IndexedChain.getAncestor, toInt_nHeight parent (by omega), range, distance, entries,
      indexEntries_getElem?, pos, getElem?_eq_getElem inside,
      getD_eq_getElem?_getD, getElem?_eq_getElem inside]
    rfl
  rw [firstPeriodBlock, if_pos (by rw [toInt_height short]; exact boundary)]
  simp only [toInt_nHeight parent (show older.length < 2 ^ 31 by omega), firstHeight, ok_bind,
    assertThat, decide_eq_true nonneg, if_true, firstInt, ancestor, pure_eq_ok]

section Period

variable (timespan : 4 * params.targetTimespan.toInt < 2 ^ 32) {parent : BlockHeader}
  {older : List BlockHeader} (short : older.length + 1 ≤ 2 ^ 31 - 1)

include timespan short

theorem buildDifficultyAdjustmentContext_spec {first : BlockIndexEntry}
    (found : firstPeriodBlock (chainOf parent older)
      (Int32.ofNat (older.length + 1)) params.difficultyAdjustmentInterval = .ok first) :
    ∃ ctx, buildDifficultyAdjustmentContext (chainOf parent older) params.toCore = .ok ctx ∧
      ctx.nextHeight = Int32.ofNat (older.length + 1) ∧
      ctx.lastBits = parent.bits ∧
      ctx.lastBlockTime = Int64.ofNat parent.time.toNat ∧
      ctx.firstPeriodBits = first.nBits ∧
      ctx.firstPeriodBlockTime = first.getBlockTime ∧
      (params.allowMinDifficultyBlocks = true →
        ((older.length + 1 : Nat) : Int).tmod params.difficultyAdjustmentInterval ≠ 0 →
        ctx.lastNonMinDifficultyBits = some (walkedBits params parent older)) := by
  have facts := spacing_le_timespan interval
  have narrow : (Int32.ofInt params.difficultyAdjustmentInterval).toInt =
      params.difficultyAdjustmentInterval := Int32.toInt_ofInt_of_le (by omega) (by omega)
  have height := toInt_height short
  have nextHeight : (checkedInt32 ((older.length : Int) + 1) : Exec Empty Int32) =
      .ok (Int32.ofNat (older.length + 1)) := by
    rw [checkedInt32_eq_ok, height]
    omega
  simp only [buildDifficultyAdjustmentContext, difficultyAdjustmentInterval_toCore interval, narrow,
    toInt_nHeight parent (show older.length < 2 ^ 31 by omega), nextHeight, ok_bind,
    toCore_powLimit, compactWorkLimit_eq, found, height, pure_eq_ok]
  refine ⟨_, rfl, rfl, rfl, rfl, rfl, rfl, ?_⟩
  intro allowed inside
  have walks : (params.toCore.fPowAllowMinDifficultyBlocks &&
      ((older.length + 1 : Nat) : Int).tmod params.difficultyAdjustmentInterval != 0) = true := by
    rw [toCore_fPowAllowMinDifficultyBlocks, allowed, Bool.true_and, bne_iff_ne]
    exact inside
  rw [if_pos walks]
  rfl

end Period

/-! ### Inside a period -/

/-- The bits of a header inside a period, from the last header and the walk back. -/
def bitsInsidePeriod (params : ConsensusParams) (header parent : BlockHeader) (walked : UInt32) :
    UInt32 :=
  if params.allowMinDifficultyBlocks then
    if (header.time.toNat : Int) > parent.time.toNat + params.targetSpacing.toInt * 2 then
      compactWorkLimit params.powLimit
    else walked
  else parent.bits

variable (timespan : 4 * params.targetTimespan.toInt < 2 ^ 32)

include timespan

theorem targetInsidePeriod_eq {ctx : HeaderContext} (time : ctx.parentTime = parent.time)
    (target : ctx.parentTarget = parent.bits)
    (walked : ctx.hasLastNonMinDifficultyBlock = true) (header : BlockHeader) :
    targetInsidePeriod header ctx params =
      .ok (bitsInsidePeriod params header parent ctx.lastNonMinDifficultyBlockTarget) := by
  have facts := spacing_le_timespan interval
  have parentTime := parent.time.toNat_lt
  have inRange : params.targetSpacing.toInt ≤ ((2 ^ 63 - 1 : Int) - parent.time.toNat).tdiv 2 := by
    rw [Int.tdiv_eq_ediv_of_nonneg (by omega)]
    omega
  rw [targetInsidePeriod, bitsInsidePeriod, time, target]
  by_cases allowed : params.allowMinDifficultyBlocks = true
  · simp only [allowed, if_true, ensure, decide_eq_true inRange, ok_bind, walked]
    split <;> rfl
  · rw [if_neg allowed, if_neg allowed]
    rfl

variable {ctx : DifficultyAdjustmentContext}

theorem getNextWorkRequired_inside {walked : UInt32} (height : 0 < ctx.nextHeight)
    (inside : ctx.nextHeight.toInt.tmod params.difficultyAdjustmentInterval ≠ 0)
    (time : ctx.lastBlockTime = Int64.ofNat parent.time.toNat)
    (bits : ctx.lastBits = parent.bits)
    (last : params.allowMinDifficultyBlocks = true → ctx.lastNonMinDifficultyBits = some walked)
    (header : BlockHeader) :
    getNextWorkRequired ctx (Int64.ofNat header.time.toNat) params.toCore =
      .ok (bitsInsidePeriod params header parent walked) := by
  have facts := spacing_le_timespan interval
  have positive : params.difficultyAdjustmentInterval > 0 := by omega
  have parentTime := parent.time.toNat_lt
  have headerTime := header.time.toNat_lt
  obtain ⟨doubled, doubledEq, doubledInt⟩ :=
    exists_checkedInt64 (params.targetSpacing.toInt * 2) (by omega) (by omega)
  obtain ⟨latest, latestEq, latestInt⟩ :=
    exists_checkedInt64 (parent.time.toNat + params.targetSpacing.toInt * 2) (by omega) (by omega)
  have late : Int64.ofNat header.time.toNat > latest ↔
      (header.time.toNat : Int) > parent.time.toNat + params.targetSpacing.toInt * 2 := by
    rw [gt_iff_lt, Int64.lt_iff_toInt_lt, latestInt, toInt_ofNat_toNat]
  have prelude : getNextWorkRequired ctx (Int64.ofNat header.time.toNat) params.toCore =
      if params.allowMinDifficultyBlocks then
        if Int64.ofNat header.time.toNat > latest then
          .ok (compactWorkLimit params.powLimit)
        else .ok (ctx.lastNonMinDifficultyBits.getD parent.bits)
      else .ok parent.bits := by
    simp only [getNextWorkRequired, difficultyAdjustmentInterval_toCore interval, assertThat,
      decide_eq_true positive, decide_eq_true (show ctx.nextHeight > 0 from height), if_true,
      ok_bind, toCore_powLimit, compactWorkLimit_eq, if_pos inside,
      toCore_fPowAllowMinDifficultyBlocks,
      toCore_nPowTargetSpacing, doubledEq, doubledInt, time, toInt_ofNat_toNat, latestEq,
      bits,
      pure_eq_ok]
  rw [prelude, bitsInsidePeriod]
  by_cases allowed : params.allowMinDifficultyBlocks = true
  · rw [if_pos allowed, if_pos allowed, last allowed]
    by_cases after : (header.time.toNat : Int) > parent.time.toNat + params.targetSpacing.toInt * 2
    · rw [if_pos after, if_pos (late.mpr after)]
    · rw [if_neg after, if_neg (after ∘ late.mp)]
      rfl
  · rw [if_neg allowed, if_neg allowed]

/-! ### At the start of a period -/

omit timespan in
theorem getNextWorkRequired_boundary (height : 0 < ctx.nextHeight)
    (boundary : ctx.nextHeight.toInt.tmod params.difficultyAdjustmentInterval = 0)
    (time : Int64) :
    getNextWorkRequired ctx time params.toCore = calculateNextWorkRequired ctx params.toCore := by
  have positive : params.difficultyAdjustmentInterval > 0 := by omega
  simp only [getNextWorkRequired, difficultyAdjustmentInterval_toCore interval, assertThat,
    decide_eq_true positive, decide_eq_true (show ctx.nextHeight > 0 from height), if_true,
    ok_bind, toCore_powLimit, compactWorkLimit_eq, ne_eq, boundary,
    not_true_eq_false, if_false]

theorem retarget_agrees
    (room : params.powLimit.toNat * (4 * params.targetTimespan.toInt).toNat < 2 ^ 256)
    {ctx : HeaderContext} {coreContext : DifficultyAdjustmentContext}
    (last : coreContext.lastBits = ctx.parentTarget)
    (lastTime : coreContext.lastBlockTime = Int64.ofNat ctx.parentTime.toNat)
    (first : coreContext.firstPeriodBits = ctx.firstDifficultyPeriodBlockTarget)
    (firstTime : coreContext.firstPeriodBlockTime =
      Int64.ofNat ctx.firstDifficultyPeriodBlockTime.toNat)
    (found : ctx.hasFirstDifficultyPeriodBlock = true)
    (lastValid : (deriveTarget ctx.parentTarget params.powLimit).isSome)
    (firstValid : (deriveTarget ctx.firstDifficultyPeriodBlockTarget params.powLimit).isSome) :
    ∃ bits, targetAtPeriodStart ctx params = .ok bits ∧
      calculateNextWorkRequired coreContext params.toCore = .ok bits := by
  rw [targetAtPeriodStart, calculateNextWorkRequired, toCore_fPowNoRetargeting]
  by_cases fixed : params.noRetargeting = true
  · rw [if_pos fixed, if_pos fixed, last]
    exact ⟨ctx.parentTarget, rfl, rfl⟩
  rw [if_neg fixed, if_neg fixed]
  obtain ⟨base, derived⟩ := Option.isSome_iff_exists.mp
    (show (deriveTarget (if params.enforceBip94 then ctx.firstDifficultyPeriodBlockTarget
      else ctx.parentTarget) params.powLimit).isSome by split <;> assumption)
  obtain ⟨decoded, small⟩ := deriveTarget_eq_some derived
  have facts := spacing_le_timespan interval
  have positive : 0 < params.targetTimespan.toInt := by omega
  have parentTime := ctx.parentTime.toNat_lt
  have periodTime := ctx.firstDifficultyPeriodBlockTime.toNat_lt
  have inRange : params.targetTimespan.toInt ≤ (2 ^ 63 - 1 : Int).tdiv 4 := by
    rw [Int.tdiv_eq_ediv_of_nonneg (by omega)]
    omega
  have divisor : params.targetTimespan.toUInt64.toNat = params.targetTimespan.toInt.toNat :=
    Int64.toNat_toUInt64_of_le (Int64.le_iff_toInt_le.mpr (Int.le_of_lt positive))
  have fits : base.toNat * (4 * params.targetTimespan.toInt).toNat < 2 ^ 256 :=
    Nat.lt_of_le_of_lt (Nat.mul_le_mul_right _ small) room
  obtain ⟨quot, divided, retargeted⟩ := retarget_quotient positive timespan
    (ctx.parentTime.toNat - ctx.firstDifficultyPeriodBlockTime.toNat)
    (fromBytes params.powLimit) divisor fits
  refine ⟨compact (retarget base (ctx.parentTime.toNat - ctx.firstDifficultyPeriodBlockTime.toNat)
    params.targetTimespan.toInt (fromBytes params.powLimit)), ?_, ?_⟩
  · simp only [found, ensure, if_true, ok_bind, storedTarget, derived, pure_eq_ok,
      decide_eq_true inRange]
  · obtain ⟨difference, differenceEq, differenceInt⟩ := exists_checkedInt64
      (ctx.parentTime.toNat - ctx.firstDifficultyPeriodBlockTime.toNat) (by omega) (by omega)
    rw [retargeted, fromBytes_eq]
    simp only [lastTime, firstTime, toInt_ofNat_toNat, differenceEq, differenceInt, ok_bind,
      toCore_nPowTargetTimespan, toCore_enforceBIP94,
      toCore_powLimit, clampTimespan_eq positive timespan, first, last, ← decoded,
      divided, getCompact_eq]

end Interval

/-! ## Agreement -/

section Chain

variable (interval : 1 ≤ params.difficultyAdjustmentInterval)
  (timespan : 4 * params.targetTimespan.toInt < 2 ^ 32)
  (room : params.powLimit.toNat * (4 * params.targetTimespan.toInt).toNat < 2 ^ 256)

include interval timespan room

theorem expectedDifficultyBits_eq_core {headers : List BlockHeader} {chain : IndexedChain}
    (indexed : indexedChain headers = some chain) (short : headers.length ≤ 2 ^ 31 - 1)
    (contiguous : ContiguousChain hash256 headers)
    (valid : ∀ ancestor ∈ headers, (deriveTarget ancestor.bits params.powLimit).isSome)
    (header : BlockHeader) :
    ∃ ctx coreContext bits, validateHeaderContext hash256 headers params = .ok ctx ∧
      expectedDifficultyBits header ctx params = .ok bits ∧
      buildDifficultyAdjustmentContext chain params.toCore = .ok coreContext ∧
      getNextWorkRequired coreContext (Int64.ofNat header.time.toNat) params.toCore = .ok bits := by
  -- the last header and those before it, the nearest first
  obtain ⟨parent, older, ends, rfl⟩ : ∃ parent older, headers.reverse = parent :: older ∧
      chain = chainOf parent older := by
    rw [indexedChain] at indexed
    split at indexed
    next => cases indexed
    next parent older ends => exact ⟨parent, older, ends, (Option.some.inj indexed).symm⟩
  have length : headers.length = older.length + 1 := by
    rw [← length_reverse, ends, length_cons]
  rw [length] at short
  have height := toInt_height short
  have positive : 0 < Int32.ofNat (older.length + 1) := by
    rw [Int32.lt_iff_toInt_lt, height]
    exact Int.natCast_pos.mpr (Nat.succ_pos _)
  have mem (ancestor : BlockHeader) (inChain : ancestor ∈ parent :: older) :
      (deriveTarget ancestor.bits params.powLimit).isSome := by
    rw [← ends, mem_reverse] at inChain
    exact valid ancestor inChain
  obtain ⟨ctx, built, hasParent, contextHeight, parentTime, parentTarget, hasWalked, walked,
    period⟩ := validateHeaderContext_spec interval ends (by omega) contiguous
  have rules : expectedDifficultyBits header ctx params =
      if ((older.length + 1 : Nat) : Int).tmod params.difficultyAdjustmentInterval ≠ 0 then
        targetInsidePeriod header ctx params
      else targetAtPeriodStart ctx params := by
    rw [expectedDifficultyBits, hasParent, difficultyAdjustmentInterval_eq interval,
      contextHeight, height]
    rfl
  by_cases boundary : ((older.length + 1 : Nat) : Int).tmod params.difficultyAdjustmentInterval = 0
  · obtain ⟨reaches, found⟩ := firstPeriodBlock_eq interval short boundary
    obtain ⟨hasFirst, firstTime, firstTarget⟩ := period reaches
    obtain ⟨coreContext, builtCore, coreHeight, lastBits, lastTime, firstBits, firstBlockTime, -⟩ :=
      buildDifficultyAdjustmentContext_spec interval timespan short found
    have firstMember : periodStart params parent older ∈ parent :: older := by
      have inside : params.difficultyAdjustmentInterval.toNat - 1 < (parent :: older).length := by
        rw [length_cons]
        omega
      rw [periodStart, getD_eq_getElem _ _ inside]
      exact getElem_mem inside
    obtain ⟨bits, value, core⟩ := retarget_agrees interval timespan room
      (lastBits.trans parentTarget.symm) (parentTime ▸ lastTime)
      (firstBits.trans firstTarget.symm) (firstTime ▸ firstBlockTime) hasFirst
      (parentTarget ▸ mem parent mem_cons_self) (firstTarget ▸ mem _ firstMember)
    refine ⟨ctx, coreContext, bits, built, ?_, builtCore, ?_⟩
    · rw [rules, if_neg (not_not.mpr boundary), value]
    · rw [getNextWorkRequired_boundary interval (coreHeight ▸ positive)
        (by rw [coreHeight, height]; exact boundary), core]
  · have found : firstPeriodBlock (chainOf parent older)
        (Int32.ofNat (older.length + 1)) params.difficultyAdjustmentInterval =
          .ok (indexEntry parent older.length) := by
      rw [firstPeriodBlock, height, if_neg boundary]
      rfl
    obtain ⟨coreContext, builtCore, coreHeight, lastBits, lastTime, -, -, last⟩ :=
      buildDifficultyAdjustmentContext_spec interval timespan short found
    refine ⟨ctx, coreContext, bitsInsidePeriod params header parent
      ctx.lastNonMinDifficultyBlockTarget, built, ?_, builtCore, ?_⟩
    · rw [rules, if_pos boundary,
        targetInsidePeriod_eq interval timespan parentTime parentTarget hasWalked]
    · rw [walked]
      exact getNextWorkRequired_inside interval timespan (coreHeight ▸ positive)
        (by rw [coreHeight, height]; exact boundary) lastTime lastBits
        (fun allowed => last allowed boundary) header

end Chain

/-- The two difficulty implementations give the same bits for the header after any contiguous
chain, and the same target for any bits.  Heights are 32-bit integers in both, so a context is
built for chains of fewer than `2 ^ 31` headers. -/
theorem expectedDifficultyBits_agrees (doubleSha256 : List UInt8 → Uint256)
    (params : ConsensusParams) (interval : 1 ≤ params.difficultyAdjustmentInterval)
    (timespan : 4 * params.targetTimespan.toInt < 2 ^ 32)
    (room : params.powLimit.toNat * (4 * params.targetTimespan.toInt).toNat < 2 ^ 256) :
    (∀ (headers : List BlockHeader) (chain : IndexedChain),
      indexedChain headers = some chain → ContiguousChain doubleSha256 headers →
      (∀ ancestor ∈ headers, (deriveTarget ancestor.bits params.powLimit).isSome) →
      (headers.length < 2 ^ 31 →
        ∃ context, validateHeaderContext doubleSha256 headers params = .ok context) ∧
      ∀ context, validateHeaderContext doubleSha256 headers params = .ok context →
        ∀ header : BlockHeader, ∃ coreContext bits,
          Validation.expectedDifficultyBits header context params = .ok bits ∧
          buildDifficultyAdjustmentContext chain params.toCore = .ok coreContext ∧
          getNextWorkRequired coreContext (Int64.ofNat header.time.toNat) params.toCore =
            .ok bits) ∧
    ∀ (nBits : UInt32) (limit : Uint256),
      deriveTarget nBits limit = deriveProofOfWorkTarget nBits limit := by
  refine ⟨?_, deriveTarget_eq⟩
  intro headers chain indexed contiguous valid
  refine ⟨?_, ?_⟩
  · intro short
    obtain ⟨context, -, -, built, -⟩ := expectedDifficultyBits_eq_core interval timespan room
      indexed (by omega) contiguous valid ⟨0, 0, 0, 0, 0, 0⟩
    exact ⟨context, built⟩
  · intro context built header
    have short : headers.length ≤ 2 ^ 31 - 1 := by
      rw [validateHeaderContext, bind_unit_eq_ok, ensure_eq_ok, decide_eq_true_eq] at built
      exact built.1
    obtain ⟨context', coreContext, bits, built', value, core⟩ := expectedDifficultyBits_eq_core
      interval timespan room indexed short contiguous valid header
    rw [built, Except.ok.injEq] at built'
    rw [← built'] at value
    exact ⟨coreContext, bits, value, core⟩

/-- Periods of two blocks, so that the header after two others is retargeted. -/
def twoBlockPeriods : ConsensusParams :=
  { powLimit := BitVec.ofNat 256 (2 ^ 224 - 1), targetSpacing := 1, targetTimespan := 2 }

def twoHeaders : List BlockHeader :=
  [⟨1, 0, 0, 100, 0x1d00ffff, 0⟩, ⟨1, 0, 0, 101, 0x1d00ffff, 0⟩]

theorem expectedDifficultyBits_agrees_twoHeaders :
    ∃ context, validateHeaderContext (fun _ => 0) twoHeaders twoBlockPeriods = .ok context ∧
      ∃ coreContext bits,
        Validation.expectedDifficultyBits ⟨1, 0, 0, 102, 0x1d00ffff, 0⟩ context twoBlockPeriods =
          .ok bits ∧
        buildDifficultyAdjustmentContext ⟨⟨1, 101, 0x1d00ffff⟩, [⟨0, 100, 0x1d00ffff⟩]⟩
          twoBlockPeriods.toCore = .ok coreContext ∧
        getNextWorkRequired coreContext 102 twoBlockPeriods.toCore = .ok bits := by
  have valid : ∀ ancestor ∈ twoHeaders,
      (deriveTarget ancestor.bits twoBlockPeriods.powLimit).isSome := by
    decide +kernel
  have linked : ContiguousChain (fun _ => 0) twoHeaders := by
    refine ⟨?_, ?_⟩
    · intro genesis first
      cases first
      rfl
    · simp [twoHeaders, BlockHeader.hash]
  obtain ⟨builds, agrees⟩ := (expectedDifficultyBits_agrees (fun _ => 0) twoBlockPeriods
    (by decide) (by decide) (by decide +kernel)).1 twoHeaders
    ⟨⟨1, 101, 0x1d00ffff⟩, [⟨0, 100, 0x1d00ffff⟩]⟩ rfl linked valid
  obtain ⟨context, built⟩ := builds (by decide)
  exact ⟨context, built, agrees context built ⟨1, 0, 0, 102, 0x1d00ffff, 0⟩⟩

end Rules

end Validation

end Champy
