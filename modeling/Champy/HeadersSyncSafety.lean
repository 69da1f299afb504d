import Champy.HeadersSync

/-!
# What a headers synchronization hands on

The history of a synchronization keeps the headers of the first phase, those of the second and
those that were handed on.  The state determines how far the history has got: the stored bits
are those of the first phase that the second has not come to, and the buffer holds the headers
of the second phase that were not handed on.
-/

namespace Champy

open Exec List Nat CompressedHeader

namespace HeadersSync

structure Message where
  headers : List CBlockHeader
  full : Bool

/-- The headers that were accepted in each phase, and those that were handed on. -/
structure History where
  presynced : List CBlockHeader := []
  redownloaded : List CBlockHeader := []
  released : List CBlockHeader := []

def History.record (history : History) (state : State) (headers : List CBlockHeader)
    (result : ProcessingResult) : History where
  presynced := history.presynced ++ if result.success = true ∧ state = .presync then headers else []
  redownloaded := history.redownloaded ++
    if result.success = true ∧ state = .redownload then headers else []
  released := history.released ++ result.powValidatedHeaders

variable (config : Config)

def receive (before : Sync × History) (message : Message) : Exec Empty (Sync × History) := do
  let (result, sync) ← processNextHeaders config before.1 message.headers message.full
  pure (sync, before.2.record before.1.downloadState message.headers result)

def exchange (messages : List Message) : Exec Empty (Sync × History) :=
  messages.foldlM (receive config) (start config, {})

/-! ## Properties of chains of headers -/

/-- Each header names the hash of the one before it. -/
def Linked : CBlockHeader → List CBlockHeader → Prop
  | _, [] => True
  | previous, header :: headers =>
    header.hashPrevBlock = config.getHash previous ∧ Linked header headers

/-- A message whose headers are linked to each other. -/
def Message.Continuous (message : Message) : Prop :=
  match message.headers with
  | [] => True
  | first :: rest => Linked config first rest

/-- Each change of difficulty is permitted at its height. -/
def Permitted : Int → CBlockHeader → List CBlockHeader → Prop
  | _, _, [] => True
  | height, previous, header :: headers =>
    checkPermittedDifficultyTransition config.consensusParams (height + 1) previous.nBits
      header.nBits = .ok true ∧ Permitted (height + 1) header headers

/-- The work of a header as a number. -/
def proofOf (header : CBlockHeader) : Nat :=
  match getBlockProof header with
  | .ok proof => proof.toNat
  | .error _ => 0

/-- The work of the chain up to the last of some headers. -/
def chainWork (headers : List CBlockHeader) : Nat :=
  config.chainStart.chainWork.toNat + (headers.map proofOf).sum

/-- The bits of the headers at commitment heights, for a way to count heights. -/
def commitmentBits (next : Int → Int) : Int → List CBlockHeader → List Bool
  | _, [] => []
  | height, header :: headers =>
    (if config.isCommitmentHeight (next height) then [config.commitment header] else []) ++
      commitmentBits next (next height) headers

/-- Heights in the first phase are converted to `int`. -/
def nextInt (height : Int) : Int :=
  (Int32.ofInt (height + 1)).toInt

/-- The bits that the first phase stores. -/
def storedBits (presynced : List CBlockHeader) : List Bool :=
  commitmentBits config nextInt config.chainStart.height.toInt presynced

/-- The bits that the second phase compares. -/
def checkedBits (redownloaded : List CBlockHeader) : List Bool :=
  commitmentBits config (· + 1) config.chainStart.height.toInt redownloaded

variable {config} {buffered : List CBlockHeader} {sync : Sync} {history : History}
  {presynced headers : List CBlockHeader} {res : ProcessingResult} {header : CBlockHeader}
  {next : Sync} {previous : CBlockHeader} {valid : Bool} {message : Message}

variable {first second : List CBlockHeader}

theorem linked_append : Linked config previous (first ++ second) ↔
      Linked config previous first ∧ Linked config (first.getLastD previous) second := by
  induction first generalizing previous with
  | nil => simp [Linked]
  | cons header headers ih =>
    rw [cons_append, Linked, Linked, ih, and_assoc, getLastD_cons]

theorem permitted_append {height : Int} : Permitted config height previous (first ++ second) ↔
      Permitted config height previous first ∧
        Permitted config (height + first.length) (first.getLastD previous) second := by
  induction first generalizing height previous with
  | nil => simp [Permitted]
  | cons header headers ih =>
    rw [cons_append, Permitted, Permitted, ih, and_assoc, getLastD_cons,
      length_cons, cast_succ, Int.add_assoc, Int.add_comm 1]

theorem chainWork_append (first second : List CBlockHeader) :
    chainWork config (first ++ second) = chainWork config first + (second.map proofOf).sum := by
  rw [chainWork, chainWork, map_append, sum_append_nat, add_assoc]

theorem commitmentBits_append (next : Int → Int) (height : Int) (first second : List CBlockHeader) :
    commitmentBits config next height (first ++ second) = commitmentBits config next height first ++
        commitmentBits config next (next^[first.length] height) second := by
  induction first generalizing height with
  | nil => rfl
  | cons header headers ih =>
    rw [cons_append, commitmentBits, commitmentBits, ih, append_assoc,
      length_cons, Function.iterate_succ_apply]

/-- Sums of `arith_uint256` wrap, so the number kept is at most the work. -/
theorem toNat_add_proof_le {work proof : ArithUint256} (proved : getBlockProof header = .ok proof)
    (bound : work.toNat ≤ chainWork config headers) :
    (work.add proof).toNat ≤ chainWork config (headers ++ [header]) := by
  have value : proofOf header = proof.toNat := by rw [proofOf, proved]
  rw [Words.toNat_add, chainWork_append, map_singleton, sum_singleton, value]
  exact (mod_le _ _).trans (Nat.add_le_add_right bound _)

theorem le_toNat_of_compare_ne_lt {first second : ArithUint256} (notLess : first.compare second ≠ .lt) :
    second.toNat ≤ first.toNat := by
  rw [Words.compare_eq, ne_eq, Nat.compare_eq_lt] at notLess
  exact Nat.le_of_not_lt notLess

/-! ## The first phase -/

/-- The state of the first phase after some headers. -/
structure Presyncing (config : Config) (presynced : List CBlockHeader) (sync : Sync) : Prop where
  state : sync.downloadState = .presync
  notAll : sync.processAllRemainingHeaders = false
  buffer : sync.redownloadedHeaders = []
  last : sync.lastHeaderReceived = presynced.getLastD config.chainStart.header
  height : sync.currentHeight = nextInt^[presynced.length] config.chainStart.height.toInt
  commitments : sync.headerCommitments = storedBits config presynced
  bounded : sync.headerCommitments.length ≤ config.maxCommitments
  work : sync.currentChainWork.toNat ≤ chainWork config presynced

theorem presyncing_start : Presyncing config [] (start config) :=
  ⟨rfl, rfl, rfl, rfl, rfl, rfl, zero_le _, le_rfl⟩

theorem commitmentBits_concat (config : Config) (next : Int → Int) (height : Int)
    (headers : List CBlockHeader) (header : CBlockHeader) :
    commitmentBits config next height (headers ++ [header]) =
      commitmentBits config next height headers ++
        if config.isCommitmentHeight (next (next^[headers.length] height)) then
          [config.commitment header] else [] := by
  rw [commitmentBits_append, commitmentBits, commitmentBits, append_nil]

variable {commitments : List Bool}

theorem Presyncing.accept (presyncing : Presyncing config presynced sync)
    (bits : commitments = storedBits config (presynced ++ [header]))
    (bounded : commitments.length ≤ config.maxCommitments)
    (ran : acceptSingleHeader { sync with headerCommitments := commitments } header
      (nextInt sync.currentHeight) = .ok (valid, next)) :
    Presyncing config (presynced ++ [header]) next := by
  obtain ⟨proof, proved, ok⟩ := bind_eq_ok.mp ran
  cases ok
  refine ⟨presyncing.state, presyncing.notAll, presyncing.buffer, ?_, ?_, bits, bounded, ?_⟩
  · rw [getLastD_concat]
  · rw [length_append, length_singleton, Function.iterate_succ_apply', ← presyncing.height]
  · exact toNat_add_proof_le proved presyncing.work

theorem Presyncing.sizes (presyncing : Presyncing config presynced sync) :
    sync.headerCommitments.length ≤ config.maxCommitments + 1 ∧ sync.redownloadedHeaders = [] :=
  ⟨le_succ_of_le presyncing.bounded, presyncing.buffer⟩

/-- A header of the first phase.  When it is refused there may be one commitment too many. -/
theorem validateAndProcessSingleHeader_spec (presyncing : Presyncing config presynced sync)
    (ran : validateAndProcessSingleHeader config sync header = .ok (valid, next)) :
    (next.headerCommitments.length ≤ config.maxCommitments + 1 ∧ next.redownloadedHeaders = []) ∧
      (valid = true → Presyncing config (presynced ++ [header]) next) := by
  have bits := commitmentBits_concat config nextInt config.chainStart.height.toInt presynced header
  rw [← presyncing.height] at bits
  rw [validateAndProcessSingleHeader, if_neg (by simp [presyncing.state])] at ran
  obtain ⟨permitted, -, ran⟩ := bind_eq_ok.mp ran
  cases permitted with
  | false =>
    cases ran
    exact ⟨presyncing.sizes, nofun⟩
  | true =>
    change (if config.isCommitmentHeight (nextInt sync.currentHeight) = true then _ else _) = _
      at ran
    split at ran
    next isCommitment =>
      rw [if_pos isCommitment] at bits
      dsimp only at ran
      split at ran
      next tooMany =>
        cases ran
        refine ⟨⟨?_, presyncing.buffer⟩, nofun⟩
        rw [length_append, length_singleton]
        exact succ_le_succ presyncing.bounded
      next fits =>
        have ok := presyncing.accept (by rw [presyncing.commitments]; exact bits.symm)
          (Nat.le_of_not_lt fits) ran
        exact ⟨ok.sizes, fun _ => ok⟩
    next notCommitment =>
      rw [if_neg notCommitment, append_nil] at bits
      have ok := presyncing.accept (by rw [presyncing.commitments]; exact bits.symm)
        presyncing.bounded ran
      exact ⟨ok.sizes, fun _ => ok⟩

/-! ## The second phase -/

/-- The state of the second phase, with the headers that are in the buffer. -/
structure Redownloading (config : Config) (history : History) (buffered : List CBlockHeader)
    (sync : Sync) : Prop where
  state : sync.downloadState = .redownload
  enough : config.minimumRequiredWork.toNat ≤ chainWork config history.presynced
  released : history.redownloaded = history.released ++ buffered
  buffer : sync.redownloadedHeaders = buffered.map ofHeader
  begun : buffered = [] → history.redownloaded = []
  linked : Linked config config.chainStart.header history.redownloaded
  permitted : Permitted config config.chainStart.height.toInt config.chainStart.header
    history.redownloaded
  lastHeight : sync.redownloadBufferLastHeight =
    config.chainStart.height.toInt + history.redownloaded.length
  lastHash : sync.redownloadBufferLastHash =
    config.getHash (history.redownloaded.getLastD config.chainStart.header)
  firstPrevHash : sync.redownloadBufferFirstPrevHash =
    config.getHash (history.released.getLastD config.chainStart.header)
  work : sync.redownloadChainWork.toNat ≤ chainWork config history.redownloaded
  all : sync.processAllRemainingHeaders = true →
    config.minimumRequiredWork.toNat ≤ chainWork config history.redownloaded
  commitments : sync.processAllRemainingHeaders = false →
    storedBits config history.presynced =
      checkedBits config history.redownloaded ++ sync.headerCommitments
  bounded : sync.headerCommitments.length ≤ config.maxCommitments

/-- The second phase starts with an empty history. -/
theorem Presyncing.enterRedownload (presyncing : Presyncing config presynced sync)
    (enough : sync.currentChainWork.compare config.minimumRequiredWork ≠ .lt) :
    Redownloading config { presynced := presynced } [] (enterRedownload config sync) where
  state := rfl
  enough := (le_toNat_of_compare_ne_lt enough).trans presyncing.work
  released := rfl
  buffer := rfl
  begun _ := rfl
  linked := trivial
  permitted := trivial
  lastHeight := (Int.add_zero _).symm
  lastHash := rfl
  firstPrevHash := rfl
  work := le_rfl
  all isAll := absurd (presyncing.notAll.symm.trans isAll) Bool.false_ne_true
  commitments _ := presyncing.commitments.symm
  bounded := presyncing.bounded

theorem Redownloading.previousBits (loading : Redownloading config history buffered sync) :
    (sync.redownloadedHeaders.getLast?.map nBits).getD config.chainStart.header.nBits =
      (history.redownloaded.getLastD config.chainStart.header).nBits := by
  rcases eq_nil_or_concat' buffered with empty | ⟨earlier, last, rfl⟩
  · rw [loading.buffer, loading.begun empty, empty]
    rfl
  · rw [loading.buffer, loading.released, map_append, map_singleton,
      getLast?_concat, ← append_assoc, getLastD_concat]
    rfl

def History.redownload (history : History) (headers : List CBlockHeader) : History :=
  { history with redownloaded := history.redownloaded ++ headers }

/-- What a header of the second phase is checked for before its commitment. -/
structure Continues (config : Config) (history : History) (header : CBlockHeader) (nextHeight : Int)
    (proof : ArithUint256) : Prop where
  height : nextHeight = config.chainStart.height.toInt + history.redownloaded.length + 1
  link : header.hashPrevBlock =
    config.getHash (history.redownloaded.getLastD config.chainStart.header)
  permitted : checkPermittedDifficultyTransition config.consensusParams nextHeight
    (history.redownloaded.getLastD config.chainStart.header).nBits header.nBits = .ok true
  proved : getBlockProof header = .ok proof

theorem Redownloading.store (loading : Redownloading config history buffered sync)
    {nextHeight : Int} {proof : ArithUint256}
    (continues : Continues config history header nextHeight proof)
    (bounded : commitments.length ≤ config.maxCommitments)
    (bits : (sync.processAllRemainingHeaders ||
        (sync.redownloadChainWork.add proof).compare config.minimumRequiredWork != .lt) = false →
      storedBits config history.presynced =
        checkedBits config (history.redownloaded ++ [header]) ++ commitments) :
    Redownloading config (history.redownload [header]) (buffered ++ [header])
      (storeRedownloadedHeader config { sync with
          redownloadChainWork := sync.redownloadChainWork.add proof
          processAllRemainingHeaders := sync.processAllRemainingHeaders ||
            (sync.redownloadChainWork.add proof).compare config.minimumRequiredWork != .lt
          headerCommitments := commitments } header nextHeight) := by
  have work := toNat_add_proof_le continues.proved loading.work
  refine ⟨loading.state, loading.enough, ?_, ?_, ?_, ?_, ?_, ?_, ?_,
    loading.firstPrevHash, work, ?_, bits, bounded⟩
  · rw [History.redownload, loading.released, append_assoc]
  · rw [storeRedownloadedHeader, map_append, loading.buffer, map_singleton]
  · intro empty
    exact absurd empty (append_ne_nil_of_right_ne_nil _ (cons_ne_nil _ _))
  · rw [History.redownload, linked_append]
    exact ⟨loading.linked, continues.link, trivial⟩
  · rw [History.redownload, permitted_append]
    refine ⟨loading.permitted, ?_, trivial⟩
    rw [← continues.height]
    exact continues.permitted
  · rw [storeRedownloadedHeader, History.redownload, length_append, length_singleton,
      continues.height, cast_succ, Int.add_assoc]
  · rw [storeRedownloadedHeader, History.redownload, getLastD_concat]
  · intro isAll
    rcases Bool.or_eq_true_iff.mp isAll with before | reached
    · rw [History.redownload, chainWork_append]
      exact le_add_right_of_le (loading.all before)
    · exact (le_toNat_of_compare_ne_lt (bne_iff_ne.mp reached)).trans work

theorem iterate_add_one (count : Nat) (height : Int) : (· + 1)^[count] height = height + count := by
  induction count generalizing height with
  | zero => rw [Function.iterate_zero_apply, cast_zero, Int.add_zero]
  | succ count ih =>
    rw [Function.iterate_succ_apply, ih, cast_succ, Int.add_assoc, Int.add_comm 1]

theorem checkedBits_concat (config : Config) (redownloaded : List CBlockHeader)
    (header : CBlockHeader) :
    checkedBits config (redownloaded ++ [header]) = checkedBits config redownloaded ++
        if config.isCommitmentHeight (config.chainStart.height.toInt + redownloaded.length + 1) then
          [config.commitment header] else [] := by
  rw [checkedBits, commitmentBits_concat, iterate_add_one]
  rfl

theorem Redownloading.length_buffer (loading : Redownloading config history buffered sync) :
    sync.redownloadedHeaders.length = buffered.length := by
  rw [loading.buffer, length_map]

theorem validateAndStoreRedownloadedHeader_spec
    (loading : Redownloading config history buffered sync)
    (ran : validateAndStoreRedownloadedHeader config sync header = .ok (valid, next)) :
    (next.headerCommitments.length ≤ config.maxCommitments ∧
      next.redownloadedHeaders.length ≤ buffered.length + 1) ∧
      (valid = true →
        Redownloading config (history.redownload [header]) (buffered ++ [header]) next) := by
  have bounded := loading.bounded
  have refused : sync.headerCommitments.length ≤ config.maxCommitments ∧
      sync.redownloadedHeaders.length ≤ buffered.length + 1 :=
    ⟨bounded, le_succ_of_le loading.length_buffer.le⟩
  have stored (ok : Redownloading config (history.redownload [header])
      (buffered ++ [header]) next) : next.headerCommitments.length ≤ config.maxCommitments ∧
        next.redownloadedHeaders.length ≤ buffered.length + 1 := by
    refine ⟨ok.bounded, ok.length_buffer.le.trans_eq ?_⟩
    rw [length_append, length_singleton]
  rw [validateAndStoreRedownloadedHeader, if_neg (by simp [loading.state])] at ran
  obtain ⟨nextHeight, checked, ran⟩ := bind_eq_ok.mp ran
  have height := checkedInt64_eq_ok.mp checked
  rw [loading.lastHeight] at height
  split at ran
  · cases ran
    exact ⟨refused, nofun⟩
  next link =>
    rw [not_not, loading.lastHash] at link
    rw [loading.previousBits] at ran
    obtain ⟨permitted, isPermitted, ran⟩ := bind_eq_ok.mp ran
    cases permitted with
    | false =>
      cases ran
      exact ⟨refused, nofun⟩
    | true =>
      obtain ⟨proof, proved, ran⟩ := bind_eq_ok.mp ran
      have continues : Continues config history header nextHeight.toInt proof :=
        ⟨height, link, isPermitted, proved⟩
      have bits := checkedBits_concat config history.redownloaded header
      rw [← height] at bits
      rw [pure_eq_ok, Except.ok.injEq, checkCommitment] at ran
      split at ran
      next isChecked =>
        rw [Bool.and_eq_true, Bool.not_eq_true'] at isChecked
        obtain ⟨notAll, isCommitment⟩ := isChecked
        have notAllBefore := (Bool.or_eq_false_iff.mp notAll).1
        rw [if_pos isCommitment] at bits
        cases queue : sync.headerCommitments with
        | nil =>
          rw [queue] at ran
          cases ran
          exact ⟨⟨zero_le _, refused.2⟩, nofun⟩
        | cons expected commitments =>
          have shorter : commitments.length ≤ config.maxCommitments := by
            rw [queue, length_cons] at bounded
            omega
          rw [queue] at ran
          dsimp only at ran
          split at ran
          · cases ran
            exact ⟨⟨shorter, refused.2⟩, nofun⟩
          next same =>
            have matched := loading.commitments notAllBefore
            rw [queue, ← not_not.mp same, append_cons, ← bits] at matched
            cases ran
            have ok := loading.store continues shorter fun _ => matched
            exact ⟨stored ok, fun _ => ok⟩
      next unchecked =>
        cases ran
        have ok := loading.store continues bounded fun notAll => by
          have notCommitment : ¬config.isCommitmentHeight nextHeight.toInt = true := by
            intro isCommitment
            exact unchecked (by rw [notAll, isCommitment]; rfl)
          rw [bits, if_neg notCommitment, append_nil]
          exact loading.commitments (Bool.or_eq_false_iff.mp notAll).1
        exact ⟨stored ok, fun _ => ok⟩

theorem getFullHeader_ofHeader {hashPrevBlock : Uint256}
    (link : header.hashPrevBlock = hashPrevBlock) :
    (ofHeader header).getFullHeader hashPrevBlock = header := by
  rw [← link]
  rfl

/-- Headers come out of the buffer as they went in: all of them, or those that have enough
headers after them. -/
theorem popHeaders_spec (processAll : Bool) (linked : Linked config previous buffered) :
    ∃ ready rest, popHeaders config processAll (config.getHash previous) (buffered.map ofHeader) =
          (ready, rest.map ofHeader, config.getHash (ready.getLastD previous)) ∧
      buffered = ready ++ rest ∧ (processAll = true → rest = []) ∧
      (processAll = false → rest.length ≤ config.redownloadBufferSize ∧
        (ready ≠ [] → config.redownloadBufferSize ≤ rest.length)) := by
  induction buffered generalizing previous with
  | nil => exact ⟨[], [], rfl, rfl, fun _ => rfl, fun _ => ⟨zero_le _, nofun⟩⟩
  | cons header buffered ih =>
    obtain ⟨link, linkedRest⟩ := linked
    rw [map_cons, popHeaders]
    split
    next isReady =>
      obtain ⟨ready, rest, popped, parts, all, later⟩ := ih linkedRest
      rw [getFullHeader_ofHeader link]
      dsimp only
      rw [popped]
      refine ⟨header :: ready, rest, ?_, ?_, all, ?_⟩
      · rw [getLastD_cons]
      · rw [parts, cons_append]
      · intro notAll
        refine ⟨(later notAll).1, fun _ => ?_⟩
        rw [notAll, Bool.or_false, decide_eq_true_iff, length_cons, length_map] at isReady
        cases ready with
        | nil =>
          rw [parts, nil_append] at isReady
          omega
        | cons => exact (later notAll).2 (cons_ne_nil _ _)
    next notReady =>
      rw [Bool.or_eq_true, decide_eq_true_iff, not_or, length_cons, length_map] at notReady
      refine ⟨[], header :: buffered, rfl, rfl, ?_, ?_⟩
      · intro isAll
        exact absurd isAll notReady.2
      · intro _
        refine ⟨?_, nofun⟩
        rw [length_cons]
        omega

/-! ## Messages -/

/-- What the history shows at any time. -/
structure Recorded (config : Config) (history : History) : Prop where
  presynced : Linked config config.chainStart.header history.presynced
  linked : Linked config config.chainStart.header history.redownloaded
  permitted : Permitted config config.chainStart.height.toInt config.chainStart.header
    history.redownloaded
  released : history.released <+: history.redownloaded
  enough : history.redownloaded ≠ [] →
    config.minimumRequiredWork.toNat ≤ chainWork config history.presynced

/-- How the state goes with the history between two messages. -/
inductive Between (config : Config) (sync : Sync) : History → Prop
  | presync {presynced : List CBlockHeader} (presyncing : Presyncing config presynced sync) :
      Between config sync { presynced := presynced }
  | redownload {history : History} {buffered : List CBlockHeader}
      (redownloading : Redownloading config history buffered sync)
      (short : buffered.length ≤ config.redownloadBufferSize) : Between config sync history
  | final {history : History} (state : sync.downloadState = .final)
      (commitments : sync.headerCommitments = []) (buffer : sync.redownloadedHeaders = []) :
      Between config sync history

/-- Why headers may be handed on: the work is there again, or enough headers follow whose
commitments matched. -/
def MayRelease (config : Config) (history : History) : Prop :=
  config.minimumRequiredWork.toNat ≤ chainWork config history.redownloaded ∨
    (history.released.length + config.redownloadBufferSize ≤ history.redownloaded.length ∧
      checkedBits config history.redownloaded <+: storedBits config history.presynced)

theorem between_finalize (sync : Sync) (history : History) :
    Between config (finalize sync) history :=
  .final rfl rfl rfl

theorem Presyncing.loop (presyncing : Presyncing config presynced sync)
    (headers : List CBlockHeader) :
    (∀ inside ∈ forWhileStates (validateAndProcessSingleHeader config) headers sync,
      inside.headerCommitments.length ≤ config.maxCommitments + 1 ∧
        inside.redownloadedHeaders = []) ∧
      ∀ next, forWhile (validateAndProcessSingleHeader config) headers sync = .ok (true, next) →
        Presyncing config (presynced ++ headers) next :=
  forWhile_spec (fun _ _ _ _ _ kept _ stepped => validateAndProcessSingleHeader_spec kept stepped)
    presyncing le_rfl

theorem processPresync_spec (presyncing : Presyncing config presynced sync)
    (linked : Linked config config.chainStart.header presynced) (ne : message.headers ≠ [])
    (continuous : message.Continuous config)
    (ran : processPresync config sync message.headers message.full = .ok (res, next))
    (success : res.success = true) :
    Linked config config.chainStart.header (presynced ++ message.headers) ∧
      Between config next { presynced := presynced ++ message.headers } := by
  obtain ⟨⟨valid, after⟩, validated, ran⟩ := bind_eq_ok.mp ran
  cases ran
  obtain rfl : valid = true := success
  obtain ⟨first, rest, headersEq⟩ := exists_cons_of_ne_nil ne
  rw [headersEq, validateAndStoreHeadersCommitments, if_neg (by simp [presyncing.state])] at validated
  split at validated
  · cases validated
  next link =>
    rw [not_not, presyncing.last] at link
    rw [Message.Continuous, headersEq] at continuous
    obtain ⟨⟨through, looped⟩, ranLoop, ended⟩ := bind_eq_ok.mp validated
    cases through with
    | false => cases ended
    | true =>
      have presynced' := (presyncing.loop _).2 _ ranLoop
      rw [headersEq]
      refine ⟨linked_append.mpr ⟨linked, link, continuous⟩, ?_⟩
      change (if looped.currentChainWork.compare config.minimumRequiredWork ≠ .lt then _ else _) = _
        at ended
      split at ended
      next enough =>
        cases ended
        exact .redownload (presynced'.enterRedownload enough) (zero_le _)
      next =>
        cases ended
        exact .presync presynced'

/-- The history with some headers in the buffer. -/
def History.buffering (history : History) (buffered : List CBlockHeader) : History :=
  { history with redownloaded := history.released ++ buffered }

theorem Redownloading.loop (loading : Redownloading config history buffered sync)
    (headers : List CBlockHeader) :
    (∀ inside ∈ forWhileStates (validateAndStoreRedownloadedHeader config) headers sync,
      inside.headerCommitments.length ≤ config.maxCommitments ∧
        inside.redownloadedHeaders.length ≤ buffered.length + headers.length) ∧
      ∀ next, forWhile (validateAndStoreRedownloadedHeader config) headers sync = .ok (true, next) →
        Redownloading config (history.redownload headers) (buffered ++ headers) next := by
  -- What is in the buffer determines the headers that came again.
  have step (done : List CBlockHeader) (state : Sync) (header : CBlockHeader) (goesOn : Bool)
      (next : Sync) (kept : Redownloading config (history.buffering done) done state)
      (more : done.length < buffered.length + headers.length)
      (stepped : validateAndStoreRedownloadedHeader config state header = .ok (goesOn, next)) :
      (next.headerCommitments.length ≤ config.maxCommitments ∧
        next.redownloadedHeaders.length ≤ buffered.length + headers.length) ∧
        (goesOn = true → Redownloading config (history.buffering (done ++ [header]))
          (done ++ [header]) next) := by
    obtain ⟨⟨commitments, buffer⟩, ok⟩ := validateAndStoreRedownloadedHeader_spec kept stepped
    rw [History.redownload, History.buffering, append_assoc] at ok
    exact ⟨⟨commitments, buffer.trans more⟩, ok⟩
  have initial : Redownloading config (history.buffering buffered) buffered sync := by
    rw [History.buffering, ← loading.released]
    exact loading
  rw [History.redownload, loading.released, append_assoc]
  exact forWhile_spec step initial le_rfl

theorem getLastD_append (fallback : CBlockHeader) (first second : List CBlockHeader) :
    (first ++ second).getLastD fallback = second.getLastD (first.getLastD fallback) := by
  rw [getLastD_eq_getLast?, getLastD_eq_getLast?, getLastD_eq_getLast?,
    getLast?_append, Option.getD_or]

def History.release (history : History) (headers : List CBlockHeader) : History :=
  { history with released := history.released ++ headers }

theorem Redownloading.pop (loading : Redownloading config history buffered sync)
    (pos : 1 ≤ config.redownloadBufferSize) :
    ∃ ready rest next, popHeadersReadyForAcceptance config sync = (ready, next) ∧
      buffered = ready ++ rest ∧ rest.length ≤ config.redownloadBufferSize ∧
      (ready ≠ [] → MayRelease config (history.release ready)) ∧
      next.redownloadedHeaders.length = rest.length ∧
      next.headerCommitments = sync.headerCommitments ∧
      ((next.redownloadedHeaders.isEmpty && next.processAllRemainingHeaders) = false →
        Redownloading config (history.release ready) rest next) := by
  have linked := loading.linked
  rw [loading.released, linked_append] at linked
  obtain ⟨ready, rest, popped, parts, all, later⟩ :=
    popHeaders_spec sync.processAllRemainingHeaders linked.2
  rw [← loading.firstPrevHash, ← loading.buffer] at popped
  have res : popHeadersReadyForAcceptance config sync = (ready, { sync with
        redownloadedHeaders := rest.map ofHeader
        redownloadBufferFirstPrevHash :=
          config.getHash (ready.getLastD (history.released.getLastD config.chainStart.header)) }) := by
    rw [popHeadersReadyForAcceptance, if_neg (by simp [loading.state]), popped]
  refine ⟨ready, rest, _, res, parts, ?_, ?_, ?_, rfl, ?_⟩
  · cases isAll : sync.processAllRemainingHeaders with
    | false => exact (later isAll).1
    | true =>
      rw [all isAll]
      exact zero_le _
  · intro ne
    cases isAll : sync.processAllRemainingHeaders with
    | true => exact .inl (loading.all isAll)
    | false =>
      have enough := (later isAll).2 ne
      refine .inr ⟨?_, ?_⟩
      · rw [History.release, loading.released, parts, length_append, length_append, length_append]
        omega
      · exact ⟨sync.headerCommitments, (loading.commitments isAll).symm⟩
  · rw [length_map]
  · intro incomplete
    refine ⟨loading.state, loading.enough, ?_, rfl, ?_, loading.linked,
      loading.permitted, loading.lastHeight, loading.lastHash, ?_,
      loading.work, loading.all, loading.commitments, loading.bounded⟩
    · rw [History.release, loading.released, parts, append_assoc]
    · intro empty
      rw [empty] at incomplete
      have notAll : sync.processAllRemainingHeaders = false := incomplete
      cases ready with
      | nil =>
        rw [empty] at parts
        exact loading.begun parts
      | cons header headers =>
        have enough := (later notAll).2 (cons_ne_nil _ _)
        rw [empty, length_nil] at enough
        omega
    · rw [History.release, getLastD_append]

theorem processRedownload_spec (pos : 1 ≤ config.redownloadBufferSize)
    (recorded : Recorded config history)
    (loading : Redownloading config history buffered sync)
    (ran : processRedownload config sync message.headers message.full = .ok (res, next))
    (success : res.success = true) :
    Recorded config ((history.redownload message.headers).release res.powValidatedHeaders) ∧
      (res.requestMore = true → Between config next
          ((history.redownload message.headers).release res.powValidatedHeaders)) ∧
      (res.powValidatedHeaders ≠ [] → MayRelease config
          ((history.redownload message.headers).release res.powValidatedHeaders)) := by
  obtain ⟨⟨through, looped⟩, ranLoop, ended⟩ := bind_eq_ok.mp ran
  cases through with
  | false =>
    cases ended
    cases success
  | true =>
    have stored := (loading.loop _).2 _ ranLoop
    obtain ⟨ready, rest, popped, res, parts, short, may, -, -, continues⟩ := stored.pop pos
    simp only [if_true, res, pure_eq_ok] at ended
    cases ended
    refine ⟨⟨recorded.presynced, stored.linked, stored.permitted, ⟨rest, ?_⟩,
      fun _ => stored.enough⟩, ?_, may⟩
    · rw [History.release, stored.released, parts, append_assoc]
    · intro more
      have incomplete := (Bool.and_eq_true_iff.mp more).1
      rw [Bool.not_eq_true'] at incomplete
      exact .redownload (continues incomplete) short

/-- What a message keeps, and when it hands headers on. -/
structure Received (config : Config) (before after : Sync × History) : Prop where
  recorded : Recorded config after.2
  between : Between config after.1 after.2
  release : after.2.released ≠ before.2.released → MayRelease config after.2

theorem record_of_failure (history : History) (state : State) (headers : List CBlockHeader)
    (failed : res.success = false) (nothing : res.powValidatedHeaders = []) :
    history.record state headers res = history := by
  simp [History.record, failed, nothing]

theorem record_presync (history : History) (headers : List CBlockHeader)
    (success : res.success = true) (nothing : res.powValidatedHeaders = []) :
    history.record .presync headers res =
      { history with presynced := history.presynced ++ headers } := by
  simp [History.record, success, nothing]

theorem record_redownload (history : History) (headers : List CBlockHeader)
    (success : res.success = true) :
    history.record .redownload headers res =
      (history.redownload headers).release res.powValidatedHeaders := by
  simp [History.record, History.redownload, History.release, success]

theorem processRedownload_failure {full : Bool}
    (ran : processRedownload config sync headers full = .ok (res, next))
    (failed : res.success = false) : res.powValidatedHeaders = [] := by
  obtain ⟨⟨through, looped⟩, -, ended⟩ := bind_eq_ok.mp ran
  cases through with
  | false =>
    cases ended
    rfl
  | true =>
    cases ended
    cases failed

theorem processPresync_nothing {full : Bool}
    (ran : processPresync config sync headers full = .ok (res, next)) :
    res.powValidatedHeaders = [] := by
  obtain ⟨⟨valid, after⟩, -, ended⟩ := bind_eq_ok.mp ran
  cases ended
  rfl

theorem received_of_unchanged {before : Sync × History} (recorded : Recorded config before.2)
    (between : Between config sync before.2) (same : history = before.2) :
    Received config before (sync, history) := by
  cases same
  exact ⟨recorded, between, fun changed => absurd rfl changed⟩

theorem receive_spec {before after : Sync × History} (pos : 1 ≤ config.redownloadBufferSize)
    (recorded : Recorded config before.2) (between : Between config before.1 before.2)
    (continuous : message.Continuous config) (received : receive config before message = .ok after) :
    Received config before after := by
  obtain ⟨⟨res, sync⟩, processed, ended⟩ := bind_eq_ok.mp received
  cases ended
  rw [processNextHeaders] at processed
  split at processed
  next =>
    cases processed
    exact received_of_unchanged recorded between (record_of_failure _ _ _ rfl rfl)
  next active =>
    rw [Bool.or_eq_true, not_or, List.isEmpty_iff, beq_iff_eq] at active
    obtain ⟨⟨res, next⟩, ran, ended⟩ := bind_eq_ok.mp processed
    cases ended
    obtain ⟨sync, history⟩ := before
    dsimp only at ran recorded active between ⊢
    cases between with
    | final state => exact absurd state active.2
    | @presync presynced presyncing =>
      rw [processPhase, if_pos presyncing.state] at ran
      have nothing := processPresync_nothing ran
      rw [presyncing.state]
      cases success : res.success with
      | false =>
        exact received_of_unchanged recorded (between_finalize _ _)
          (record_of_failure _ _ _ success nothing)
      | true =>
        obtain ⟨linked, between⟩ :=
          processPresync_spec presyncing recorded.presynced active.1 continuous ran success
        rw [record_presync _ _ success nothing]
        refine ⟨⟨linked, trivial, trivial, prefix_refl _, fun some => absurd rfl some⟩, ?_,
          fun changed => absurd rfl changed⟩
        cases more : res.requestMore with
        | false => exact between_finalize _ _
        | true => exact between
    | @redownload _ buffered loading short =>
      rw [processPhase, if_neg (by simp [loading.state])] at ran
      rw [loading.state]
      cases success : res.success with
      | false =>
        exact received_of_unchanged recorded (between_finalize _ _)
          (record_of_failure _ _ _ success (processRedownload_failure ran success))
      | true =>
        obtain ⟨recorded, between, may⟩ := processRedownload_spec pos recorded loading ran success
        rw [record_redownload _ _ success]
        refine ⟨recorded, ?_, ?_⟩
        · cases more : res.requestMore with
          | false => exact between_finalize _ _
          | true => exact between more
        · intro changed
          refine may fun nothing => changed ?_
          rw [nothing]
          exact append_nil _

theorem exchange_spec {messages : List Message} {after : Sync × History}
    (pos : 1 ≤ config.redownloadBufferSize)
    (continuous : ∀ message ∈ messages, message.Continuous config)
    (exchanged : exchange config messages = .ok after) :
    Recorded config after.2 ∧ Between config after.1 after.2 := by
  have general (before : Sync × History) (recorded : Recorded config before.2)
      (between : Between config before.1 before.2)
      (ran : messages.foldlM (receive config) before = .ok after) :
      Recorded config after.2 ∧ Between config after.1 after.2 := by
    clear exchanged
    induction messages generalizing before with
    | nil =>
      cases ran
      exact ⟨recorded, between⟩
    | cons message messages ih =>
      obtain ⟨next, received, rest⟩ := bind_eq_ok.mp ran
      rw [forall_mem_cons] at continuous
      have kept := receive_spec pos recorded between continuous.1 received
      exact ih continuous.2 next kept.recorded kept.between rest
  have initial : Recorded config {} :=
    ⟨trivial, trivial, trivial, prefix_refl _, fun some => absurd rfl some⟩
  exact general (start config, {}) initial (.presync presyncing_start) exchanged

/-! ## Memory -/

/-- The states inside the loops of a message, one for each header that is looked at. -/
def visited (config : Config) (sync : Sync) (headers : List CBlockHeader) : List Sync :=
  match sync.downloadState with
  | .presync =>
    if headers.head?.map CBlockHeader.hashPrevBlock =
        some (config.getHash sync.lastHeaderReceived) then
      forWhileStates (validateAndProcessSingleHeader config) headers sync
    else []
  | .redownload => forWhileStates (validateAndStoreRedownloadedHeader config) headers sync
  | .final => []

/-- The sizes of the two queues while a message of some length is processed. -/
def Bounded (config : Config) (length : Nat) (sync : Sync) : Prop :=
  sync.headerCommitments.length ≤ config.maxCommitments + 1 ∧
    sync.redownloadedHeaders.length ≤ config.redownloadBufferSize + length

theorem Between.isBounded (between : Between config sync history) (length : Nat) :
    Bounded config length sync := by
  cases between with
  | presync presyncing =>
    refine ⟨le_succ_of_le presyncing.bounded, ?_⟩
    rw [presyncing.buffer]
    exact zero_le _
  | redownload loading short =>
    refine ⟨le_succ_of_le loading.bounded, ?_⟩
    rw [loading.length_buffer]
    omega
  | final state commitments buffer =>
    rw [Bounded, commitments, buffer]
    exact ⟨zero_le _, zero_le _⟩

theorem Between.visited_bounded (between : Between config sync history)
    (headers : List CBlockHeader) :
    ∀ inside ∈ visited config sync headers, Bounded config headers.length inside := by
  intro inside mem
  rw [visited] at mem
  cases between with
  | @presync presynced presyncing =>
    simp only [presyncing.state] at mem
    split at mem
    next =>
      obtain ⟨commitments, buffer⟩ := (presyncing.loop _).1 inside mem
      exact ⟨commitments, buffer ▸ zero_le _⟩
    next => exact absurd mem not_mem_nil
  | redownload loading short =>
    simp only [loading.state] at mem
    obtain ⟨commitments, buffer⟩ := (loading.loop _).1 inside mem
    exact ⟨le_succ_of_le commitments, buffer.trans (Nat.add_le_add_right short _)⟩
  | final state =>
    simp only [state] at mem
    exact absurd mem not_mem_nil

/-- What a peer gets a node to accept.  Headers that were handed on are linked from the start and
respect the difficulty rules, none comes before a chain with enough work, and each has the work
or enough matching headers after it. -/
theorem exchange_releases {messages : List Message} {message : Message}
    {before after : Sync × History} (positive : 1 ≤ config.redownloadBufferSize)
    (continuous : ∀ message ∈ messages, message.Continuous config)
    (continuousLast : message.Continuous config) (exchanged : exchange config messages = .ok before)
    (received : receive config before message = .ok after) :
    (Linked config config.chainStart.header after.2.released ∧
      Permitted config config.chainStart.height.toInt config.chainStart.header after.2.released) ∧
    (after.2.released ≠ [] → Linked config config.chainStart.header after.2.presynced ∧
      config.minimumRequiredWork.toNat ≤ chainWork config after.2.presynced) ∧
    after.2.released <+: after.2.redownloaded ∧
    (after.2.released ≠ before.2.released → MayRelease config after.2) ∧
    ∀ sync ∈ after.1 :: visited config before.1 message.headers,
      Bounded config message.headers.length sync := by
  obtain ⟨recorded, between⟩ := exchange_spec positive continuous exchanged
  have kept := receive_spec positive recorded between continuousLast received
  obtain ⟨rest, parts⟩ := kept.recorded.released
  have linked := kept.recorded.linked
  have permitted := kept.recorded.permitted
  rw [← parts] at linked permitted
  refine ⟨⟨(linked_append.mp linked).1, (permitted_append.mp permitted).1⟩, ?_,
    kept.recorded.released, kept.release, ?_⟩
  · intro nonempty
    refine ⟨kept.recorded.presynced, kept.recorded.enough ?_⟩
    rw [← parts]
    exact append_ne_nil_of_left_ne_nil nonempty _
  · rw [forall_mem_cons]
    exact ⟨kept.between.isBounded _, between.visited_bounded _⟩

/-- A header with the least work there is, for a hash that is always zero. -/
def easyHeader : CBlockHeader where
  hashPrevBlock := 0
  hashMerkleRoot := 0
  nBits := 0x207fffff

/-- Three easy headers are enough work, and a header waits for one more. -/
def easyConfig : Config where
  doubleSha256 _ := 0
  hasher _ := 0
  consensusParams := ⟨0, true, false, false, 600, 1209600⟩
  commitmentPeriod := 1
  redownloadBufferSize := 1
  commitOffset := 0
  chainStart := ⟨easyHeader, 0, ArithUint256.ofUInt64 2⟩
  minimumRequiredWork := ArithUint256.ofUInt64 8
  maxCommitments := 3
  commitOffset_lt := one_pos

/-- Of two headers that come again the first is handed on, without the work yet. -/
theorem exchange_releases_easyHeader :
    ∃ before after, exchange easyConfig [⟨[easyHeader, easyHeader, easyHeader], true⟩] = .ok before ∧
      receive easyConfig before ⟨[easyHeader, easyHeader], true⟩ = .ok after ∧
      after.2.released = [easyHeader] ∧ before.2.released = [] ∧ MayRelease easyConfig after.2 := by
  have run : (exchange easyConfig [⟨[easyHeader, easyHeader, easyHeader], true⟩] >>= fun before =>
      receive easyConfig before ⟨[easyHeader, easyHeader], true⟩ >>= fun after =>
      pure (before.2.released, after.2.released)).toOption = some ([], [easyHeader]) := by
    decide +kernel
  obtain ⟨before, exchanged, ran⟩ := bind_eq_ok.mp (toOption_eq_some.mp run)
  obtain ⟨after, received, ended⟩ := bind_eq_ok.mp ran
  obtain ⟨nothing, released⟩ := Prod.mk.inj (Except.ok.inj ended)
  have threeLinked : Message.Continuous easyConfig ⟨[easyHeader, easyHeader, easyHeader], true⟩ :=
    ⟨rfl, rfl, trivial⟩
  have twoLinked : Message.Continuous easyConfig ⟨[easyHeader, easyHeader], true⟩ := ⟨rfl, trivial⟩
  have safe := exchange_releases (le_refl 1) (forall_mem_singleton.mpr threeLinked) twoLinked
    exchanged received
  have changed : after.2.released ≠ before.2.released := by
    rw [nothing, released]
    exact cons_ne_nil _ _
  exact ⟨before, after, exchanged, received, released, nothing, safe.2.2.2.1 changed⟩

end HeadersSync

end Champy
