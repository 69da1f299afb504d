import Champy.RelatedRuns
import Champy.ValidationSpends

/-!
# Coin sources that fail

A lookup that fails stops the assessment with a failed operation at once.  Two sources that
agree wherever the first does not fail therefore run side by side: every step of the first run
is a step of the second, up to the failure.
-/

namespace Champy

open Exec

namespace Validation

open Protocol

def CoinLookup.fails : CoinLookup → Bool
  | .failed _ => true
  | .throws _ => true
  | _ => false

/-- A failed operation, as opposed to a rejection and to a fault. -/
def IsFailedOperation (failure : Failure Stop) : Prop :=
  ∃ error, failure = .reject (.failed error)

/-- An accepted block with its facts, or a rejection with its rule. -/
def IsDecision (result : VerifyResult BlockFacts) : Prop :=
  (∃ facts, result = .ok facts) ∨ ∃ rejection, result = .error (.reject (.invalid rejection))

/-- The second source answers like the first wherever the first does not fail. -/
def AnswersLike (first second : CoinSource) : Prop :=
  ∀ point, (first point).fails = false → second point = first point

section TwoSources

variable {hash256 : ByteHash} {interpreter : ScriptInterpreter}
  {first second : CoinSource} (alike : AnswersLike first second)

include alike

theorem extends_lookupCoin (point : COutPoint) :
    Exec.Extends IsFailedOperation (lookupCoin first point) (lookupCoin second point) := by
  cases failing : (first point).fails with
  | false =>
    have same : lookupCoin second point = lookupCoin first point := by
      rw [lookupCoin, lookupCoin, alike point failing]
    exact Or.inl same
  | true =>
    rw [lookupCoin]
    cases answer : first point with
    | failed failure => exact Or.inr ⟨_, rfl, _, rfl⟩
    | throws exhausted => cases exhausted <;> exact Or.inr ⟨_, rfl, _, rfl⟩
    | found value => simp [answer, CoinLookup.fails] at failing
    | missing => simp [answer, CoinLookup.fails] at failing
    | spent => simp [answer, CoinLookup.fails] at failing

theorem extends_findInputCoin (overlay : BlockSpendTracker) (point : COutPoint) :
    Exec.Extends IsFailedOperation (findInputCoin first overlay point)
      (findInputCoin second overlay point) := by
  rw [findInputCoin, findInputCoin]
  apply (extends_refl _ _).bind
  intro checked
  cases overlay.findUnspentCreated point with
  | some created => exact extends_refl _ _
  | none =>
    apply (extends_lookupCoin alike point).bind
    intro lookup
    exact extends_refl _ _

variable (ctx : BlockSpendContext) (progress : SpendProgress)

theorem extends_spendInputs (tx : Transaction) (facts : TransactionFacts) :
    Exec.Extends IsFailedOperation (spendInputs hash256 interpreter first ctx progress tx facts)
      (spendInputs hash256 interpreter second ctx progress tx facts) := by
  rw [spendInputs, spendInputs]
  split
  · exact extends_refl _ _
  · apply (extends_mapM (fun input => extends_findInputCoin alike _ _) _).bind
    -- from here on nothing reads the source
    intro inputs
    exact extends_refl _ _

theorem extends_createOutput (facts : TransactionFacts)
    (progress : SpendProgress) (output : TxOutput × Nat) :
    Exec.Extends IsFailedOperation (createOutput first ctx facts progress output)
      (createOutput second ctx facts progress output) := by
  rw [createOutput, createOutput]
  apply Exec.Extends.bind
  · rw [requireNoOverwrite, requireNoOverwrite]
    split
    · apply (extends_refl _ _).bind
      intro checked
      apply (extends_lookupCoin alike _).bind
      intro lookup
      exact extends_refl _ _
    · exact extends_refl _ _
  · intro checked
    exact extends_refl _ _

theorem extends_spendTransaction (transaction : Transaction × TransactionFacts) :
    Exec.Extends IsFailedOperation
      (spendTransaction hash256 interpreter first ctx progress transaction)
      (spendTransaction hash256 interpreter second ctx progress transaction) := by
  rw [spendTransaction, spendTransaction]
  apply (extends_spendInputs alike ctx progress _ _).bind
  intro spent
  exact extends_foldlM (extends_createOutput alike ctx _) _ _

theorem extends_assessBlockSpends (candidate : Block) (ctx : BlockSpendContext) :
    Exec.Extends IsFailedOperation (assessBlockSpends hash256 interpreter first candidate ctx)
      (assessBlockSpends hash256 interpreter second candidate ctx) := by
  rw [assessBlockSpends, assessBlockSpends]
  apply (extends_refl _ _).bind
  intro localFacts
  apply (extends_foldlM (extends_spendTransaction alike ctx) _ _).bind
  intro progress
  exact extends_refl _ _

end TwoSources

/-- A decision that a source leads to is the decision of every source that answers like it
where it does not fail. -/
theorem assessBlockSpends_decision_kept (doubleSha256 : List UInt8 → Uint256)
    (interpreter : ScriptInterpreter) (first second : CoinSource) (candidate : Block)
    (context : BlockSpendContext) (alike : AnswersLike first second)
    (decided : IsDecision (assessBlockSpends doubleSha256 interpreter first candidate context)) :
    assessBlockSpends doubleSha256 interpreter second candidate context =
      assessBlockSpends doubleSha256 interpreter first candidate context := by
  rcases extends_assessBlockSpends alike candidate context with same | stopped
  · exact same
  · obtain ⟨failure, stopped, error, rfl⟩ := stopped
    rw [stopped] at decided
    rcases decided with accepted | rejected
    · obtain ⟨facts, accepted⟩ := accepted
      cases accepted
    · obtain ⟨rejection, rejected⟩ := rejected
      cases rejected

/-- A hash for the samples: the sum of the bytes and their number. -/
def byteSum (bytes : List UInt8) : Uint256 :=
  BitVec.ofNat 256 (bytes.foldl (fun sum byte => sum + byte.toNat) bytes.length)

/-- A coinbase, a transaction that spends its output, and one that spends a coin of the
source. -/
def inBlockSpend : Block :=
  ⟨⟨0, 0, 411, 0, 0, 0⟩,
    [⟨1, [⟨⟨0, 0xffffffff⟩, [0x51, 0x51], 0xffffffff, []⟩], [⟨50, [0x51]⟩], 0⟩,
      ⟨1, [⟨⟨2402, 0⟩, [], 0, []⟩], [⟨43, [0x51]⟩], 0⟩,
      ⟨1, [⟨⟨9, 0⟩, [], 0, []⟩], [⟨8, [0x51]⟩], 0⟩]⟩

def inBlockSpendContext : BlockSpendContext :=
  { spend := { height := 1, previousMedianTimePast := 0, coinbaseMaturity := 0 }
    scripts := ⟨.none⟩
    deployments := ⟨true⟩
    subsidy := 50 }

def oneCoinSource : CoinSource :=
  fun point => if point = ⟨9, 0⟩ then .found ⟨⟨10, [0x51]⟩, 0, false, 0⟩ else .missing

/-- The same source, which cannot answer for one outpoint. -/
def partlyUnavailable : CoinSource :=
  fun point => if point = ⟨1, 0⟩ then .failed .unavailable else oneCoinSource point

theorem assessBlockSpends_decision_kept_inBlockSpend :
    IsDecision (assessBlockSpends byteSum (fun _ _ _ _ => .accepts) partlyUnavailable
        inBlockSpend inBlockSpendContext) ∧
      assessBlockSpends byteSum (fun _ _ _ _ => .accepts) oneCoinSource inBlockSpend
          inBlockSpendContext =
        assessBlockSpends byteSum (fun _ _ _ _ => .accepts) partlyUnavailable inBlockSpend
          inBlockSpendContext := by
  have accepted : (assessBlockSpends byteSum (fun _ _ _ _ => .accepts) partlyUnavailable
      inBlockSpend inBlockSpendContext).toOption.isSome = true := by
    decide +kernel
  obtain ⟨facts, returned⟩ := Option.isSome_iff_exists.mp accepted
  have decided : IsDecision (assessBlockSpends byteSum (fun _ _ _ _ => .accepts)
      partlyUnavailable inBlockSpend inBlockSpendContext) :=
    Or.inl ⟨facts, Exec.toOption_eq_some.mp returned⟩
  have alike : AnswersLike partlyUnavailable oneCoinSource := by
    intro point answers
    rw [partlyUnavailable] at answers ⊢
    split
    next unknown =>
      rw [if_pos unknown] at answers
      cases answers
    next => rfl
  exact ⟨decided, assessBlockSpends_decision_kept byteSum (fun _ _ _ _ => .accepts)
    partlyUnavailable oneCoinSource inBlockSpend inBlockSpendContext alike decided⟩

end Validation

end Champy
