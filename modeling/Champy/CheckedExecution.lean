import Mathlib.Data.BitVec
import Mathlib.Data.Option.Basic
import Mathlib.Tactic.Common
import Mathlib.Tactic.Ring

/-!
# Execution with rejections and faults

A C++ call can end in three ways.  It returns a value, it returns an error
that its caller inspects, or it leaves the program: an assertion fails, an
exception escapes, or the behaviour is undefined: a signed addition overflows
or a null pointer is followed.  `Exec` keeps the three apart, so that a statement about accepted
inputs never counts a faulting run as an answer.

The file names nothing of any particular program.
-/

namespace Champy

open List

/-- The ways in which a run ends without a value or an error value. -/
inductive Fault
  | assertion
  | signedOverflow
  | logicError
  | runtimeError
  | nullPointer
  deriving DecidableEq, Repr

/-- Why a run gave no value. -/
inductive Failure (ε : Type)
  | reject (error : ε)
  | fault (fault : Fault)
  deriving DecidableEq, Repr

/-- Runs that return a value, reject with an error of type `ε`, or fault. -/
abbrev Exec (ε : Type) (α : Type) : Type := Except (Failure ε) α

namespace Exec

variable {ε ε' α β γ : Type}

/-- Return an error value to the caller. -/
def reject (error : ε) : Exec ε α := .error (.reject error)

def abort (fault : Fault) : Exec ε α := .error (.fault fault)

/-- A C++ `assert`. -/
def assertThat (condition : Bool) : Exec ε Unit :=
  if condition then .ok () else abort .assertion

def ensure (condition : Bool) (error : ε) : Exec ε Unit :=
  if condition then .ok () else reject error

def accepts (run : Exec ε α) : Prop := ∃ value, run = .ok value

variable {kind : Failure ε → Prop} {step : α → β → Exec ε α} {run : Exec ε α} {elements : List β}
  {next : α → Exec ε β} {cond : Bool}

theorem bind_eq_ok {res : β} :
    (run >>= next) = .ok res ↔ ∃ value, run = .ok value ∧ next value = .ok res := by
  cases run with
  | error failure => simp [bind, Except.bind]
  | ok value => simp [bind, Except.bind]

/-- The case of a check, which returns nothing. -/
theorem bind_unit_eq_ok {run : Exec ε Unit} {next : Unit → Exec ε β} {res : β} :
    (run >>= next) = .ok res ↔ run = .ok () ∧ next () = .ok res := by
  rw [bind_eq_ok]
  exact ⟨fun ⟨(), ran, rest⟩ => ⟨ran, rest⟩, fun ⟨ran, rest⟩ => ⟨(), ran, rest⟩⟩

@[simp]
theorem ok_bind (value : α) (next : α → Exec ε β) :
    ((.ok value : Exec ε α) >>= next) = next value :=
  rfl

@[simp]
theorem pure_eq_ok (value : α) : (pure value : Exec ε α) = .ok value :=
  rfl

@[simp]
theorem error_bind (failure : Failure ε) (next : α → Exec ε β) :
    ((.error failure : Exec ε α) >>= next) = .error failure :=
  rfl

@[simp]
theorem assertThat_eq_ok {value : Unit} :
    (assertThat cond : Exec ε Unit) = .ok value ↔ cond = true := by
  cases cond <;> simp [assertThat, abort]

@[simp]
theorem ensure_eq_ok {error : ε} {value : Unit} : ensure cond error = .ok value ↔ cond = true := by
  cases cond <;> simp [ensure, reject]

theorem ensure_true (error : ε) : ensure true error = .ok () :=
  rfl

@[simp]
theorem reject_ne_ok (error : ε) (value : α) : (reject error : Exec ε α) ≠ .ok value := by
  simp [reject]

@[simp]
theorem abort_ne_ok (fault : Fault) (value : α) : (abort fault : Exec ε α) ≠ .ok value := by
  simp [abort]

variable {value : α}

theorem toOption_eq_some {failure : Type} {run : Except failure α} :
    run.toOption = some value ↔ run = .ok value := by
  cases run <;> simp [Except.toOption]

/-- A loop whose every round keeps a property of the accumulator exactly when
the property held before and the element passes a test ends well exactly when
the property held at the start and every element passes. -/
theorem foldlM_exists_ok_iff {keeps : α → Prop} {passes : β → Prop} (round : ∀ start elem,
      (∃ res, step start elem = .ok res ∧ keeps res) ↔ keeps start ∧ passes elem)
    (elements : List β) (start : α) :
    (∃ res, elements.foldlM step start = .ok res ∧ keeps res) ↔
      keeps start ∧ ∀ elem ∈ elements, passes elem := by
  induction elements generalizing start with
  | nil => simp
  | cons elem elements ih =>
    rw [forall_mem_cons, ← and_assoc, ← round]
    constructor
    · rintro ⟨res, run, kept⟩
      obtain ⟨next, stepped, rest⟩ := bind_eq_ok.mp run
      obtain ⟨nextKept, passed⟩ := (ih next).mp ⟨res, rest, kept⟩
      exact ⟨⟨next, stepped, nextKept⟩, passed⟩
    · rintro ⟨⟨next, stepped, nextKept⟩, passed⟩
      obtain ⟨res, rest, kept⟩ := (ih next).mpr ⟨nextKept, passed⟩
      exact ⟨res, bind_eq_ok.mpr ⟨next, stepped, rest⟩, kept⟩

variable {step' : α → β → Exec ε' α}

/-- Loops whose rounds return the same values while an invariant holds return the same
values. -/
theorem foldlM_eq_ok_congr_of_invariant (holds : α → Prop) (same : ∀ start elem res, holds start →
      (step start elem = .ok res ↔ step' start elem = .ok res))
    (kept : ∀ start elem res, holds start → step start elem = .ok res → holds res)
    (elements : List β) (start res : α) (initial : holds start) :
    elements.foldlM step start = .ok res ↔ elements.foldlM step' start = .ok res := by
  induction elements generalizing start with
  | nil => simp
  | cons elem elements ih =>
    rw [foldlM_cons, foldlM_cons, bind_eq_ok, bind_eq_ok]
    apply exists_congr
    intro next
    rw [← same start elem next initial]
    apply and_congr_right
    intro stepped
    exact ih next (kept start elem next initial stepped)

theorem foldlM_eq_ok_congr (same : ∀ start elem res,
      step start elem = .ok res ↔ step' start elem = .ok res) (elements : List β)
    (start res : α) :
    elements.foldlM step start = .ok res ↔ elements.foldlM step' start = .ok res := by
  apply foldlM_eq_ok_congr_of_invariant fun _ => True
  · intro start elem res _
    exact same start elem res
  · intro start elem res _ _
    trivial
  · trivial

theorem forM_eq_ok {step : β → Exec ε PUnit} :
    elements.forM step = .ok ⟨⟩ ↔ ∀ elem ∈ elements, step elem = .ok ⟨⟩ := by
  induction elements with
  | nil => simp [List.forM]
  | cons elem elements ih =>
    rw [List.forM, bind_eq_ok, forall_mem_cons, ← ih]
    constructor
    · rintro ⟨⟨⟩, first, rest⟩
      exact ⟨first, rest⟩
    · rintro ⟨first, rest⟩
      exact ⟨⟨⟩, first, rest⟩

theorem mapM_eq_ok {step : β → Exec ε α} {wrap : α → β}
    (inverse : ∀ elem res, step elem = .ok res ↔ elem = wrap res)
    {results : List α} :
    elements.mapM step = .ok results ↔ elements = results.map wrap := by
  induction elements generalizing results with
  | nil =>
    rw [mapM_nil, pure_eq_ok, Except.ok.injEq, eq_comm, eq_comm (a := []), map_eq_nil_iff]
  | cons elem elements ih =>
    rw [mapM_cons, bind_eq_ok]
    constructor
    · rintro ⟨first, stepped, later⟩
      obtain ⟨rest, mapped, ret⟩ := bind_eq_ok.mp later
      rw [pure_eq_ok, Except.ok.injEq] at ret
      rw [← ret, map_cons, ← (inverse elem first).mp stepped, ← ih.mp mapped]
    · intro eq
      cases results with
      | nil => cases eq
      | cons first rest =>
        obtain ⟨headEq, tailEq⟩ := List.cons.inj eq
        refine ⟨first, (inverse elem first).mpr headEq, ?_⟩
        exact bind_eq_ok.mpr ⟨rest, ih.mpr tailEq, rfl⟩

theorem mapM_exists_ok_iff {step : β → Exec ε α} : (∃ results, elements.mapM step = .ok results) ↔
      ∀ elem ∈ elements, ∃ res, step elem = .ok res := by
  induction elements with
  | nil => simp
  | cons elem elements ih =>
    rw [forall_mem_cons, ← ih]
    simp only [mapM_cons, bind_eq_ok, pure_eq_ok, Except.ok.injEq]
    constructor
    · intro collected
      obtain ⟨results, first, stepped, rest, mapped, -⟩ := collected
      exact ⟨⟨first, stepped⟩, rest, mapped⟩
    · intro rounds
      obtain ⟨⟨first, stepped⟩, rest, mapped⟩ := rounds
      exact ⟨first :: rest, first, stepped, rest, mapped, rfl⟩

theorem forall₂_of_mapM_eq_ok {step : β → Exec ε α} {relation : β → α → Prop}
    (round : ∀ elem res, step elem = .ok res → relation elem res)
    {results : List α} (mapped : elements.mapM step = .ok results) :
    List.Forall₂ relation elements results := by
  induction elements generalizing results with
  | nil =>
    cases mapped
    exact .nil
  | cons elem elements ih =>
    rw [mapM_cons, bind_eq_ok] at mapped
    obtain ⟨first, stepped, later⟩ := mapped
    obtain ⟨rest, mappedRest, ret⟩ := bind_eq_ok.mp later
    cases ret
    exact .cons (round elem first stepped) (ih mappedRest)

/-- A loop over positions that reads a second list at each position is a loop over
the pairs. -/
theorem mapM_zipIdx_eq_mapM_zip {entries : List β} {others : List γ}
    {step : β × Nat → Exec ε α} {stepBoth : β × γ → Exec ε α} {start : Nat}
    (length : entries.length = others.length)
    (agree : ∀ index entry other, entries[index]? = some entry → others[index]? = some other →
      step (entry, start + index) = stepBoth (entry, other)) :
    (entries.zipIdx start).mapM step = (entries.zip others).mapM stepBoth := by
  induction entries generalizing others start with
  | nil => rfl
  | cons entry entries ih =>
    cases others with
    | nil => cases length
    | cons other others =>
      have rests : (entries.zipIdx (start + 1)).mapM step = (entries.zip others).mapM stepBoth := by
        apply ih (Nat.succ.inj length)
        intro index later laterOther found foundOther
        have shifted := agree (index + 1) later laterOther found foundOther
        rwa [← Nat.add_assoc, Nat.add_right_comm] at shifted
      rw [zipIdx_cons, zip_cons_cons, mapM_cons, mapM_cons, rests, ← agree 0 entry other rfl rfl]
      rfl

/-! ### The failures of a run -/

/-- Every failure of the run is of the given kind. -/
def FailsOnly (kind : Failure ε → Prop) (run : Exec ε α) : Prop :=
  ∀ failure, run = .error failure → kind failure

@[simp]
theorem FailsOnly.ok : FailsOnly kind (.ok value : Exec ε α) := by
  intro failure impossible
  cases impossible

@[simp]
theorem failsOnly_error {failure : Failure ε} :
    FailsOnly kind (.error failure : Exec ε α) ↔ kind failure := by
  simp [FailsOnly]

@[simp]
theorem failsOnly_ensure {error : ε} :
    FailsOnly kind (ensure cond error) ↔ (cond = false → kind (.reject error)) := by
  cases cond <;> simp [ensure, reject]

@[simp]
theorem failsOnly_bind : FailsOnly kind (run >>= next) ↔
      FailsOnly kind run ∧ ∀ value, run = .ok value → FailsOnly kind (next value) := by
  cases run <;> simp

@[simp]
theorem failsOnly_ite {test : Prop} [Decidable test] {other : Exec ε α} :
    FailsOnly kind (if test then run else other) ↔
      (test → FailsOnly kind run) ∧ (¬test → FailsOnly kind other) := by
  split <;> simp [*]

theorem FailsOnly.bind (first : FailsOnly kind run) (nexts : ∀ value, FailsOnly kind (next value)) :
    FailsOnly kind (run >>= next) :=
  failsOnly_bind.mpr ⟨first, fun value _ => nexts value⟩

theorem failsOnly_foldlM (round : ∀ value elem, FailsOnly kind (step value elem))
    (elements : List β) (start : α) : FailsOnly kind (elements.foldlM step start) := by
  induction elements generalizing start with
  | nil => exact .ok
  | cons elem elements ih => exact (round start elem).bind ih

theorem failsOnly_mapM {action : β → Exec ε α} (round : ∀ elem, FailsOnly kind (action elem))
    (elements : List β) :
    FailsOnly kind (elements.mapM action) := by
  induction elements with
  | nil => exact .ok
  | cons elem elements ih =>
    rw [mapM_cons]
    exact (round elem).bind fun value => ih.bind fun values => .ok

def mapReject (change : ε → ε') : Exec ε α → Exec ε' α
  | .ok value => .ok value
  | .error (.reject error) => .error (.reject (change error))
  | .error (.fault fault) => .error (.fault fault)

@[simp]
theorem mapReject_eq_ok {change : ε → ε'} : mapReject change run = .ok value ↔ run = .ok value := by
  rcases run with (error | fault) | res <;> simp [mapReject]

end Exec

/-! ## Signed machine integers -/

/-- A 64-bit signed result, or a fault when the exact value does not fit. -/
def checkedInt64 {ε : Type} (value : Int) : Exec ε Int64 :=
  if -2 ^ 63 ≤ value ∧ value < 2 ^ 63 then .ok (Int64.ofInt value) else Exec.abort .signedOverflow

/-- A 32-bit signed result, or a fault when the exact value does not fit. -/
def checkedInt32 {ε : Type} (value : Int) : Exec ε Int32 :=
  if -2 ^ 31 ≤ value ∧ value < 2 ^ 31 then .ok (Int32.ofInt value) else Exec.abort .signedOverflow

def addInt64 {ε : Type} (first second : Int64) : Exec ε Int64 :=
  checkedInt64 (first.toInt + second.toInt)

def subInt64 {ε : Type} (first second : Int64) : Exec ε Int64 :=
  checkedInt64 (first.toInt - second.toInt)

def addInt32 {ε : Type} (first second : Int32) : Exec ε Int32 :=
  checkedInt32 (first.toInt + second.toInt)

def subInt32 {ε : Type} (first second : Int32) : Exec ε Int32 :=
  checkedInt32 (first.toInt - second.toInt)

variable {ε : Type}

theorem checkedInt64_eq_ok {value : Int} {res : Int64} :
    (checkedInt64 value : Exec ε Int64) = .ok res ↔ res.toInt = value := by
  unfold checkedInt64
  split
  · rename_i inRange
    constructor
    · intro eq
      cases eq
      exact Int64.toInt_ofInt_of_le inRange.1 inRange.2
    · intro eq
      rw [← eq, Int64.ofInt_toInt]
  · rename_i outOfRange
    constructor
    · intro eq
      exact absurd eq (Exec.abort_ne_ok _ _)
    · intro eq
      exact absurd ⟨eq ▸ res.le_toInt, eq ▸ res.toInt_lt⟩ outOfRange

theorem toInt_ofNat_toNat (word : UInt32) : (Int64.ofNat word.toNat).toInt = word.toNat :=
  Int64.toInt_ofNat_of_lt (Nat.lt_trans word.toNat_lt (by decide))

theorem exists_checkedInt64 (value : Int) (low : -2 ^ 63 ≤ value) (high : value < 2 ^ 63) :
    ∃ res : Int64, (∀ {ε : Type}, (checkedInt64 value : Exec ε Int64) = .ok res) ∧
      res.toInt = value :=
  ⟨Int64.ofInt value, if_pos ⟨low, high⟩, Int64.toInt_ofInt_of_le low high⟩

theorem checkedInt32_eq_ok {value : Int} {res : Int32} :
    (checkedInt32 value : Exec ε Int32) = .ok res ↔ res.toInt = value := by
  unfold checkedInt32
  split
  · rename_i inRange
    constructor
    · intro eq
      cases eq
      exact Int32.toInt_ofInt_of_le inRange.1 inRange.2
    · intro eq
      rw [← eq, Int32.ofInt_toInt]
  · rename_i outOfRange
    constructor
    · intro eq
      exact absurd eq (Exec.abort_ne_ok _ _)
    · intro eq
      exact absurd ⟨eq ▸ res.le_toInt, eq ▸ res.toInt_lt⟩ outOfRange

variable {first second res : Int64}

@[simp]
theorem addInt64_eq_ok :
    (addInt64 first second : Exec ε Int64) = .ok res ↔ res.toInt = first.toInt + second.toInt :=
  checkedInt64_eq_ok

@[simp]
theorem subInt64_eq_ok :
    (subInt64 first second : Exec ε Int64) = .ok res ↔ res.toInt = first.toInt - second.toInt :=
  checkedInt64_eq_ok

variable {first second res : Int32}

@[simp]
theorem addInt32_eq_ok :
    (addInt32 first second : Exec ε Int32) = .ok res ↔ res.toInt = first.toInt + second.toInt :=
  checkedInt32_eq_ok

@[simp]
theorem subInt32_eq_ok :
    (subInt32 first second : Exec ε Int32) = .ok res ↔ res.toInt = first.toInt - second.toInt :=
  checkedInt32_eq_ok

end Champy
