import Mathlib.Data.List.Nodup
import Mathlib.Data.List.Lookmap
import Mathlib.Data.List.Flatten
import Mathlib.Logic.Function.Basic
import Mathlib.Tactic.Common

/-!
# Ledgers of unspent entries

A ledger maps keys to the values that are still unspent.  A transfer takes the
values at some keys out and puts new values at other keys.  It is refused when a
key to spend is empty or a key to fill is taken.

A batch of transfers can be run one after the other, or resolved at once from
the first ledger and the transfers themselves.  The two agree when no created
key is taken at the start and two transfers that create the same key also spend
a common key.  The invariant that carries this is `Traced`: it gives the ledger
after a prefix of the batch in closed form.
-/

namespace Champy

open List Function

/-- The values that are unspent, by key. -/
abbrev Ledger (K V : Type) : Type := K → Option V

/-- Keys to spend, then keys to fill. -/
structure Transfer (K V : Type) where
  spends : List K
  creates : List (K × V)

namespace Transfer

variable {K V : Type}

def createdKeys (transfer : Transfer K V) : List K :=
  transfer.creates.map Prod.fst

def mapValues {V' : Type} (change : V → V') (transfer : Transfer K V) : Transfer K V' :=
  ⟨transfer.spends, transfer.creates.map fun entry => (entry.1, change entry.2)⟩

end Transfer

namespace Ledger

section Batches

variable {K V : Type}

def created (transfers : List (Transfer K V)) : List (K × V) :=
  transfers.flatMap Transfer.creates

def spent (transfers : List (Transfer K V)) : List K :=
  transfers.flatMap Transfer.spends

/-- A transfer fits a prefix of its batch when it creates distinct keys that were
free at the start, and shares a created key only with transfers that it also
shares a spent key with. -/
structure Fits (start : Ledger K V) (done : List (Transfer K V)) (transfer : Transfer K V) :
    Prop where
  free : ∀ key ∈ transfer.createdKeys, start key = none
  nodup : transfer.createdKeys.Nodup
  clash : ∀ earlier ∈ done, ∀ key ∈ earlier.createdKeys, key ∈ transfer.createdKeys →
    ∃ common ∈ earlier.spends, common ∈ transfer.spends

variable (first second : List (Transfer K V))

theorem created_append : created (first ++ second) = created first ++ created second :=
  flatMap_append

theorem spent_append : spent (first ++ second) = spent first ++ spent second := flatMap_append

theorem created_singleton (transfer : Transfer K V) : created [transfer] = transfer.creates :=
  flatMap_singleton _ _

theorem spent_singleton (transfer : Transfer K V) : spent [transfer] = transfer.spends :=
  flatMap_singleton _ _

variable {start : Ledger K V} {done : List (Transfer K V)} {transfer : Transfer K V}

/-- Once the keys spent so far are distinct, the keys created so far are too. -/
theorem Fits.not_created (fits : Fits start done transfer)
    (nodup : (spent done ++ transfer.spends).Nodup) {key : K} (mem : key ∈ transfer.createdKeys) :
    key ∉ (created done).map Prod.fst := by
  intro before
  obtain ⟨entry, entryMem, rfl⟩ := mem_map.mp before
  obtain ⟨earlier, earlierMem, creates⟩ := mem_flatMap.mp entryMem
  obtain ⟨common, spentBefore, spentNow⟩ :=
    fits.clash earlier earlierMem entry.1 (mem_map_of_mem creates) mem
  have spentMem : common ∈ spent done := mem_flatMap.mpr ⟨earlier, earlierMem, spentBefore⟩
  exact (nodup_append.mp nodup).2.2 common spentMem common spentNow rfl

/-- Every transfer of the batch fits the transfers before it. -/
def Coherent (start : Ledger K V) (transfers : List (Transfer K V)) : Prop :=
  ∀ done transfer later, transfers = done ++ transfer :: later → Fits start done transfer

variable {transfers : List (Transfer K V)}

theorem Coherent.fits (coherent : Coherent start (done ++ transfer :: transfers)) :
    Fits start done transfer :=
  coherent done transfer transfers rfl

theorem Coherent.step (coherent : Coherent start (done ++ transfer :: transfers)) :
    Coherent start ((done ++ [transfer]) ++ transfers) :=
  append_cons .. ▸ coherent

theorem Coherent.free (coherent : Coherent start transfers) (mem : transfer ∈ transfers) {key : K}
    (created : key ∈ transfer.createdKeys) : start key = none := by
  obtain ⟨done, later, split⟩ := append_of_mem mem
  exact (coherent done transfer later split).free key created

theorem Coherent.created_nodup (coherent : Coherent start (done ++ transfers))
    (nodup : (spent (done ++ transfers)).Nodup)
    (before : ((created done).map Prod.fst).Nodup) :
    ((created (done ++ transfers)).map Prod.fst).Nodup := by
  induction transfers generalizing done with
  | nil => rwa [append_nil]
  | cons transfer transfers ih =>
    rw [append_cons] at nodup ⊢
    refine ih coherent.step nodup ?_
    rw [spent_append, spent_append, spent_singleton] at nodup
    rw [created_append, created_singleton, map_append]
    refine nodup_append.mpr ⟨before, coherent.fits.nodup, ?_⟩
    intro key inDone other inTransfer same
    exact coherent.fits.not_created (nodup_append.mp nodup).1 inTransfer (same ▸ inDone)

end Batches

variable {K V : Type} [DecidableEq K]

def without (ledger : Ledger K V) (keys : List K) : Ledger K V :=
  fun key => if key ∈ keys then none else ledger key

def adding (ledger : Ledger K V) : List (K × V) → Ledger K V
  | [] => ledger
  | entry :: created => adding (update ledger entry.1 (some entry.2)) created

/-- Take out the values at some keys, one after the other. -/
def take (ledger : Ledger K V) : List K → Option (List V × Ledger K V)
  | [] => some ([], ledger)
  | key :: keys =>
    match ledger key with
    | none => none
    | some value =>
      (take (update ledger key none) keys).map fun result =>
        (value :: result.1, result.2)

/-- Fill some keys, one after the other. -/
def put (ledger : Ledger K V) : List (K × V) → Option (Ledger K V)
  | [] => some ledger
  | entry :: created =>
    match ledger entry.1 with
    | some _ => none
    | none => put (update ledger entry.1 (some entry.2)) created

def apply (ledger : Ledger K V) (transfer : Transfer K V) : Option (List V × Ledger K V) :=
  (ledger.take transfer.spends).bind fun taken =>
    (taken.2.put transfer.creates).map fun result => (taken.1, result)

/-- Run a batch of transfers and collect what each one took. -/
def run (ledger : Ledger K V) : List (Transfer K V) → Option (List (List V) × Ledger K V)
  | [] => some ([], ledger)
  | transfer :: transfers =>
    (ledger.apply transfer).bind fun applied =>
      (run applied.2 transfers).map fun result => (applied.1 :: result.1, result.2)

section Closed

variable {ledger rest : Ledger K V} {keys : List K} {values : List V} {created : List (K × V)}

theorem without_nil (ledger : Ledger K V) : ledger.without [] = ledger := by
  funext key
  simp [without]

theorem without_update (ledger : Ledger K V) (key : K) (keys : List K) :
    without (update ledger key none) keys = ledger.without (key :: keys) := by
  funext other
  by_cases same : other = key
  · simp [without, same]
  · simp [without, same]

omit [DecidableEq K] in
theorem ne_none_of_map (found : keys.map ledger = values.map some) {key : K} (mem : key ∈ keys) :
    ledger key ≠ none := by
  intro absent
  have held : ledger key ∈ values.map some := found ▸ mem_map_of_mem mem
  simp [absent] at held

theorem take_eq_some : ledger.take keys = some (values, rest) ↔
      keys.Nodup ∧ keys.map ledger = values.map some ∧ rest = ledger.without keys := by
  induction keys generalizing ledger values with
  | nil =>
    rw [take, without_nil]
    constructor
    · intro eq
      cases eq
      exact ⟨nodup_nil, rfl, rfl⟩
    · rintro ⟨-, noValues, rfl⟩
      rw [map_nil, eq_comm, map_eq_nil_iff] at noValues
      rw [noValues]
  | cons key keys ih =>
    have untouched : key ∉ keys → keys.map (update ledger key none) = keys.map ledger := by
      intro notMem
      apply map_congr_left
      intro other mem
      have ne : other ≠ key := fun same => notMem (same ▸ mem)
      exact update_of_ne ne _ _
    have present : keys.map (update ledger key none) = values.tail.map some → key ∉ keys :=
      fun found mem => ne_none_of_map found mem (update_self ..)
    rw [take, ← without_update]
    cases held : ledger key with
    | none =>
      constructor
      · intro eq
        cases eq
      · rintro ⟨-, found, -⟩
        rw [map_cons, held] at found
        cases values with
        | nil => cases found
        | cons value values => cases (cons.inj found).1
    | some value =>
      simp only [Option.map_eq_some_iff, Prod.exists, Prod.mk.injEq]
      constructor
      · rintro ⟨taken, res, takeEq, rfl, rfl⟩
        obtain ⟨nodup, found, restEq⟩ := ih.mp takeEq
        have notMem := present found
        refine ⟨nodup_cons.mpr ⟨notMem, nodup⟩, ?_, restEq⟩
        rw [map_cons, map_cons, held, ← found, untouched notMem]
      · rintro ⟨nodup, found, restEq⟩
        obtain ⟨notMem, nodup⟩ := nodup_cons.mp nodup
        cases values with
        | nil => cases found
        | cons first values =>
          rw [map_cons, map_cons, held] at found
          obtain ⟨firstEq, laterEq⟩ := cons.inj found
          cases firstEq
          refine ⟨values, rest, ih.mpr ⟨nodup, ?_, restEq⟩, rfl, rfl⟩
          rw [untouched notMem, laterEq]

theorem adding_of_notMem {key : K} (absent : key ∉ created.map Prod.fst) :
    ledger.adding created key = ledger key := by
  induction created generalizing ledger with
  | nil => rfl
  | cons entry created ih =>
    rw [map_cons, mem_cons, not_or] at absent
    rw [adding, ih absent.2, update_of_ne absent.1]

theorem adding_of_mem {entry : K × V} (nodup : (created.map Prod.fst).Nodup)
    (mem : entry ∈ created) : ledger.adding created entry.1 = some entry.2 := by
  induction created generalizing ledger with
  | nil => cases mem
  | cons first created ih =>
    obtain ⟨notMem, nodup⟩ := nodup_cons.mp nodup
    rcases mem_cons.mp mem with rfl | later
    · rw [adding, adding_of_notMem notMem, update_self]
    · rw [adding, ih nodup later]

theorem put_eq_some : ledger.put created = some rest ↔
      (created.map Prod.fst).Nodup ∧ (∀ key ∈ created.map Prod.fst, ledger key = none) ∧
        rest = ledger.adding created := by
  induction created generalizing ledger with
  | nil =>
    rw [put, adding, Option.some.injEq, eq_comm]
    simp
  | cons entry created ih =>
    rw [put, adding, map_cons, nodup_cons, forall_mem_cons]
    cases held : ledger entry.1 with
    | some value => simp
    | none =>
      simp only [true_and]
      rw [ih]
      constructor
      · rintro ⟨nodup, free, restEq⟩
        have notMem : entry.1 ∉ created.map Prod.fst := by
          intro mem
          have taken := free entry.1 mem
          rw [update_self] at taken
          cases taken
        refine ⟨⟨notMem, nodup⟩, ?_, restEq⟩
        intro key mem
        have ne : key ≠ entry.1 := fun same => notMem (same ▸ mem)
        rw [← free key mem, update_of_ne ne]
      · rintro ⟨⟨notMem, nodup⟩, free, restEq⟩
        refine ⟨nodup, ?_, restEq⟩
        intro key mem
        have ne : key ≠ entry.1 := fun same => notMem (same ▸ mem)
        rw [update_of_ne ne, free key mem]

variable {transfer : Transfer K V}

theorem apply_eq_some : ledger.apply transfer = some (values, rest) ↔
      transfer.spends.Nodup ∧ transfer.spends.map ledger = values.map some ∧
        transfer.createdKeys.Nodup ∧
        (∀ key ∈ transfer.createdKeys, ledger.without transfer.spends key = none) ∧
        rest = (ledger.without transfer.spends).adding transfer.creates := by
  rw [apply, Option.bind_eq_some_iff]
  constructor
  · rintro ⟨⟨taken, middle⟩, takeEq, putEq⟩
    obtain ⟨nodup, found, rfl⟩ := take_eq_some.mp takeEq
    obtain ⟨res, putEq, pairEq⟩ := Option.map_eq_some_iff.mp putEq
    cases pairEq
    exact ⟨nodup, found, put_eq_some.mp putEq⟩
  · rintro ⟨nodup, found, fits⟩
    refine ⟨(values, ledger.without transfer.spends), take_eq_some.mpr ⟨nodup, found, rfl⟩, ?_⟩
    rw [put_eq_some.mpr fits]
    rfl

theorem run_cons_eq_some {transfers : List (Transfer K V)} {taken : List (List V)} :
    ledger.run (transfer :: transfers) = some (taken, rest) ↔
      ∃ values middle later, ledger.apply transfer = some (values, middle) ∧
        run middle transfers = some (later, rest) ∧ taken = values :: later := by
  rw [run, Option.bind_eq_some_iff]
  constructor
  · rintro ⟨⟨values, middle⟩, applied, rests⟩
    obtain ⟨⟨later, res⟩, ran, pairEq⟩ := Option.map_eq_some_iff.mp rests
    cases pairEq
    exact ⟨values, middle, later, applied, ran, rfl⟩
  · rintro ⟨values, middle, later, applied, ran, rfl⟩
    refine ⟨(values, middle), applied, ?_⟩
    rw [ran]
    rfl

theorem without_without (ledger : Ledger K V) (first second : List K) :
    (ledger.without first).without second = ledger.without (first ++ second) := by
  funext key
  by_cases inFirst : key ∈ first <;> by_cases inSecond : key ∈ second <;>
    simp [without, inFirst, inSecond]

theorem adding_append (ledger : Ledger K V) (first second : List (K × V)) :
    ledger.adding (first ++ second) = (ledger.adding first).adding second := by
  induction first generalizing ledger with
  | nil => rfl
  | cons entry first ih => exact ih _

theorem without_adding (disjoint : ∀ key ∈ created.map Prod.fst, key ∉ keys) :
    (ledger.without keys).adding created = (ledger.adding created).without keys := by
  induction created generalizing ledger with
  | nil => rfl
  | cons entry created ih =>
    rw [map_cons, forall_mem_cons] at disjoint
    rw [adding, adding, ← ih disjoint.2]
    congr 1
    funext key
    by_cases same : key = entry.1
    · rw [same, update_self, without, if_neg disjoint.1, update_self]
    · rw [update_of_ne same, without, without, update_of_ne same]

end Closed

section Traces

/-- The ledger after a prefix of a batch, in closed form. -/
structure Traced (start : Ledger K V) (done : List (Transfer K V)) (now : Ledger K V) : Prop where
  spent_nodup : (spent done).Nodup
  created_nodup : ((created done).map Prod.fst).Nodup
  spent_known : ∀ key ∈ spent done, start key = none → key ∈ (created done).map Prod.fst
  now_eq : now = (start.adding (created done)).without (spent done)

variable {start now rest : Ledger K V} {done : List (Transfer K V)} {transfer : Transfer K V}
  {values : List V}

theorem traced_nil (start : Ledger K V) : Traced start [] start :=
  ⟨nodup_nil, nodup_nil, fun _ mem _ => absurd mem not_mem_nil, (without_nil start).symm⟩

/-- The keys of a transfer can be spent now exactly when none was spent before
and each was there at the start or has been created. -/
theorem Traced.spends_iff (traced : Traced start done now) :
    (transfer.spends.Nodup ∧ transfer.spends.map now = values.map some) ↔
      (spent done ++ transfer.spends).Nodup ∧
        transfer.spends.map (start.adding (created done)) = values.map some := by
  constructor
  · rintro ⟨nodup, found⟩
    have unspent : ∀ key ∈ transfer.spends, key ∉ spent done := by
      intro key mem before
      apply ne_none_of_map found mem
      rw [traced.now_eq, without, if_pos before]
    refine ⟨nodup_append.mpr ⟨traced.spent_nodup, nodup, ?_⟩, ?_⟩
    · intro key before other after same
      exact unspent key (same ▸ after) before
    · rw [← found]
      apply map_congr_left
      intro key mem
      rw [traced.now_eq, without, if_neg (unspent key mem)]
  · rintro ⟨nodup, found⟩
    obtain ⟨-, nodup, disjoint⟩ := nodup_append.mp nodup
    refine ⟨nodup, ?_⟩
    rw [← found]
    apply map_congr_left
    intro key mem
    have unspent : key ∉ spent done := fun before => disjoint key before key mem rfl
    rw [traced.now_eq, without, if_neg unspent]

/-- What a transfer creates is new: not spent before, and not spent by itself. -/
theorem Traced.not_spent (traced : Traced start done now) (fits : Fits start done transfer)
    (nodup : (spent done ++ transfer.spends).Nodup)
    (found : transfer.spends.map (start.adding (created done)) = values.map some) {key : K}
    (mem : key ∈ transfer.createdKeys) : key ∉ spent done ++ transfer.spends := by
  have fresh := fits.not_created nodup mem
  have free := fits.free key mem
  intro spentMem
  rcases mem_append.mp spentMem with before | now
  · exact fresh (traced.spent_known key before free)
  · apply ne_none_of_map found now
    rw [adding_of_notMem fresh, free]

theorem Traced.next (traced : Traced start done now) (fits : Fits start done transfer)
    (nodup : (spent done ++ transfer.spends).Nodup)
    (found : transfer.spends.map (start.adding (created done)) = values.map some) :
    Traced start (done ++ [transfer]) ((now.without transfer.spends).adding transfer.creates) := by
  have notSpent : ∀ key ∈ transfer.createdKeys, key ∉ spent done ++ transfer.spends :=
    fun _ mem => traced.not_spent fits nodup found mem
  refine ⟨?_, ?_, ?_, ?_⟩
  · rwa [spent_append, spent_singleton]
  · rw [created_append, created_singleton, map_append]
    refine nodup_append.mpr ⟨traced.created_nodup, fits.nodup, ?_⟩
    intro key before other after same
    exact fits.not_created nodup after (same ▸ before)
  · intro key mem free
    rw [spent_append, spent_singleton] at mem
    rw [created_append, map_append, mem_append]
    left
    rcases mem_append.mp mem with before | now
    · exact traced.spent_known key before free
    · by_contra absent
      apply ne_none_of_map found now
      rw [adding_of_notMem absent, free]
  · rw [traced.now_eq, without_without, without_adding notSpent, created_append, spent_append,
      created_singleton, spent_singleton, adding_append]

/-- One transfer of a batch, run on the ledger after the transfers before it. -/
theorem Traced.apply_eq_some (traced : Traced start done now) (fits : Fits start done transfer) :
    now.apply transfer = some (values, rest) ↔ (spent done ++ transfer.spends).Nodup ∧
        transfer.spends.map (start.adding (created done)) = values.map some ∧
        rest = (now.without transfer.spends).adding transfer.creates := by
  rw [Ledger.apply_eq_some]
  constructor
  · rintro ⟨nodup, found, -, -, restEq⟩
    obtain ⟨nodup, found⟩ := traced.spends_iff.mp ⟨nodup, found⟩
    exact ⟨nodup, found, restEq⟩
  · rintro ⟨nodup, found, restEq⟩
    obtain ⟨ownNodup, ownFound⟩ := traced.spends_iff.mpr ⟨nodup, found⟩
    refine ⟨ownNodup, ownFound, fits.nodup, ?_, restEq⟩
    intro key mem
    have notSpent := traced.not_spent fits nodup found mem
    rw [traced.now_eq, without_without, without, if_neg notSpent,
      adding_of_notMem (fits.not_created nodup mem), fits.free key mem]

/-- What each transfer takes, read off from the start and what was created before
it, without running the batch. -/
def Resolves (start : Ledger K V) :
    List (Transfer K V) → List (Transfer K V) → List (List V) → Prop
  | _, [], taken => taken = []
  | done, transfer :: transfers, taken =>
    ∃ values later, taken = values :: later ∧
      transfer.spends.map (start.adding (created done)) = values.map some ∧
      Resolves start (done ++ [transfer]) transfers later

variable {transfers : List (Transfer K V)} {taken : List (List V)} {final : Ledger K V}

theorem resolves_iff : Resolves start done transfers taken ↔ transfers.mapIdx (fun index transfer =>
        transfer.spends.map (start.adding (created (done ++ transfers.take index)))) =
        taken.map (map some) := by
  induction transfers generalizing done taken with
  | nil =>
    rw [Resolves, mapIdx_nil, eq_comm (a := []), map_eq_nil_iff]
  | cons transfer transfers ih =>
    have shift : ∀ index, done ++ (transfer :: transfers).take (index + 1) =
        done ++ [transfer] ++ transfers.take index :=
      fun index => append_cons ..
    rw [Resolves, mapIdx_cons]
    simp only [shift, take_zero, append_nil]
    constructor
    · rintro ⟨values, later, rfl, found, resolves⟩
      rw [map_cons, found, ih.mp resolves]
    · intro eq
      cases taken with
      | nil => cases eq
      | cons values later =>
        obtain ⟨headEq, tailEq⟩ := cons.inj eq
        exact ⟨values, later, rfl, headEq, ih.mpr tailEq⟩

/-- Running the rest of a batch is the same as resolving it, when no key is
spent twice. -/
theorem Traced.run_eq_some (traced : Traced start done now)
    (coherent : Coherent start (done ++ transfers)) :
    now.run transfers = some (taken, final) ↔
      (spent (done ++ transfers)).Nodup ∧ Resolves start done transfers taken ∧
        final = (start.adding (created (done ++ transfers))).without
          (spent (done ++ transfers)) := by
  induction transfers generalizing done now taken with
  | nil =>
    rw [append_nil, run, Resolves, ← traced.now_eq]
    constructor
    · intro eq
      cases eq
      exact ⟨traced.spent_nodup, rfl, rfl⟩
    · rintro ⟨-, rfl, rfl⟩
      rfl
  | cons transfer transfers ih =>
    have ahead : (spent (done ++ [transfer] ++ transfers)).Nodup →
        (spent done ++ transfer.spends).Nodup := by
      intro nodup
      rw [spent_append, spent_append, spent_singleton] at nodup
      exact (nodup_append.mp nodup).1
    rw [run_cons_eq_some, append_cons]
    constructor
    · rintro ⟨values, middle, later, applied, ran, rfl⟩
      obtain ⟨nodup, found, rfl⟩ := (traced.apply_eq_some coherent.fits).mp applied
      have nextTraced := traced.next coherent.fits nodup found
      obtain ⟨allNodup, resolves, finalEq⟩ := (ih nextTraced coherent.step).mp ran
      exact ⟨allNodup, ⟨values, later, rfl, found, resolves⟩, finalEq⟩
    · rintro ⟨allNodup, ⟨values, later, rfl, found, resolves⟩, finalEq⟩
      have nodup := ahead allNodup
      have nextTraced := traced.next coherent.fits nodup found
      exact ⟨values, _, later, (traced.apply_eq_some coherent.fits).mpr ⟨nodup, found, rfl⟩,
        (ih nextTraced coherent.step).mpr ⟨allNodup, resolves, finalEq⟩, rfl⟩

theorem run_eq_some (coherent : Coherent start transfers) :
    start.run transfers = some (taken, final) ↔
      (spent transfers).Nodup ∧ Resolves start [] transfers taken ∧
        final = (start.adding (created transfers)).without (spent transfers) :=
  (traced_nil start).run_eq_some coherent

end Traces

/-! ## Runs that happen to succeed -/

section Recorded

variable {start now : Ledger K V} {done transfers : List (Transfer K V)} {transfer : Transfer K V}

/-- The value was at the key from the start, or was created there. -/
def Recorded (start : Ledger K V) (done : List (Transfer K V)) (key : K) (value : V) : Prop :=
  start key = some value ∨ (key, value) ∈ created done

/-- Every recorded value of a key that is not spent is still there.  Since a transfer fills only
free keys, a run that succeeds keeps this. -/
def Keeps (start : Ledger K V) (done : List (Transfer K V)) (now : Ledger K V) : Prop :=
  ∀ key value, key ∉ spent done → Recorded start done key value → now key = some value

omit [DecidableEq K] in
theorem keeps_nil (start : Ledger K V) : Keeps start [] start := by
  intro key value _ recorded
  rcases recorded with held | created
  · exact held
  · cases created

theorem Keeps.next {values : List V} {next : Ledger K V} (keeps : Keeps start done now)
    (applied : now.apply transfer = some (values, next)) :
    Keeps start (done ++ [transfer]) next := by
  obtain ⟨-, -, nodup, free, rfl⟩ := apply_eq_some.mp applied
  intro key value notSpent recorded
  rw [spent_append, spent_singleton, mem_append, not_or] at notSpent
  have untouched : now.without transfer.spends key = now key := if_neg notSpent.2
  have kept : Recorded start done key value →
      (now.without transfer.spends).adding transfer.creates key = some value := by
    intro before
    have held := keeps key value notSpent.1 before
    rw [adding_of_notMem, untouched, held]
    intro created
    have isFree := free key created
    rw [untouched, held] at isFree
    cases isFree
  rcases recorded with held | created
  · exact kept (Or.inl held)
  · rw [created_append, created_singleton, mem_append] at created
    rcases created with before | now
    · exact kept (Or.inr before)
    · exact adding_of_mem nodup now

omit [DecidableEq K] in
theorem Keeps.map_eq (keeps : Keeps start done now) {keys : List K} {values : List V}
    (recorded : List.Forall₂ (Recorded start done) keys values)
    (unspent : ∀ key ∈ keys, key ∉ spent done) : keys.map now = values.map some := by
  induction recorded with
  | nil => rfl
  | cons head tail ih =>
    rw [map_cons, map_cons, keeps _ _ (unspent _ mem_cons_self) head,
      ih fun key mem => unspent key (mem_cons_of_mem _ mem)]

/-- The ledger after a transfer, whether or not it was admitted. -/
def after (ledger : Ledger K V) (transfer : Transfer K V) : Ledger K V :=
  (ledger.without transfer.spends).adding transfer.creates

/-- No key is created while it is held. -/
def OverwritesNothing (ledger : Ledger K V) : List (Transfer K V) → Prop
  | [] => True
  | transfer :: transfers =>
    (transfer.createdKeys.Nodup ∧
      ∀ key ∈ transfer.createdKeys, ledger.without transfer.spends key = none) ∧
      OverwritesNothing (ledger.after transfer) transfers

theorem overwritesNothing_of_run {taken : List (List V)} {final : Ledger K V}
    (ran : now.run transfers = some (taken, final)) :
    now.OverwritesNothing transfers := by
  induction transfers generalizing now taken with
  | nil => trivial
  | cons transfer transfers ih =>
    obtain ⟨values, middle, later, applied, ranLater, -⟩ := run_cons_eq_some.mp ran
    obtain ⟨-, -, nodup, free, rfl⟩ := apply_eq_some.mp applied
    exact ⟨⟨nodup, free⟩, ih ranLater⟩

/-- Where nothing is overwritten and no key is spent twice, recorded values are taken. -/
theorem Keeps.run_eq_some (keeps : Keeps start done now) {found : List (List V)}
    (free : now.OverwritesNothing transfers) (nodup : (spent (done ++ transfers)).Nodup)
    (lengths : found.length = transfers.length)
    (recorded : ∀ index transfer row, transfers[index]? = some transfer → found[index]? = some row →
        List.Forall₂ (Recorded start (done ++ transfers.take index)) transfer.spends row) :
    ∃ final, now.run transfers = some (found, final) := by
  induction transfers generalizing done now found with
  | nil =>
    rw [eq_nil_of_length_eq_zero lengths]
    exact ⟨now, rfl⟩
  | cons transfer transfers ih =>
    cases found with
    | nil => cases lengths
    | cons row rows =>
      obtain ⟨⟨createdNodup, createdFree⟩, freeLater⟩ := free
      rw [append_cons] at nodup
      have spentNodup := nodup
      rw [spent_append, spent_append, spent_singleton] at spentNodup
      obtain ⟨-, spendsNodup, apart⟩ := nodup_append.mp (nodup_append.mp spentNodup).1
      have first := recorded 0 transfer row rfl rfl
      rw [take_zero, append_nil] at first
      have held := keeps.map_eq first fun key spends before => apart key before key spends rfl
      have applied : now.apply transfer = some (row, now.after transfer) :=
        apply_eq_some.mpr ⟨spendsNodup, held, createdNodup, createdFree, rfl⟩
      obtain ⟨final, ran⟩ := ih (keeps.next applied) freeLater nodup (Nat.succ.inj lengths) (by
        intro index other otherRow otherEq rowEq
        have shifted := recorded (index + 1) other otherRow otherEq rowEq
        rwa [take_succ_cons, append_cons] at shifted)
      exact ⟨final, run_cons_eq_some.mpr ⟨row, _, rows, applied, ran, rfl⟩⟩

end Recorded

/-! ## Transfers applied without looking -/

section Blind

def afterAll (ledger : Ledger K V) (transfers : List (Transfer K V)) : Ledger K V :=
  transfers.foldl after ledger

/-- What each transfer of a batch finds at its keys when its turn comes. -/
def resolved (ledger : Ledger K V) : List (Transfer K V) → List (List (Option V))
  | [] => []
  | transfer :: transfers =>
    transfer.spends.map ledger :: resolved (ledger.after transfer) transfers

variable {start now final : Ledger K V} {done transfers : List (Transfer K V)}
  {taken : List (List V)}

/-- In a coherent batch nothing is overwritten, so running it is the same as
finding a value at every key that is spent. -/
theorem Traced.run_iff_resolved (traced : Traced start done now)
    (coherent : Coherent start (done ++ transfers))
    (nodup : ∀ transfer ∈ transfers, transfer.spends.Nodup) :
    now.run transfers = some (taken, final) ↔
      now.resolved transfers = taken.map (map some) ∧ final = now.afterAll transfers := by
  induction transfers generalizing done now taken with
  | nil =>
    rw [run, resolved, eq_comm (a := []), map_eq_nil_iff]
    constructor
    · intro eq
      cases eq
      exact ⟨rfl, rfl⟩
    · rintro ⟨rfl, rfl⟩
      rfl
  | cons transfer transfers ih =>
    rw [forall_mem_cons] at nodup
    have applied_iff : ∀ {values : List V} {middle : Ledger K V},
        now.apply transfer = some (values, middle) ↔
        transfer.spends.map now = values.map some ∧ middle = now.after transfer := by
      intro values middle
      rw [traced.apply_eq_some coherent.fits, ← and_assoc, ← traced.spends_iff]
      exact ⟨fun applied => ⟨applied.1.2, applied.2⟩,
        fun applied => ⟨⟨nodup.1, applied.1⟩, applied.2⟩⟩
    have tracedNext : ∀ {values : List V}, transfer.spends.map now = values.map some →
        Traced start (done ++ [transfer]) (now.after transfer) := by
      intro values found
      obtain ⟨spentNodup, resolves⟩ := traced.spends_iff.mp ⟨nodup.1, found⟩
      exact traced.next coherent.fits spentNodup resolves
    rw [run_cons_eq_some]
    constructor
    · rintro ⟨values, middle, later, applied, ran, rfl⟩
      obtain ⟨found, rfl⟩ := applied_iff.mp applied
      obtain ⟨resolvedLater, finalEq⟩ := (ih (tracedNext found) coherent.step nodup.2).mp ran
      rw [resolved, found, resolvedLater]
      exact ⟨rfl, finalEq⟩
    · rintro ⟨allFound, finalEq⟩
      cases taken with
      | nil => cases allFound
      | cons values later =>
        obtain ⟨found, resolvedLater⟩ := cons.inj allFound
        exact ⟨values, _, later, applied_iff.mpr ⟨found, rfl⟩,
          (ih (tracedNext found) coherent.step nodup.2).mpr ⟨resolvedLater, finalEq⟩, rfl⟩

theorem run_iff_resolved (coherent : Coherent start transfers)
    (nodup : ∀ transfer ∈ transfers, transfer.spends.Nodup) :
    start.run transfers = some (taken, final) ↔
      start.resolved transfers = taken.map (map some) ∧ final = start.afterAll transfers :=
  (traced_nil start).run_iff_resolved coherent nodup

theorem resolved_append (ledger : Ledger K V) (first second : List (Transfer K V)) :
    ledger.resolved (first ++ second) =
      ledger.resolved first ++ (ledger.afterAll first).resolved second := by
  induction first generalizing ledger with
  | nil => rfl
  | cons transfer first ih => exact congrArg (_ :: ·) (ih _)

theorem length_resolved (ledger : Ledger K V) (transfers : List (Transfer K V)) :
    (ledger.resolved transfers).length = transfers.length := by
  induction transfers generalizing ledger with
  | nil => rfl
  | cons transfer transfers ih => rw [resolved, length_cons, length_cons, ih]

variable {ledger : Ledger K V} {transfer : Transfer K V} {index : Nat}

theorem getElem?_resolved (ledger : Ledger K V) (found : transfers[index]? = some transfer) :
    ∃ now : Ledger K V, (ledger.resolved transfers)[index]? = some (transfer.spends.map now) := by
  induction transfers generalizing ledger index with
  | nil => cases found
  | cons first transfers ih =>
    cases index with
    | zero =>
      cases found
      exact ⟨ledger, rfl⟩
    | succ index => exact ih _ found

variable {row : List (Option V)}

theorem resolved_row (found : transfers[index]? = some transfer)
    (rowFound : (ledger.resolved transfers)[index]? = some row) :
    row.length = transfer.spends.length := by
  obtain ⟨now, rowEq⟩ := getElem?_resolved ledger found
  rw [Option.some.inj (rowFound.symm.trans rowEq), length_map]

variable {value : V}

theorem adding_eq_some {created : List (K × V)} {key : K}
    (held : ledger.adding created key = some value) :
    (key, value) ∈ created ∨ ledger key = some value := by
  induction created generalizing ledger with
  | nil => exact Or.inr held
  | cons entry created ih =>
    rcases ih held with later | now
    · exact Or.inl (mem_cons_of_mem _ later)
    · by_cases same : key = entry.1
      · rw [same, update_self, Option.some.injEq] at now
        rw [same, ← now]
        exact Or.inl mem_cons_self
      · rw [update_of_ne same] at now
        exact Or.inr now

theorem after_eq_some {key : K} (held : ledger.after transfer key = some value) :
    (key, value) ∈ transfer.creates ∨ ledger key = some value := by
  rcases adding_eq_some held with created | kept
  · exact Or.inl created
  · by_cases spent : key ∈ transfer.spends
    · rw [without, if_pos spent] at kept
      cases kept
    · rw [without, if_neg spent] at kept
      exact Or.inr kept

/-- What a transfer of a batch finds was there at the start or is created by the batch. -/
theorem resolved_origin (found : transfers[index]? = some transfer)
    (rowFound : (ledger.resolved transfers)[index]? = some row) {key : K}
    (mem : (key, some value) ∈ transfer.spends.zip row) :
    ledger key = some value ∨ ∃ earlier ∈ transfers, (key, value) ∈ earlier.creates := by
  induction transfers generalizing ledger index with
  | nil => cases found
  | cons first transfers ih =>
    cases index with
    | zero =>
      cases found
      cases rowFound
      left
      rw [zip_eq_zipWith, zipWith_map_right, zipWith_self, mem_map] at mem
      obtain ⟨spent, -, eq⟩ := mem
      obtain ⟨rfl, held⟩ := Prod.mk.inj eq
      exact held
    | succ index =>
      rcases ih found rowFound with held | ⟨earlier, earlierMem, created⟩
      · rcases after_eq_some held with created | before
        · exact Or.inr ⟨first, mem_cons_self, created⟩
        · exact Or.inl before
      · exact Or.inr ⟨earlier, mem_cons_of_mem _ earlierMem, created⟩

/-- Where nothing is overwritten, a batch that finds every value runs. -/
theorem OverwritesNothing.run_eq_some (free : ledger.OverwritesNothing transfers)
    (nodup : ∀ transfer ∈ transfers, transfer.spends.Nodup)
    (found : ledger.resolved transfers = taken.map (map some)) :
    ledger.run transfers = some (taken, ledger.afterAll transfers) := by
  induction transfers generalizing ledger taken with
  | nil =>
    rw [eq_nil_of_map_eq_nil found.symm]
    rfl
  | cons transfer transfers ih =>
    rw [forall_mem_cons] at nodup
    cases taken with
    | nil => cases found
    | cons values later =>
      obtain ⟨foundNow, foundLater⟩ := cons.inj found
      exact run_cons_eq_some.mpr ⟨values, _, later,
        apply_eq_some.mpr ⟨nodup.1, foundNow, free.1.1, free.1.2, rfl⟩,
        ih free.2 nodup.2 foundLater, rfl⟩

theorem run_append {middle final : Ledger K V} {first second : List (Transfer K V)}
    {taken later : List (List V)} (ran : ledger.run first = some (taken, middle))
    (ranLater : middle.run second = some (later, final)) :
    ledger.run (first ++ second) = some (taken ++ later, final) := by
  induction first generalizing ledger taken with
  | nil =>
    cases ran
    exact ranLater
  | cons transfer first ih =>
    obtain ⟨values, next, rest, applied, ranRest, rfl⟩ := run_cons_eq_some.mp ran
    rw [cons_append, run_cons_eq_some]
    exact ⟨values, next, rest ++ later, applied, ih ranRest, rfl⟩

end Blind

/-! ## Values under a function -/

section Values

variable {V' : Type} (change : V → V') (ledger : Ledger K V)

omit [DecidableEq K] in
def mapValues : Ledger K V' :=
  fun key => (ledger key).map change

theorem adding_mapValues (created : List (K × V)) :
    (ledger.mapValues change).adding (created.map fun entry => (entry.1, change entry.2)) =
      (ledger.adding created).mapValues change := by
  induction created generalizing ledger with
  | nil => rfl
  | cons entry created ih =>
    rw [map_cons, adding, adding, ← ih]
    congr 1
    funext key
    by_cases same : key = entry.1
    · rw [same, update_self, mapValues, update_self, Option.map_some]
    · rw [update_of_ne same, mapValues, mapValues, update_of_ne same]

theorem after_mapValues (transfer : Transfer K V) :
    (ledger.mapValues change).after (transfer.mapValues change) =
      (ledger.after transfer).mapValues change := by
  rw [after, after, ← adding_mapValues]
  congr 1
  funext key
  by_cases spent : key ∈ transfer.spends
  · rw [mapValues, without, without, if_pos spent]
    exact if_pos spent
  · rw [mapValues, without, without, if_neg spent]
    exact if_neg spent

theorem resolved_mapValues (transfers : List (Transfer K V)) :
    (ledger.mapValues change).resolved (transfers.map (Transfer.mapValues change)) =
      (ledger.resolved transfers).map (map (Option.map change)) := by
  induction transfers generalizing ledger with
  | nil => rfl
  | cons transfer transfers ih =>
    rw [map_cons, resolved, resolved, after_mapValues, ih, map_cons, map_map]
    rfl

theorem map_some_of_map {row : List (Option V)} {images : List V'}
    (found : row.map (Option.map change) = images.map some) :
    ∃ values : List V, row = values.map some ∧ values.map change = images := by
  induction row generalizing images with
  | nil =>
    rw [map_nil, eq_comm, map_eq_nil_iff] at found
    exact ⟨[], rfl, found.symm⟩
  | cons entry row ih =>
    cases images with
    | nil => cases found
    | cons image images =>
      obtain ⟨first, later⟩ := cons.inj found
      obtain ⟨value, rfl, rfl⟩ := Option.map_eq_some_iff.mp first
      obtain ⟨values, rfl, rfl⟩ := ih later
      exact ⟨value :: values, rfl, rfl⟩

theorem map_map_some_of_map {rows : List (List (Option V))} {images : List (List V')}
    (found : rows.map (map (Option.map change)) = images.map (map some)) :
    ∃ values : List (List V), rows = values.map (map some) ∧ values.map (map change) = images := by
  induction rows generalizing images with
  | nil =>
    rw [map_nil, eq_comm, map_eq_nil_iff] at found
    exact ⟨[], rfl, found.symm⟩
  | cons row rows ih =>
    cases images with
    | nil => cases found
    | cons image images =>
      obtain ⟨first, later⟩ := cons.inj found
      obtain ⟨value, rfl, rfl⟩ := map_some_of_map change first
      obtain ⟨values, rfl, rfl⟩ := ih later
      exact ⟨value :: values, rfl, rfl⟩

end Values

end Ledger

end Champy
