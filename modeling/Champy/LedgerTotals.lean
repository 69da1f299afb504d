import Champy.FiniteMaps
import Champy.Ledger

/-!
# Totals of a finite ledger

A finite map is a ledger, and transfers act on it by erasing and inserting.  While every
transfer finds what it spends and fills only free keys, the total of a measure over the map
moves by the measure of what is created less the measure of what is spent.

The file names nothing of any particular program.
-/

namespace Champy

open List Ledger

namespace FinMap

variable {K V M : Type} [DecidableEq K] (map : FinMap K V)

/-- A finite map, read as a ledger. -/
def toLedger : Ledger K V :=
  fun key => map.lookup key

/-- The map after a transfer, whether or not it was admitted. -/
def afterTransfer (transfer : Transfer K V) : FinMap K V :=
  transfer.creates.foldl (fun map entry => map.insert entry.1 entry.2)
    (transfer.spends.foldl (fun map key => map.erase key) map)

def afterTransfers (transfers : List (Transfer K V)) : FinMap K V :=
  transfers.foldl afterTransfer map

theorem toLedger_erase (key : K) (map : FinMap K V) :
    toLedger (map.erase key) = Function.update map.toLedger key none :=
  lookup_erase_eq_update key map

theorem toLedger_insert (key : K) (value : V) (map : FinMap K V) :
    toLedger (map.insert key value) = Function.update map.toLedger key (some value) :=
  lookup_insert_eq_update key value map

theorem toLedger_foldl_erase (keys : List K) (map : FinMap K V) :
    (keys.foldl (fun map key => map.erase key) map).toLedger = map.toLedger.without keys := by
  induction keys generalizing map with
  | nil => exact (without_nil _).symm
  | cons key keys ih =>
    rw [foldl_cons, ih, toLedger_erase]
    exact without_update _ key keys

theorem toLedger_foldl_insert (created : List (K × V)) (map : FinMap K V) :
    (created.foldl (fun map entry => map.insert entry.1 entry.2) map).toLedger =
      map.toLedger.adding created := by
  induction created generalizing map with
  | nil => rfl
  | cons entry created ih =>
    rw [foldl_cons, ih, toLedger_insert]
    rfl

theorem toLedger_afterTransfer (transfer : Transfer K V) :
    (map.afterTransfer transfer).toLedger = map.toLedger.after transfer := by
  rw [afterTransfer, toLedger_foldl_insert, toLedger_foldl_erase]
  rfl

theorem toLedger_afterTransfers (transfers : List (Transfer K V)) :
    (map.afterTransfers transfers).toLedger = map.toLedger.afterAll transfers := by
  induction transfers generalizing map with
  | nil => rfl
  | cons transfer transfers ih =>
    have later := ih (map.afterTransfer transfer)
    rw [toLedger_afterTransfer] at later
    exact later

section Totals

variable [AddCommMonoid M] (measure : K × V → M) {map : FinMap K V}

theorem totalEntries_of_take {keys : List K} {values : List V} {rest : Ledger K V}
    (taken : map.toLedger.take keys = some (values, rest)) :
    ((keys.zip values).map measure).sum +
        totalEntries measure (keys.foldl (fun map key => map.erase key) map) =
      totalEntries measure map := by
  induction keys generalizing map values with
  | nil =>
    cases taken
    exact zero_add _
  | cons key keys ih =>
    rw [Ledger.take] at taken
    cases found : map.toLedger key with
    | none =>
      simp only [found] at taken
      cases taken
    | some value =>
      simp only [found] at taken
      obtain ⟨res, takenRest, same⟩ := Option.map_eq_some_iff.mp taken
      cases same
      rw [← toLedger_erase] at takenRest
      rw [zip_cons_cons, map_cons, sum_cons, foldl_cons, add_assoc,
        ih takenRest, totalEntries_erase_add measure found]

theorem totalEntries_of_put {created : List (K × V)} {rest : Ledger K V}
    (filled : map.toLedger.put created = some rest) :
    totalEntries measure (created.foldl (fun map entry => map.insert entry.1 entry.2) map) =
      (created.map measure).sum + totalEntries measure map := by
  induction created generalizing map with
  | nil => exact (zero_add _).symm
  | cons entry created ih =>
    rw [put] at filled
    cases found : map.toLedger entry.1 with
    | some value =>
      simp only [found] at filled
      cases filled
    | none =>
      simp only [found] at filled
      rw [← toLedger_insert] at filled
      rw [foldl_cons, ih filled, totalEntries_insert_of_notMem measure found, map_cons, sum_cons]
      abel

theorem totalEntries_of_apply {transfer : Transfer K V} {values : List V} {next : Ledger K V}
    (applied : map.toLedger.apply transfer = some (values, next)) :
    next = (map.afterTransfer transfer).toLedger ∧ ((transfer.spends.zip values).map measure).sum +
          totalEntries measure (map.afterTransfer transfer) =
        (transfer.creates.map measure).sum + totalEntries measure map := by
  obtain ⟨⟨found, spent⟩, takes, puts⟩ := Option.bind_eq_some_iff.mp applied
  obtain ⟨filled, puts, same⟩ := Option.map_eq_some_iff.mp puts
  cases same
  have spentEq : spent = toLedger (transfer.spends.foldl (fun map key => map.erase key) map) := by
    rw [toLedger_foldl_erase]
    exact (take_eq_some.mp takes).2.2
  rw [spentEq] at puts
  constructor
  · rw [afterTransfer, toLedger_foldl_insert]
    exact (put_eq_some.mp puts).2.2
  · rw [afterTransfer, totalEntries_of_put measure puts, ← totalEntries_of_take measure takes]
    abel

theorem totalEntries_of_run {transfers : List (Transfer K V)} {taken : List (List V)}
    {final : Ledger K V} (ran : map.toLedger.run transfers = some (taken, final)) :
    (((transfers.zip taken).flatMap fun row => row.1.spends.zip row.2).map measure).sum +
        totalEntries measure (map.afterTransfers transfers) =
      ((created transfers).map measure).sum + totalEntries measure map := by
  induction transfers generalizing map taken with
  | nil =>
    cases ran
    rfl
  | cons transfer transfers ih =>
    obtain ⟨values, middle, later, applied, ranLater, rfl⟩ := run_cons_eq_some.mp ran
    obtain ⟨rfl, stepTotal⟩ := totalEntries_of_apply measure applied
    have restTotal := ih ranLater
    rw [zip_cons_cons, flatMap_cons, map_append, sum_append, created,
      flatMap_cons, map_append, sum_append, add_assoc]
    calc
      _ = ((transfer.spends.zip values).map measure).sum + (((created transfers).map measure).sum +
            totalEntries measure (map.afterTransfer transfer)) := by
        rw [← restTotal]
        rfl
      _ = ((created transfers).map measure).sum +
          ((transfer.creates.map measure).sum + totalEntries measure map) := by
        rw [← stepTotal]
        abel
      _ = _ := by
        rw [created]
        abel

end Totals

end FinMap

end Champy
