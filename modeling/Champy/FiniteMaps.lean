import Mathlib.Algebra.BigOperators.Group.Multiset.Basic
import Mathlib.Data.Finmap
import Mathlib.Tactic.Abel

/-!
# Finite maps as functions, and sums over their values

Reading a `Finmap` by `lookup` turns insertion and erasure into updates of a
function.  `total` adds up a measure of the values, and changes by exactly the
values that are written or removed.

The file names nothing of any particular program.
-/

namespace Champy

open Function Finmap

abbrev FinMap (K V : Type) : Type := Finmap fun _ : K => V

namespace FinMap

variable {K V M : Type} [DecidableEq K]

theorem lookup_insert_eq_update (key : K) (value : V) (map : FinMap K V) :
    (fun other => (map.insert key value).lookup other) =
      update (fun other => map.lookup other) key (some value) := by
  funext other
  by_cases same : other = key
  · subst same
    rw [update_self, lookup_insert]
  · rw [update_of_ne same, lookup_insert_of_ne _ same]

theorem lookup_erase_eq_update (key : K) (map : FinMap K V) :
    (fun other => (map.erase key).lookup other) =
      update (fun other => map.lookup other) key none := by
  funext other
  by_cases same : other = key
  · subst same
    rw [update_self, lookup_erase]
  · rw [update_of_ne same, lookup_erase_ne same]

/-- Insert, unless the key is there already. -/
def emplace (map : FinMap K V) (key : K) (value : V) : FinMap K V :=
  match map.lookup key with
  | some _ => map
  | none => map.insert key value

theorem lookup_emplace (map : FinMap K V) (key : K) (value : V) (other : K) :
    (map.emplace key value).lookup other =
      (map.lookup other).or (if other = key then some value else none) := by
  unfold emplace
  cases held : map.lookup key with
  | some present =>
    by_cases same : other = key
    · rw [same, held]
      rfl
    · rw [if_neg same, Option.or_none]
  | none =>
    by_cases same : other = key
    · subst same
      rw [lookup_insert, held, if_pos rfl]
      rfl
    · rw [lookup_insert_of_ne _ same, if_neg same, Option.or_none]

section Loop

variable {β : Type} {key : β → K} {value : β → V}

theorem lookup_foldl_emplace_of_present {entries : List β} {map : FinMap K V} {other : K}
    {held : V} (present : map.lookup other = some held) :
    (entries.foldl (fun map entry => map.emplace (key entry) (value entry)) map).lookup other =
      some held := by
  induction entries generalizing map with
  | nil => exact present
  | cons entry entries ih =>
    apply ih
    rw [lookup_emplace, present, Option.some_or]

theorem lookup_foldl_emplace_of_mem {entries : List β} {map : FinMap K V} {entry : β}
    (nodup : (entries.map key).Nodup) (mem : entry ∈ entries)
    (absent : map.lookup (key entry) = none) :
    (entries.foldl (fun map entry => map.emplace (key entry) (value entry)) map).lookup
      (key entry) = some (value entry) := by
  induction entries generalizing map with
  | nil => cases mem
  | cons first entries ih =>
    rw [List.map_cons, List.nodup_cons] at nodup
    rcases List.mem_cons.mp mem with rfl | later
    · rw [List.foldl_cons]
      apply lookup_foldl_emplace_of_present
      rw [lookup_emplace, absent, if_pos rfl, Option.none_or]
    · have ne : key entry ≠ key first := by
        intro same
        exact nodup.1 (same ▸ List.mem_map_of_mem later)
      apply ih nodup.2 later
      rw [lookup_emplace, absent, if_neg ne, Option.none_or]

end Loop

theorem insert_erase (key : K) (value : V) (map : FinMap K V) :
    (map.erase key).insert key value = map.insert key value := by
  apply ext_lookup
  intro other
  by_cases same : other = key
  · subst same
    rw [lookup_insert, lookup_insert]
  · rw [lookup_insert_of_ne _ same, lookup_insert_of_ne _ same, lookup_erase_ne same]

variable {map : FinMap K V}

theorem erase_of_absent {key : K} (absent : map.lookup key = none) : map.erase key = map := by
  apply ext_lookup
  intro other
  by_cases same : other = key
  · subst same
    rw [lookup_erase, absent]
  · rw [lookup_erase_ne same]

theorem insert_lookup {key : K} {value : V} (found : map.lookup key = some value) :
    map.insert key value = map := by
  apply ext_lookup
  intro other
  by_cases same : other = key
  · subst same
    rw [lookup_insert, found]
  · rw [lookup_insert_of_ne _ same]

section Total

variable [AddCommMonoid M]

/-- The sum of a measure over the values of a finite map. -/
def total (measure : V → M) (map : FinMap K V) : M :=
  (map.entries.map fun entry => measure entry.2).sum

/-- The sum of a measure of the keys with their values. -/
def totalEntries (measure : K × V → M) (map : FinMap K V) : M :=
  (map.entries.map fun entry => measure (entry.1, entry.2)).sum

variable {map : FinMap K V} {value : V} {key : K}

theorem totalEntries_insert_of_notMem (measure : K × V → M) (absent : map.lookup key = none) :
    totalEntries measure (map.insert key value) =
      measure (key, value) + totalEntries measure map := by
  have notMem : key ∉ map := lookup_eq_none.mp absent
  rw [totalEntries, entries_insert_of_notMem notMem, Multiset.map_cons, Multiset.sum_cons]
  rfl

theorem totalEntries_erase_add (measure : K × V → M) (found : map.lookup key = some value) :
    measure (key, value) + totalEntries measure (map.erase key) = totalEntries measure map := by
  have absent : (map.erase key).lookup key = none := lookup_erase key map
  rw [← totalEntries_insert_of_notMem measure absent, insert_erase, insert_lookup found]

variable (measure : V → M)

theorem total_insert_of_notMem (absent : map.lookup key = none) :
    total measure (map.insert key value) = measure value + total measure map :=
  totalEntries_insert_of_notMem (fun entry => measure entry.2) absent

theorem total_erase_add (found : map.lookup key = some value) :
    measure value + total measure (map.erase key) = total measure map :=
  totalEntries_erase_add (fun entry => measure entry.2) found

theorem total_insert_add {old : V} (found : map.lookup key = some old) :
    measure old + total measure (map.insert key value) = measure value + total measure map := by
  have absent : (map.erase key).lookup key = none := lookup_erase key map
  rw [← insert_erase, total_insert_of_notMem measure absent, ← total_erase_add measure found]
  abel

end Total

theorem total_toNat_eq_length (holds : V → Bool) {keys : List K} (nodup : keys.Nodup)
    (members : ∀ key, key ∈ keys ↔ ∃ value, map.lookup key = some value ∧ holds value = true) :
    total (fun value => (holds value).toNat) map = keys.length := by
  induction keys generalizing map with
  | nil =>
    apply Multiset.sum_eq_zero
    intro amount mem
    obtain ⟨entry, entryMember, rfl⟩ := Multiset.mem_map.mp mem
    have found : map.lookup entry.1 = some entry.2 := lookup_eq_some_iff.mpr entryMember
    cases held : holds entry.2 with
    | false => simp [held]
    | true => exact absurd ((members entry.1).mpr ⟨entry.2, found, held⟩) (by simp)
  | cons first rest ih =>
    obtain ⟨firstNew, restNodup⟩ := List.nodup_cons.mp nodup
    obtain ⟨value, found, held⟩ := (members first).mp (by simp)
    have restMembers : ∀ key, key ∈ rest ↔
        ∃ value, (map.erase first).lookup key = some value ∧ holds value = true := by
      intro key
      by_cases same : key = first
      · rw [same, lookup_erase]
        simp [firstNew]
      · rw [lookup_erase_ne same, ← members, List.mem_cons, or_iff_right same]
    have counted := total_erase_add (fun value => (holds value).toNat) found
    rw [ih restNodup restMembers, held] at counted
    rw [← counted, List.length_cons, Bool.toNat_true, Nat.add_comm]

end FinMap

end Champy
