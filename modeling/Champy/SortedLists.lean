import Mathlib.Data.List.Basic
import Mathlib.Data.List.Nodup
import Mathlib.Data.List.Sort

/-!
# Repetitions in a sorted list

Sorting a list and looking for two equal neighbours finds a repetition exactly when
there is one.  The order only has to be total, transitive and antisymmetric.

The file names nothing of any particular program.
-/

namespace Champy

variable {α : Type} [DecidableEq α]

/-- Whether two neighbours are equal. -/
def hasEqualNeighbours : List α → Bool
  | first :: second :: rest => first == second || hasEqualNeighbours (second :: rest)
  | _ => false

theorem hasEqualNeighbours_eq_false_iff {le : α → α → Prop}
    (antisymm : ∀ first second, le first second → le second first → first = second)
    {values : List α} (sorted : values.Pairwise le) :
    hasEqualNeighbours values = false ↔ values.Nodup := by
  induction values with
  | nil => simp [hasEqualNeighbours]
  | cons first values ih =>
    obtain ⟨below, sortedRest⟩ := List.pairwise_cons.mp sorted
    have restEq := ih sortedRest
    cases values with
    | nil => simp [hasEqualNeighbours]
    | cons second rest =>
      rw [hasEqualNeighbours, Bool.or_eq_false_iff, restEq, List.nodup_cons (a := first),
        beq_eq_false_iff_ne]
      apply and_congr_left
      intro _
      constructor
      · intro ne mem
        rcases List.mem_cons.mp mem with eq | later
        · exact ne eq
        · -- a later copy of `first` would be below and above `second`
          have above := (List.pairwise_cons.mp sortedRest).1 first later
          exact ne (antisymm first second (below second List.mem_cons_self) above)
      · intro notMember eq
        exact notMember (eq ▸ List.mem_cons_self)

theorem hasEqualNeighbours_mergeSort {le : α → α → Bool}
    (trans : ∀ first second third, le first second → le second third → le first third)
    (total : ∀ first second, (le first second || le second first) = true)
    (antisymm : ∀ first second, le first second → le second first → first = second)
    (values : List α) :
    hasEqualNeighbours (values.mergeSort le) = false ↔ values.Nodup := by
  have sorted : (values.mergeSort le).Pairwise fun first second => le first second = true :=
    List.pairwise_mergeSort trans total values
  rw [hasEqualNeighbours_eq_false_iff antisymm sorted]
  exact (List.mergeSort_perm values le).nodup_iff

end Champy
