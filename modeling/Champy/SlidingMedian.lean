import Mathlib.Data.List.Sort
import Mathlib.Order.Basic
import Mathlib.Tactic.Common

/-!
# Medians of a sliding window

The median of a list is the entry in the middle after sorting, the later one of two.  A bound
is below the median exactly when it is below enough entries.  When a window of the last
entries moves on to an entry above its median, the median does not fall.

The file names nothing of any particular program.
-/

namespace Champy

open List

variable {α : Type} [LinearOrder α]

def median (fallback : α) (values : List α) : α :=
  (values.mergeSort fun first second => decide (first ≤ second)).getD (values.length / 2) fallback

variable {values : List α}

/-- In a list in order, the entries from a position on are those at least as large. -/
theorem le_getD_iff_of_sorted (sorted : values.Pairwise (· ≤ ·)) {pos : Nat}
    (inside : pos < values.length) (fallback bound : α) :
    bound ≤ values.getD pos fallback ↔
      values.length - pos ≤ values.countP fun value => decide (bound ≤ value) := by
  induction values generalizing pos with
  | nil => exact absurd inside (Nat.not_lt_zero pos)
  | cons value values ih =>
    obtain ⟨below, sortedRest⟩ := pairwise_cons.mp sorted
    have restBound : values.countP (fun value => decide (bound ≤ value)) ≤ values.length :=
      countP_le_length
    have allAbove : bound ≤ value →
        values.countP (fun value => decide (bound ≤ value)) = values.length := by
      intro above
      rw [countP_eq_length]
      intro other mem
      exact decide_eq_true (le_trans above (below other mem))
    rw [countP_cons, length_cons]
    cases pos with
    | zero =>
      rw [getD_cons_zero]
      by_cases above : bound ≤ value
      · rw [if_pos (decide_eq_true above), allAbove above]
        exact iff_of_true above (by omega)
      · rw [if_neg (by simpa using above)]
        exact iff_of_false above (by omega)
    | succ pos =>
      have insideRest : pos < values.length := by
        rw [length_cons] at inside
        omega
      rw [getD_cons_succ, ih sortedRest insideRest]
      by_cases above : bound ≤ value
      · rw [if_pos (decide_eq_true above), allAbove above]
        omega
      · rw [if_neg (by simpa using above)]
        omega

theorem le_median_iff (ne : values ≠ []) (fallback bound : α) : bound ≤ median fallback values ↔
      values.length - values.length / 2 ≤ values.countP fun value => decide (bound ≤ value) := by
  have sorted : (values.mergeSort fun first second => decide (first ≤ second)).Pairwise (· ≤ ·) := by
    have pairwise := @pairwise_mergeSort α (fun first second => decide (first ≤ second))
      (fun first second third firstLe secondLe =>
        decide_eq_true (le_trans (of_decide_eq_true firstLe) (of_decide_eq_true secondLe)))
      (fun first second => by simpa using le_total first second) values
    exact pairwise.imp of_decide_eq_true
  have reordered := mergeSort_perm values fun first second => decide (first ≤ second)
  have pos : 0 < values.length := length_pos_iff.mpr ne
  rw [median, le_getD_iff_of_sorted sorted (by rw [reordered.length_eq]; omega),
    reordered.length_eq, reordered.countP_eq]

/-- The median of the last `width` entries does not fall when an entry above it comes. -/
theorem median_le_median_cons_take {width : Nat} {fallback newest : α}
    (ne : values ≠ []) (narrow : values.length ≤ width)
    (later : median fallback values < newest) :
    median fallback values ≤ median fallback (newest :: values.take (width - 1)) := by
  have half := (le_median_iff ne fallback (median fallback values)).mp le_rfl
  have pos : 0 < values.length := length_pos_iff.mpr ne
  have split : values.countP (fun value => decide (median fallback values ≤ value)) =
      (values.take (width - 1)).countP (fun value => decide (median fallback values ≤ value)) +
        (values.drop (width - 1)).countP (fun value => decide (median fallback values ≤ value)) := by
    rw [← countP_append, take_append_drop]
  have dropped : (values.drop (width - 1)).countP
      (fun value => decide (median fallback values ≤ value)) ≤ values.length - (width - 1) := by
    rw [← length_drop]
    exact countP_le_length
  rw [le_median_iff (cons_ne_nil _ _), countP_cons, if_pos (decide_eq_true later.le),
    length_cons, length_take]
  omega

end Champy
