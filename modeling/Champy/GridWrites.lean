import Mathlib.Data.List.Basic
import Mathlib.Data.List.Indexes
import Mathlib.Tactic.Common

/-!
# Writes into nested lists

A list of rows, or a list of such lists, is filled by writes at given places, in
any order and possibly with places written more than once.  If every write agrees
with one function of the place, the result is read off from that function: it
holds at every place that was written, and the other places keep what they had.
-/

namespace Champy

open List

section Rows

variable {α β : Type}

theorem modify_eq_mapIdx (row : List α) (place : Nat) (change : α → α) : row.modify place change =
      row.mapIdx fun index old => if index = place then change old else old := by
  apply ext_getElem?
  intro index
  rw [getElem?_modify, getElem?_mapIdx]
  by_cases same : index = place
  · simp [same]
  · simp [same, Ne.symm same]

theorem set_eq_mapIdx (row : List α) (place : Nat) (value : α) :
    row.set place value = row.mapIdx fun index old => if index = place then value else old := by
  rw [set_eq_modify, modify_eq_mapIdx]

variable {row : List α}

theorem mapIdx_congr {first second : Nat → α → β}
    (same : ∀ index value, row[index]? = some value → first index value = second index value) :
    row.mapIdx first = row.mapIdx second := by
  apply ext_getElem?
  intro index
  rw [getElem?_mapIdx, getElem?_mapIdx]
  cases found : row[index]? with
  | none => rfl
  | some value => rw [Option.map_some, Option.map_some, same index value found]

theorem mapIdx_eq_self {change : Nat → α → α}
    (same : ∀ index value, change index value = value) : row.mapIdx change = row := by
  apply ext_getElem?
  intro index
  rw [getElem?_mapIdx]
  cases row[index]? with
  | none => rfl
  | some value => rw [Option.map_some, same]

theorem mapIdx_eq_map {change : Nat → α → β} {same : α → β}
    (agree : ∀ index value, change index value = same value) : row.mapIdx change = row.map same := by
  apply ext_getElem?
  intro index
  rw [getElem?_mapIdx, getElem?_map]
  cases row[index]? with
  | none => rfl
  | some value => rw [Option.map_some, Option.map_some, agree]

theorem mapIdx_eq_map_of_length {γ : Type} {change : Nat → α → γ} {read : β → γ}
    {other : List β} (length : row.length = other.length)
    (agree : ∀ index value entry, row[index]? = some value → other[index]? = some entry →
      change index value = read entry) :
    row.mapIdx change = other.map read := by
  apply ext_getElem?
  intro index
  rw [getElem?_mapIdx, getElem?_map]
  cases found : row[index]? with
  | none =>
    rw [List.getElem?_eq_none_iff, length] at found
    rw [List.getElem?_eq_none_iff.mpr found]
    rfl
  | some value =>
    have bound := (List.getElem?_eq_some_iff.mp found).1
    rw [length] at bound
    have entryFound := getElem?_eq_getElem bound
    rw [entryFound, Option.map_some, Option.map_some, agree index value _ found entryFound]

theorem mapIdx_map {γ : Type} (change : α → β) (next : Nat → β → γ) (row : List α) :
    (row.map change).mapIdx next = row.mapIdx fun index value => next index (change value) := by
  apply ext_getElem?
  intro index
  rw [getElem?_mapIdx, getElem?_mapIdx, getElem?_map, Option.map_map]
  rfl

theorem zip_map_self (entries : List α) (answer : α → β) :
    entries.zip (entries.map answer) = entries.map fun entry => (entry, answer entry) := by
  have zipped : (entries.map id).zip (entries.map answer) = _ := zip_map'
  rwa [map_id] at zipped

theorem map_zip_self (entries : List α) (answer : α → β) :
    (entries.map answer).zip entries = entries.map fun entry => (answer entry, entry) := by
  have zipped : (entries.map answer).zip (entries.map id) = _ := zip_map'
  rwa [map_id] at zipped

end Rows

/-- Cells of type `α` at places `P` of a container, with writes to single cells and
writes to many cells at once that take their values from a function. -/
structure CellAccess (G P α : Type) where
  write : G → P → α → G
  fill : (P → α) → (P → Prop) → G → G
  fill_none : ∀ values grid, fill values (fun _ => False) grid = grid
  write_eq_fill : ∀ values grid place,
    write grid place (values place) = fill values (fun other => other = place) grid
  fill_fill : ∀ values first second grid,
    fill values second (fill values first grid) =
      fill values (fun place => first place ∨ second place) grid

namespace CellAccess

variable {G P α β : Type}

open Classical in
/-- The cells of one row. -/
noncomputable def row : CellAccess (List α) Nat α where
  write columns place value := columns.set place value
  fill values written columns := columns.mapIdx fun column old =>
    if written column then values column else old
  fill_none := by
    intro values columns
    exact mapIdx_eq_self fun _ _ => if_neg not_false
  write_eq_fill := by
    intro values columns place
    rw [set_eq_mapIdx]
    apply mapIdx_congr
    intro column old _
    by_cases same : column = place <;> simp [same]
  fill_fill := by
    intro values first second columns
    rw [mapIdx_mapIdx]
    apply mapIdx_congr
    intro column old _
    by_cases inFirst : first column <;> by_cases inSecond : second column <;>
      simp [inFirst, inSecond]

/-- The cells of a list of containers. -/
def rows (inner : CellAccess G P α) : CellAccess (List G) (Nat × P) α where
  write grid place value := grid.modify place.1 fun old => inner.write old place.2 value
  fill values written grid := grid.mapIdx fun index old =>
    inner.fill (fun place => values (index, place)) (fun place => written (index, place)) old
  fill_none := by
    intro values grid
    exact mapIdx_eq_self fun _ _ => inner.fill_none _ _
  write_eq_fill := by
    intro values grid place
    rw [modify_eq_mapIdx]
    apply mapIdx_congr
    intro index old _
    by_cases same : index = place.1
    · subst same
      rw [if_pos rfl, inner.write_eq_fill fun other => values (place.1, other)]
      congr 1
      funext other
      simp [Prod.ext_iff]
    · rw [if_neg same]
      refine (inner.fill_none (fun other => values (index, other)) old).symm.trans ?_
      congr 1
      funext other
      simp [Prod.ext_iff, same]
  fill_fill := by
    intro values first second grid
    rw [mapIdx_mapIdx]
    apply mapIdx_congr
    intro index old _
    exact inner.fill_fill _ _ _ _

theorem foldl_write (access : CellAccess G P α) {values : P → α} (writes : List β) (place : β → P)
    (value : β → α) (agree : ∀ entry ∈ writes, value entry = values (place entry)) (grid : G) :
    writes.foldl (fun grid entry => access.write grid (place entry) (value entry)) grid =
      access.fill values (fun other => other ∈ writes.map place) grid := by
  induction writes generalizing grid with
  | nil =>
    refine (access.fill_none values grid).symm.trans ?_
    congr 1
    funext other
    simp
  | cons entry writes ih =>
    rw [forall_mem_cons] at agree
    rw [foldl_cons, ih agree.2, agree.1, access.write_eq_fill, access.fill_fill]
    congr 1
    funext other
    rw [map_cons, mem_cons]

end CellAccess

end Champy
