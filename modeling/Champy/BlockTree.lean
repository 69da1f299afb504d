import Champy.SlidingMedian
import Mathlib.Data.Option.Basic
import Mathlib.Tactic.Ring

/-!
# Block trees

The block index as a tree.  A block points to its parent and keeps its own height, an `int`.
`GetAncestor` walks back along parents; the skip pointers only make that walk shorter.
-/

namespace Champy

structure BlockTree (Block : Type) where
  pprev : Block → Option Block
  nHeight : Block → Nat
  nTime : Block → UInt32
  nHeight_of_genesis : ∀ {block}, pprev block = none → nHeight block = 0
  nHeight_of_pprev : ∀ {block parent}, pprev block = some parent →
    nHeight block = nHeight parent + 1
  nHeight_lt : ∀ block, nHeight block < 2 ^ 31

namespace BlockTree

variable {Block : Type} (tree : BlockTree Block)

/-- The block that many parents back. -/
def walkBack : Nat → Block → Option Block
  | 0, block => some block
  | steps + 1, block => (tree.pprev block).bind (walkBack steps)

def getAncestor (block : Block) (height : Int) : Option Block :=
  if height > tree.nHeight block ∨ height < 0 then none
  else tree.walkBack (tree.nHeight block - height.toNat) block

def getBlockTime (block : Block) : Int :=
  (tree.nTime block).toNat

/-- The times of a block and its ancestors, as many as asked for. -/
def blockTimes : Nat → Option Block → List Int
  | 0, _ => []
  | _ + 1, none => []
  | count + 1, some block => tree.getBlockTime block :: blockTimes count (tree.pprev block)

def medianTimeSpan : Nat := 11

def getMedianTimePast (block : Block) : Int :=
  median 0 (tree.blockTimes medianTimeSpan (some block))

/-- Every block is later than the median time of its parent. -/
def TimesAdvance : Prop :=
  ∀ block parent, tree.pprev block = some parent →
    tree.getMedianTimePast parent < tree.getBlockTime block

/-- Walks along parents end. -/
theorem pprev_elim_lt (block : Block) :
    (tree.pprev block).elim 0 (tree.nHeight · + 1) < tree.nHeight block + 1 := by
  cases parentEq : tree.pprev block with
  | none => exact Nat.succ_pos _
  | some parent => exact Nat.succ_lt_succ (tree.nHeight_of_pprev parentEq ▸ Nat.lt_succ_self _)

variable {tree} {block ancestor : Block}

/-! ## Ancestors -/

theorem walkBack_spec {steps : Nat} (within : steps ≤ tree.nHeight block) :
    ∃ ancestor, tree.walkBack steps block = some ancestor ∧
      tree.nHeight ancestor + steps = tree.nHeight block := by
  induction steps generalizing block with
  | zero => exact ⟨block, rfl, rfl⟩
  | succ steps ih =>
    cases parentEq : tree.pprev block with
    | none =>
      rw [tree.nHeight_of_genesis parentEq] at within
      omega
    | some parent =>
      have height := tree.nHeight_of_pprev parentEq
      have withinParent : steps ≤ tree.nHeight parent := by omega
      obtain ⟨ancestor, walked, sum⟩ := ih withinParent
      refine ⟨ancestor, ?_, by omega⟩
      rw [walkBack, parentEq, Option.bind_some, walked]

theorem walkBack_add (first second : Nat) (block : Block) : tree.walkBack (first + second) block =
      (tree.walkBack first block).bind (tree.walkBack second) := by
  induction first generalizing block with
  | zero => rw [Nat.zero_add, walkBack, Option.bind_some]
  | succ first ih =>
    rw [Nat.add_right_comm, walkBack, walkBack]
    cases tree.pprev block with
    | none => rfl
    | some parent => exact ih parent

theorem exists_getAncestor {height : Nat} (within : height ≤ tree.nHeight block) :
    ∃ ancestor, tree.getAncestor block height = some ancestor ∧ tree.nHeight ancestor = height := by
  obtain ⟨ancestor, walked, sum⟩ := walkBack_spec (Nat.sub_le (tree.nHeight block) height)
  refine ⟨ancestor, ?_, by omega⟩
  rw [getAncestor, if_neg (by omega), Int.toNat_natCast, walked]

variable {height : Int}

theorem nHeight_getAncestor (found : tree.getAncestor block height = some ancestor) :
    0 ≤ height ∧ (tree.nHeight ancestor : Int) = height ∧
      tree.nHeight ancestor ≤ tree.nHeight block := by
  rw [getAncestor] at found
  split at found
  · cases found
  next inRange =>
    obtain ⟨ancestor', walked, sum⟩ := walkBack_spec (Nat.sub_le (tree.nHeight block) height.toNat)
    rw [found] at walked
    cases walked
    omega

theorem getAncestor_self (block : Block) :
    tree.getAncestor block (tree.nHeight block : Nat) = some block := by
  rw [getAncestor, if_neg (by omega), Int.toNat_natCast, Nat.sub_self, walkBack]

theorem getAncestor_of_neg (negative : height < 0) : tree.getAncestor block height = none := by
  rw [getAncestor, if_pos (.inr negative)]

theorem getAncestor_getAncestor {height lower : Int}
    (found : tree.getAncestor block height = some ancestor) (below : lower ≤ height) :
    tree.getAncestor ancestor lower = tree.getAncestor block lower := by
  obtain ⟨nonneg, ancestorHeight, atMost⟩ := nHeight_getAncestor found
  rw [getAncestor] at found
  split at found
  · cases found
  next inRange =>
    by_cases negative : lower < 0
    · rw [getAncestor_of_neg negative, getAncestor_of_neg negative]
    · have steps : tree.nHeight block - lower.toNat =
          (tree.nHeight block - height.toNat) + (tree.nHeight ancestor - lower.toNat) := by omega
      rw [getAncestor, if_neg (by omega), getAncestor, if_neg (by omega), steps, walkBack_add,
        found, Option.bind_some]

theorem pprev_of_getAncestor (found : tree.getAncestor block height = some ancestor) :
    tree.pprev ancestor = tree.getAncestor block (height - 1) := by
  obtain ⟨-, heightEq, -⟩ := nHeight_getAncestor found
  rw [← getAncestor_getAncestor found (by omega)]
  cases parentEq : tree.pprev ancestor with
  | none =>
    have genesis := tree.nHeight_of_genesis parentEq
    rw [getAncestor_of_neg (by omega)]
  | some parent =>
    have above := tree.nHeight_of_pprev parentEq
    have one : tree.nHeight ancestor - (height - 1).toNat = 0 + 1 := by omega
    rw [getAncestor, if_neg (by omega), one, walkBack, parentEq]
    rfl

/-! ## Median times -/

theorem blockTimes_take (count : Nat) (block : Option Block) :
    (tree.blockTimes (count + 1) block).take count = tree.blockTimes count block := by
  induction count generalizing block with
  | zero => rw [List.take_zero, blockTimes]
  | succ count ih =>
    cases block with
    | none => rfl
    | some block => rw [blockTimes, List.take_succ_cons, ih, blockTimes]

theorem length_blockTimes_le (count : Nat) (block : Option Block) :
    (tree.blockTimes count block).length ≤ count := by
  induction count generalizing block with
  | zero => exact le_rfl
  | succ count ih =>
    cases block with
    | none => exact Nat.zero_le _
    | some block => exact Nat.succ_le_succ (ih _)

theorem getMedianTimePast_le_of_pprev (advance : tree.TimesAdvance) {parent : Block}
    (parentEq : tree.pprev block = some parent) :
    tree.getMedianTimePast parent ≤ tree.getMedianTimePast block := by
  have window : tree.blockTimes medianTimeSpan (some block) = tree.getBlockTime block ::
        (tree.blockTimes medianTimeSpan (some parent)).take (medianTimeSpan - 1) := by
    rw [medianTimeSpan, blockTimes_take, blockTimes, parentEq]
  rw [getMedianTimePast, getMedianTimePast, window]
  exact median_le_median_cons_take (List.cons_ne_nil _ _) (length_blockTimes_le _ _)
    (advance block parent parentEq)

theorem getMedianTimePast_le_of_walkBack (advance : tree.TimesAdvance) {steps : Nat}
    (walked : tree.walkBack steps block = some ancestor) :
    tree.getMedianTimePast ancestor ≤ tree.getMedianTimePast block := by
  induction steps generalizing block with
  | zero =>
    cases walked
    exact le_rfl
  | succ steps ih =>
    rw [walkBack] at walked
    obtain ⟨parent, parentEq, walked⟩ := Option.bind_eq_some_iff.mp walked
    exact le_trans (ih walked) (getMedianTimePast_le_of_pprev advance parentEq)

theorem getMedianTimePast_le_of_getAncestor (advance : tree.TimesAdvance)
    (found : tree.getAncestor block height = some ancestor) :
    tree.getMedianTimePast ancestor ≤ tree.getMedianTimePast block := by
  rw [getAncestor] at found
  split at found
  · cases found
  · exact getMedianTimePast_le_of_walkBack advance found

end BlockTree

end Champy
