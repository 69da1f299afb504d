import Champy.PartialMerkleExtraction

/-!
# Merkle paths

`MerkleComputation` reads the leaves once and keeps at most one hash for each level: those of the
largest complete subtrees of the leaves so far, one for each bit of their number.  A final sweep
joins them on the right edge of the tree.  Along the way it collects the siblings of the nodes
above one leaf.

Both phases move a node up the tree.  With the node at some level and position, the complete
subtrees to its left are the bits of the position.
-/

namespace Champy

open List Function

section Definitions

variable (hashPair : HashPair)

/-- The variables of a climb: a node, whether it is above the leaf, and its level. -/
structure MerkleWalk where
  h : Uint256
  matchh : Bool
  level : Nat
  path : List Uint256

/-- The loops over bits of `count` that are zero.  There are 32 inner hashes. -/
def climb (inner : Nat → Uint256) (matchlevel : Option Nat) (count : Nat) :
    (rounds : Nat) → MerkleWalk → Exec Empty MerkleWalk
  | 0, _ => Exec.abort .logicError
  | rounds + 1, walk =>
    if count.testBit walk.level then pure walk
    else climb inner matchlevel count rounds
      { h := hashPair (inner walk.level) walk.h
        matchh := walk.matchh || matchlevel == some walk.level
        level := walk.level + 1
        path :=
          if walk.matchh then walk.path ++ [inner walk.level]
          else if matchlevel = some walk.level then walk.path ++ [walk.h]
          else walk.path }

/-- The variables between two leaves.  No match is `matchlevel = -1`. -/
structure MerkleState where
  count : Nat := 0
  inner : Nat → Uint256 := fun _ => 0
  matchlevel : Option Nat := none
  path : List Uint256 := []

def addLeaf (leafPos : Nat) (state : MerkleState) (leaf : Uint256) : Exec Empty MerkleState := do
  let count := (state.count + 1) % 2 ^ 32
  let walk ← climb hashPair state.inner state.matchlevel count 32
    ⟨leaf, state.count == leafPos, 0, state.path⟩
  pure
    { count := count
      inner := update state.inner walk.level walk.h
      matchlevel := if walk.matchh then some walk.level else state.matchlevel
      path := walk.path }

/-- The first level with a bit of `count`. -/
def skipZeros (count : Nat) : (rounds level : Nat) → Exec Empty Nat
  | 0, _ => Exec.abort .logicError
  | rounds + 1, level =>
    if count.testBit level then pure level else skipZeros count rounds (level + 1)

/-- The sweep over the right edge, where a node without a sibling is combined with itself. -/
def sweep (inner : Nat → Uint256) (matchlevel : Option Nat) :
    (rounds count : Nat) → MerkleWalk → Exec Empty MerkleWalk
  | 0, _, _ => Exec.abort .logicError
  | rounds + 1, count, walk =>
    if count = 2 ^ walk.level then pure walk
    else do
      let next := (count + 2 ^ walk.level) % 2 ^ 32
      let walk ← climb hashPair inner matchlevel next (31 - walk.level)
        { h := hashPair walk.h walk.h
          matchh := walk.matchh
          level := walk.level + 1
          path := if walk.matchh then walk.path ++ [walk.h] else walk.path }
      sweep inner matchlevel rounds next walk

def merkleComputation (leaves : List Uint256) (leafPos : Nat) : Exec Empty (List Uint256) := do
  Exec.assertThat (leaves.length ≤ 2 ^ 32 - 1)
  if leaves.isEmpty then pure []
  else do
    let state ← leaves.foldlM (addLeaf hashPair leafPos) {}
    let level ← skipZeros state.count 32 0
    let walk ← sweep hashPair state.inner state.matchlevel 32 state.count
      ⟨state.inner level, state.matchlevel == some level, level, state.path⟩
    pure walk.path

def transactionMerklePath (transactions : List CTransaction) (position : UInt32) :
    Exec Empty (List Uint256) :=
  merkleComputation hashPair (transactions.map CTransaction.hash) position.toNat

/-- From a leaf up along a path, to the left or to the right by the bits of the position. -/
def foldMerklePath : Nat → Uint256 → List Uint256 → Uint256
  | _, h, [] => h
  | position, h, sibling :: path =>
    foldMerklePath (position / 2)
      (if position % 2 = 1 then hashPair sibling h else hashPair h sibling) path

end Definitions

/-! ## Siblings -/

section Paths

variable {hashPair : HashPair} {leaves : List Uint256} {leafPos : Nat}

variable (hashPair leaves leafPos) in
/-- What a node above the leaf is combined with: the last node of an odd level with itself. -/
def siblingHash (level : Nat) : Uint256 :=
  if leafPos / 2 ^ level % 2 = 1 then calcHash hashPair leaves level (leafPos / 2 ^ level - 1)
  else if leafPos / 2 ^ level + 1 < calcTreeWidth leaves.length level then
    calcHash hashPair leaves level (leafPos / 2 ^ level + 1)
  else calcHash hashPair leaves level (leafPos / 2 ^ level)

variable (hashPair leaves leafPos) in
def siblings (level : Nat) : List Uint256 :=
  (range level).map (siblingHash hashPair leaves leafPos)

theorem siblings_succ (leafPos level : Nat) : siblings hashPair leaves leafPos (level + 1) =
      siblings hashPair leaves leafPos level ++ [siblingHash hashPair leaves leafPos level] := by
  rw [siblings, range_succ, map_append]
  rfl

open Nat

theorem foldMerklePath_concat (pos : Nat) (h sibling : Uint256) (path : List Uint256) :
    foldMerklePath hashPair pos h (path ++ [sibling]) =
      if pos / 2 ^ path.length % 2 = 1 then
        hashPair sibling (foldMerklePath hashPair pos h path)
      else hashPair (foldMerklePath hashPair pos h path) sibling := by
  induction path generalizing pos h with
  | nil => simp [foldMerklePath]
  | cons first path ih =>
    rw [cons_append, foldMerklePath, ih, foldMerklePath, length_cons, Nat.pow_succ',
      Nat.div_div_eq_div_mul]

variable {walk : MerkleWalk} {state : MerkleState} {rounds count : Nat}

theorem div_lt_calcTreeWidth (inside : leafPos < count) (level : Nat) :
    leafPos / 2 ^ level < calcTreeWidth count level := by
  have pos := Nat.two_pow_pos level
  rw [calcTreeWidth, lt_iff_add_one_le, ← add_div_right _ pos]
  exact Nat.div_le_div_right (by omega)

theorem foldMerklePath_siblings (inside : leafPos < leaves.length) (level : Nat) :
    foldMerklePath hashPair leafPos (leaves.getD leafPos 0)
        (siblings hashPair leaves leafPos level) =
      calcHash hashPair leaves level (leafPos / 2 ^ level) := by
  induction level with
  | zero => simp [siblings, foldMerklePath, calcHash]
  | succ level ih =>
    have above : leafPos / 2 ^ (level + 1) = leafPos / 2 ^ level / 2 := by
      rw [Nat.pow_succ, Nat.div_div_eq_div_mul]
    have length : (siblings hashPair leaves leafPos level).length = level := by simp [siblings]
    have within := div_lt_calcTreeWidth inside level
    rw [siblings_succ, foldMerklePath_concat, ih, length, calcHash, above, siblingHash]
    generalize leafPos / 2 ^ level = place at within
    by_cases odd : place % 2 = 1
    · have left : place / 2 * 2 = place - 1 := by omega
      have right : place - 1 + 1 = place := by omega
      rw [if_pos odd, if_pos odd, left, right, if_pos within]
    · have left : place / 2 * 2 = place := by omega
      rw [if_neg odd, if_neg odd, left]

/-! ## One climb -/

section Invariants

variable (hashPair leaves)

/-- The inner hashes to the left of a node: one complete subtree for each bit of its position. -/
def Frontier (inner : Nat → Uint256) (level place : Nat) : Prop :=
  ∀ above, place.testBit above = true →
    inner (level + above) = calcHash hashPair leaves (level + above) (place / 2 ^ above - 1)

/-- Where the leaf is: below the node, below a subtree to its left, or further right. -/
inductive Tracked (leafPos : Nat) (matchlevel : Option Nat) (level place : Nat) :
    Bool → List Uint256 → Prop
  | below (under : leafPos / 2 ^ level = place) :
      Tracked leafPos matchlevel level place true (siblings hashPair leaves leafPos level)
  | left {above : Nat} (found : matchlevel = some (level + above))
      (bit : place.testBit above = true) (under : leafPos / 2 ^ (level + above) = place / 2 ^ above - 1) :
      Tracked leafPos matchlevel level place false
        (siblings hashPair leaves leafPos (level + above))
  | right (later : (place + 1) * 2 ^ level ≤ leafPos) (unmatched : matchlevel = none) :
      Tracked leafPos matchlevel level place false []

/-- A node of the tree on its way up, with everything to its left. -/
structure Climbing (leafPos : Nat) (inner : Nat → Uint256) (matchlevel : Option Nat) (place : Nat)
    (walk : MerkleWalk) : Prop where
  inside : place < calcTreeWidth leaves.length walk.level
  hash : walk.h = calcHash hashPair leaves walk.level place
  frontier : Frontier hashPair leaves inner walk.level place
  tracked : Tracked hashPair leaves leafPos matchlevel walk.level place walk.matchh walk.path
  notAbove : walk.level ≤ treeHeight leaves.length 0

end Invariants

variable {inner : Nat → Uint256} {matchlevel : Option Nat} {level place : Nat}

theorem testBit_half (place above : Nat) : (place / 2).testBit above = place.testBit (above + 1) := by
  rw [testBit_add_one]

theorem div_half (place above : Nat) : place / 2 / 2 ^ above = place / 2 ^ (above + 1) := by
  rw [Nat.div_div_eq_div_mul, Nat.pow_succ']

theorem Frontier.up (frontier : Frontier hashPair leaves inner level place) :
    Frontier hashPair leaves inner (level + 1) (place / 2) := by
  intro above bit
  have shifted := frontier (above + 1) (by rwa [← testBit_half])
  rwa [div_half, add_assoc, Nat.add_comm 1]

theorem half_lt_calcTreeWidth (inside : place < calcTreeWidth count level) :
    place / 2 < calcTreeWidth count (level + 1) := by
  rw [calcTreeWidth_succ]
  omega

theorem lt_treeHeight (wide : 1 < calcTreeWidth count level) : level < treeHeight count 0 := by
  rw [treeHeight_eq_clog (Nat.zero_le _)]
  exact (lt_clog_iff_pow_lt Nat.one_lt_two).mpr (one_lt_calcTreeWidth.mp wide)

theorem div_succ_level (leafPos level : Nat) : leafPos / 2 ^ (level + 1) = leafPos / 2 ^ level / 2 := by
  rw [Nat.pow_succ, Nat.div_div_eq_div_mul]

theorem tracked_left_up {above : Nat} (found : matchlevel = some (level + (above + 1)))
    (bit : place.testBit (above + 1) = true)
    (under : leafPos / 2 ^ (level + (above + 1)) = place / 2 ^ (above + 1) - 1) :
    Tracked hashPair leaves leafPos matchlevel (level + 1) (place / 2) false
      (siblings hashPair leaves leafPos (level + (above + 1))) := by
  rw [Nat.add_comm above, ← add_assoc] at found under ⊢
  refine .left found (by rwa [testBit_half]) ?_
  rw [under, div_half, Nat.add_comm]

/-- A node at an odd position is combined with the subtree on its left. -/
theorem Climbing.combine (climbing : Climbing hashPair leaves leafPos inner matchlevel place walk)
    (odd : place % 2 = 1) :
    Climbing hashPair leaves leafPos inner matchlevel (place / 2)
      { h := hashPair (inner walk.level) walk.h
        matchh := walk.matchh || matchlevel == some walk.level
        level := walk.level + 1
        path :=
          if walk.matchh then walk.path ++ [inner walk.level]
          else if matchlevel = some walk.level then walk.path ++ [walk.h]
          else walk.path } := by
  obtain ⟨inside, hash, frontier, tracked, -⟩ := climbing
  obtain ⟨h, matchh, level, path⟩ := walk
  dsimp only at inside hash frontier tracked ⊢
  have leftHash : inner level = calcHash hashPair leaves level (place - 1) := by
    have first := frontier 0 (by rw [testBit_zero]; exact decide_eq_true odd)
    rwa [Nat.pow_zero, Nat.div_one, Nat.add_zero] at first
  have left : place / 2 * 2 = place - 1 := by omega
  have right : place - 1 + 1 = place := by omega
  refine ⟨half_lt_calcTreeWidth inside, ?_, frontier.up, ?_, lt_treeHeight (by omega)⟩
  · rw [hash, leftHash, calcHash, left, right, if_pos inside]
  · show Tracked hashPair leaves leafPos matchlevel (level + 1) (place / 2)
      (matchh || matchlevel == some level)
      (if matchh then path ++ [inner level]
        else if matchlevel = some level then path ++ [h] else path)
    cases tracked with
    | below under =>
      have sibling : inner level = siblingHash hashPair leaves leafPos level := by
        rw [siblingHash, under, if_pos odd, leftHash]
      rw [if_pos rfl, sibling, ← siblings_succ, Bool.true_or]
      refine .below ?_
      rw [div_succ_level, under]
    | @left above found bit under =>
      rw [if_neg Bool.false_ne_true, Bool.false_or]
      cases above with
      | zero =>
        -- The leaf is below the subtree that the node is combined with.
        simp only [Nat.add_zero, Nat.pow_zero, Nat.div_one] at found under ⊢
        have even : ¬ (place - 1) % 2 = 1 := by omega
        have sibling : h = siblingHash hashPair leaves leafPos level := by
          rw [siblingHash, under, if_neg even, right, if_pos inside, hash]
        rw [if_pos found, sibling, ← siblings_succ, beq_iff_eq.mpr found]
        refine .below ?_
        rw [div_succ_level, under]
        omega
      | succ above =>
        have other : matchlevel ≠ some level := by
          rw [found, ne_eq, Option.some.injEq]
          omega
        rw [if_neg other, beq_false_of_ne other]
        exact tracked_left_up found bit under
    | right later unmatched =>
      have other : matchlevel ≠ some level := by
        rw [unmatched]
        exact (Option.some_ne_none level).symm
      rw [if_neg Bool.false_ne_true, if_neg other, Bool.false_or, beq_false_of_ne other]
      refine .right ?_ unmatched
      have twice : place / 2 + 1 = (place + 1) / 2 := by omega
      rw [Nat.pow_succ', ← Nat.mul_assoc, twice, Nat.div_mul_cancel (by omega)]
      exact later

/-- The last node of a level at an even position is combined with itself. -/
theorem Climbing.repeatLast
    (climbing : Climbing hashPair leaves leafPos inner matchlevel place walk) (even : place % 2 = 0)
    (notFirst : place ≠ 0) (last : calcTreeWidth leaves.length walk.level = place + 1)
    (passed : leafPos < (place + 1) * 2 ^ walk.level) :
    Climbing hashPair leaves leafPos inner matchlevel (place / 2)
      { h := hashPair walk.h walk.h
        matchh := walk.matchh
        level := walk.level + 1
        path := if walk.matchh then walk.path ++ [walk.h] else walk.path } := by
  obtain ⟨inside, hash, frontier, tracked, -⟩ := climbing
  obtain ⟨h, matchh, level, path⟩ := walk
  dsimp only at inside hash frontier tracked last passed ⊢
  have left : place / 2 * 2 = place := by omega
  have alone : ¬ place + 1 < calcTreeWidth leaves.length level := by omega
  refine ⟨half_lt_calcTreeWidth inside, ?_, frontier.up, ?_, lt_treeHeight (by omega)⟩
  · rw [hash, calcHash, left, if_neg alone]
  · show Tracked hashPair leaves leafPos matchlevel (level + 1) (place / 2) matchh
      (if matchh then path ++ [h] else path)
    cases tracked with
    | below under =>
      have sibling : h = siblingHash hashPair leaves leafPos level := by
        rw [siblingHash, under, if_neg (by omega), if_neg alone, hash]
      rw [if_pos rfl, sibling, ← siblings_succ]
      refine .below ?_
      rw [div_succ_level, under]
    | @left above found bit under =>
      rw [if_neg Bool.false_ne_true]
      cases above with
      | zero =>
        rw [testBit_zero, decide_eq_true_eq] at bit
        omega
      | succ above => exact tracked_left_up found bit under
    | right later unmatched => omega

theorem testBit_own_level (place level : Nat) :
    ((place + 1) * 2 ^ level).testBit level = decide (place % 2 = 0) := by
  rw [testBit_mul_two_pow, Nat.sub_self, testBit_zero, decide_eq_true (Nat.le_refl level),
    Bool.true_and, decide_eq_decide]
  omega

theorem edge_up (odd : ¬ place % 2 = 0) (level : Nat) :
    (place / 2 + 1) * 2 ^ (level + 1) = (place + 1) * 2 ^ level := by
  rw [Nat.pow_succ', ← Nat.mul_assoc]
  congr 1
  omega

theorem not_level_32 (bound : (place + 1) * 2 ^ level ≤ 2 ^ 31) : level ≠ 32 := by
  rintro rfl
  omega

/-- A climb ends at an even position, below the same right edge of leaves. -/
theorem climb_spec (climbing : Climbing hashPair leaves leafPos inner matchlevel place walk)
    (bound : (place + 1) * 2 ^ walk.level ≤ 2 ^ 31) (enough : walk.level + rounds = 32) :
    ∃ next top, climb hashPair inner matchlevel ((place + 1) * 2 ^ walk.level) rounds walk =
        .ok top ∧
      Climbing hashPair leaves leafPos inner matchlevel next top ∧ next % 2 = 0 ∧
      (next + 1) * 2 ^ top.level = (place + 1) * 2 ^ walk.level ∧ walk.level ≤ top.level ∧
      (calcTreeWidth leaves.length walk.level = place + 1 →
        calcTreeWidth leaves.length top.level = next + 1) := by
  induction rounds generalizing place walk with
  | zero => exact absurd enough (not_level_32 bound)
  | succ rounds ih =>
    rw [climb, testBit_own_level]
    by_cases even : place % 2 = 0
    · exact ⟨place, walk, if_pos (decide_eq_true even), climbing, even, rfl, Nat.le_refl _, id⟩
    · have same := edge_up even walk.level
      obtain ⟨next, top, climbed, climbing', even', edge, higher, last⟩ :=
        ih (climbing.combine (by omega)) (same.trans_le bound)
          (show walk.level + 1 + rounds = 32 by omega)
      refine ⟨next, top, ?_, climbing', even', edge.trans same, le_of_succ_le higher, ?_⟩
      · rw [if_neg (by rw [decide_eq_false even]; exact Bool.false_ne_true), ← same]
        exact climbed
      · intro width
        apply last
        rw [calcTreeWidth_succ, width]
        omega

/-! ## The leaves -/

variable (hashPair leaves) in
/-- The match between two leaves: in an inner subtree, or not yet there. -/
inductive Stored (leafPos count : Nat) : Option Nat → List Uint256 → Prop
  | found {level : Nat} (bit : count.testBit level = true)
      (under : leafPos / 2 ^ level = count / 2 ^ level - 1) :
      Stored leafPos count (some level) (siblings hashPair leaves leafPos level)
  | missing (later : count ≤ leafPos) : Stored leafPos count none []

variable (hashPair leaves) in
structure Loaded (leafPos : Nat) (state : MerkleState) : Prop where
  frontier : Frontier hashPair leaves state.inner 0 state.count
  stored : Stored hashPair leaves leafPos state.count state.matchlevel state.path

theorem edge_div (place level above : Nat) :
    (place + 1) * 2 ^ level / 2 ^ (level + above) = (place + 1) / 2 ^ above := by
  rw [Nat.pow_add, Nat.mul_comm (2 ^ level), Nat.mul_div_mul_right _ _ (Nat.two_pow_pos level)]

theorem edge_testBit (place level above : Nat) :
    ((place + 1) * 2 ^ level).testBit (level + above) = (place + 1).testBit above := by
  rw [testBit_mul_two_pow, decide_eq_true (Nat.le_add_right _ _), Bool.true_and,
    Nat.add_sub_cancel_left]

theorem exists_above {index : Nat} (bit : ((place + 1) * 2 ^ level).testBit index = true) :
    ∃ above, index = level + above ∧ (place + 1).testBit above = true := by
  have split := bit
  rw [testBit_mul_two_pow, Bool.and_eq_true, decide_eq_true_eq] at split
  exact ⟨index - level, (Nat.add_sub_cancel' split.1).symm, split.2⟩

section Even

variable (even : place % 2 = 0)

include even

theorem even_succ_div (above : Nat) : (place + 1) / 2 ^ (above + 1) = place / 2 ^ (above + 1) := by
  have half : (place + 1) / 2 = place / 2 := by omega
  rw [← div_half, ← div_half, half]

theorem even_succ_testBit (above : Nat) :
    (place + 1).testBit (above + 1) = place.testBit (above + 1) := by
  have half : (place + 1) / 2 = place / 2 := by omega
  rw [← testBit_half, ← testBit_half, half]

/-- The subtrees of the leaves up to a node at an even position are the node and those to its
left. -/
theorem frontier_edge : Frontier hashPair leaves inner 0 ((place + 1) * 2 ^ level) ↔
      inner level = calcHash hashPair leaves level place ∧
        Frontier hashPair leaves inner level place := by
  constructor
  · intro frontier
    constructor
    · have own := frontier level (by rw [testBit_own_level]; exact decide_eq_true even)
      rwa [Nat.zero_add, Nat.mul_div_cancel _ (Nat.two_pow_pos level), Nat.add_sub_cancel] at own
    · intro above bit
      cases above with
      | zero =>
        rw [testBit_zero, decide_eq_true_eq] at bit
        omega
      | succ above =>
        have higher := frontier (level + (above + 1))
          (by rwa [edge_testBit, even_succ_testBit even])
        rwa [Nat.zero_add, edge_div, even_succ_div even] at higher
  · intro parts
    obtain ⟨own, frontier⟩ := parts
    intro above bit
    obtain ⟨above, rfl, bit⟩ := exists_above bit
    rw [Nat.zero_add, edge_div]
    cases above with
    | zero =>
      rw [Nat.pow_zero, Nat.div_one, Nat.add_sub_cancel]
      exact own
    | succ above =>
      rw [even_succ_div even]
      exact frontier (above + 1) (by rwa [← even_succ_testBit even])

theorem stored_of_tracked {matchh : Bool} {path : List Uint256}
    (tracked : Tracked hashPair leaves leafPos matchlevel level place matchh path) :
    Stored hashPair leaves leafPos ((place + 1) * 2 ^ level)
      (if matchh then some level else matchlevel) path := by
  cases tracked with
  | below under =>
    refine .found (by rw [testBit_own_level]; exact decide_eq_true even) ?_
    rw [Nat.mul_div_cancel _ (Nat.two_pow_pos level), under, Nat.add_sub_cancel]
  | @left above found bit under =>
    rw [if_neg Bool.false_ne_true, found]
    cases above with
    | zero =>
      rw [testBit_zero, decide_eq_true_eq] at bit
      omega
    | succ above =>
      refine .found (by rwa [edge_testBit, even_succ_testBit even]) ?_
      rw [edge_div, even_succ_div even, under]
  | right later unmatched =>
    rw [if_neg Bool.false_ne_true, unmatched]
    exact .missing later

theorem tracked_of_stored {path : List Uint256}
    (stored : Stored hashPair leaves leafPos ((place + 1) * 2 ^ level) matchlevel path)
    (passed : leafPos < (place + 1) * 2 ^ level) :
    Tracked hashPair leaves leafPos matchlevel level place (matchlevel == some level) path := by
  cases stored with
  | @found own bit under =>
    obtain ⟨above, rfl, bit⟩ := exists_above bit
    rw [edge_div] at under
    cases above with
    | zero =>
      rw [Nat.pow_zero, Nat.div_one, Nat.add_sub_cancel] at under
      rw [Nat.add_zero, beq_self_eq_true]
      exact .below under
    | succ above =>
      have other : some (level + (above + 1)) ≠ some level := by
        rw [ne_eq, Option.some.injEq]
        omega
      rw [beq_false_of_ne other]
      refine .left rfl (by rwa [← even_succ_testBit even]) ?_
      rw [under, even_succ_div even]
  | missing later => omega

end Even

theorem Loaded.climbing (loaded : Loaded hashPair leaves leafPos state)
    (more : state.count < leaves.length) :
    Climbing hashPair leaves leafPos state.inner state.matchlevel state.count
      ⟨leaves.getD state.count 0, state.count == leafPos, 0, state.path⟩ := by
  have width : calcTreeWidth leaves.length 0 = leaves.length := by simp [calcTreeWidth]
  refine ⟨more.trans_eq width.symm, rfl, loaded.frontier, ?_, Nat.zero_le _⟩
  have stored := loaded.stored
  show Tracked hashPair leaves leafPos state.matchlevel 0 state.count (state.count == leafPos)
    state.path
  generalize state.matchlevel = matchlevel, state.path = path at stored
  cases stored with
  | @found level bit under =>
    have other : state.count ≠ leafPos := by
      intro same
      rw [testBit_eq_decide_div_mod_eq, decide_eq_true_eq] at bit
      rw [same] at bit under
      omega
    rw [beq_false_of_ne other]
    rw [← Nat.zero_add level] at under ⊢
    refine .left rfl bit ?_
    rw [under, Nat.zero_add]
  | missing later =>
    by_cases here : state.count = leafPos
    · rw [beq_iff_eq.mpr here]
      exact .below ((Nat.div_one leafPos).trans here.symm)
    · rw [beq_false_of_ne here]
      exact .right (by omega) rfl

theorem addLeaf_spec (short : leaves.length < 2 ^ 31)
    (loaded : Loaded hashPair leaves leafPos state) (more : state.count < leaves.length) :
    ∃ next, addLeaf hashPair leafPos state (leaves.getD state.count 0) = .ok next ∧
      Loaded hashPair leaves leafPos next ∧ next.count = state.count + 1 := by
  have counted : (state.count + 1) % 2 ^ 32 = (state.count + 1) * 2 ^ 0 := by omega
  have bound : (state.count + 1) * 2 ^ 0 ≤ 2 ^ 31 := by omega
  obtain ⟨place, top, climbed, climbing, even, edge, -, -⟩ :=
    climb_spec (loaded.climbing more) bound (Nat.zero_add 32)
  have kept : Frontier hashPair leaves (update state.inner top.level top.h) top.level place := by
    intro above bit
    have higher : top.level + above ≠ top.level := by
      intro same
      rw [add_eq_left.mp same, testBit_zero, decide_eq_true_eq] at bit
      omega
    rw [update_of_ne higher]
    exact climbing.frontier above bit
  have own : update state.inner top.level top.h top.level =
      calcHash hashPair leaves top.level place :=
    (update_self _ _ _).trans climbing.hash
  refine ⟨⟨(place + 1) * 2 ^ top.level, update state.inner top.level top.h,
      if top.matchh then some top.level else state.matchlevel, top.path⟩, ?_,
    ⟨(frontier_edge even).mpr ⟨own, kept⟩, stored_of_tracked even climbing.tracked⟩,
    edge.trans (mul_one _)⟩
  rw [addLeaf, counted, edge]
  exact Exec.bind_eq_ok.mpr ⟨top, climbed, rfl⟩

theorem foldlM_addLeaf {front rest : List Uint256} (whole : leaves = front ++ rest)
    (short : leaves.length < 2 ^ 31) (loaded : Loaded hashPair leaves leafPos state)
    (counted : state.count = front.length) :
    ∃ final, rest.foldlM (addLeaf hashPair leafPos) state = .ok final ∧
      Loaded hashPair leaves leafPos final ∧ final.count = leaves.length := by
  induction rest generalizing front state with
  | nil =>
    rw [append_nil] at whole
    exact ⟨state, rfl, loaded, counted.trans (congrArg length whole.symm)⟩
  | cons leaf rest ih =>
    have current : leaves.getD state.count 0 = leaf := by
      rw [whole, counted]
      simp
    have more : state.count < leaves.length := by
      rw [whole, counted, length_append, length_cons]
      omega
    obtain ⟨next, added, loaded', counted'⟩ := addLeaf_spec short loaded more
    rw [current] at added
    have moved : leaves = (front ++ [leaf]) ++ rest := by
      rw [whole, append_assoc]
      rfl
    obtain ⟨final, folded, res⟩ := ih moved loaded' (by
      rw [counted', counted, length_append, length_singleton])
    refine ⟨final, ?_, res⟩
    rw [foldlM_cons, added]
    exact folded

/-! ## The sweep -/

theorem skipZeros_spec (bound : (place + 1) * 2 ^ level ≤ 2 ^ 31) (enough : level + rounds = 32) :
    ∃ found top, skipZeros ((place + 1) * 2 ^ level) rounds level = .ok found ∧ top % 2 = 0 ∧
      (top + 1) * 2 ^ found = (place + 1) * 2 ^ level := by
  induction rounds generalizing place level with
  | zero => exact absurd enough (not_level_32 bound)
  | succ rounds ih =>
    rw [skipZeros, testBit_own_level]
    by_cases even : place % 2 = 0
    · exact ⟨level, place, if_pos (decide_eq_true even), even, rfl⟩
    · have same := edge_up even level
      obtain ⟨found, top, skipped, even', edge⟩ := ih (same.trans_le bound) (by omega)
      refine ⟨found, top, ?_, even', edge.trans same⟩
      rw [if_neg (by rw [decide_eq_false even]; exact Bool.false_ne_true), ← same]
      exact skipped

/-- An odd number of nodes below a power of two leaves room for one more. -/
theorem room_for_repeated (even : place % 2 = 0) (notFirst : place ≠ 0)
    (bound : (place + 1) * 2 ^ level ≤ 2 ^ 31) :
    level < 31 ∧ (place + 2) * 2 ^ level ≤ 2 ^ 31 := by
  have pos := Nat.two_pow_pos level
  have low : level < 31 := by
    by_contra high
    have large : 2 ^ 31 ≤ 2 ^ level := Nat.pow_le_pow_right (by decide) (by omega)
    have twice : 2 * 2 ^ level ≤ (place + 1) * 2 ^ level := Nat.mul_le_mul_right _ (by omega)
    omega
  obtain ⟨half, split⟩ := Nat.exists_eq_add_of_lt low
  have power : 2 ^ 31 = 2 * 2 ^ half * 2 ^ level := by
    rw [split, ← Nat.pow_succ', ← Nat.pow_add]
    congr 1
    omega
  rw [power] at bound ⊢
  have fewer := le_of_mul_le_mul_right bound pos
  exact ⟨low, Nat.mul_le_mul_right _ (by omega)⟩

theorem sweep_spec (inList : leafPos < leaves.length)
    (climbing : Climbing hashPair leaves leafPos inner matchlevel place walk) (even : place % 2 = 0)
    (last : calcTreeWidth leaves.length walk.level = place + 1)
    (bound : (place + 1) * 2 ^ walk.level ≤ 2 ^ 31) (enough : 32 ≤ walk.level + rounds) :
    ∃ top, sweep hashPair inner matchlevel rounds ((place + 1) * 2 ^ walk.level) walk = .ok top ∧
      top.path = siblings hashPair leaves leafPos (treeHeight leaves.length 0) := by
  have passed : leafPos < (place + 1) * 2 ^ walk.level := by
    have below := div_lt_calcTreeWidth inList walk.level
    rw [last] at below
    exact (Nat.div_lt_iff_lt_mul (Nat.two_pow_pos _)).mp below
  induction rounds generalizing place walk with
  | zero =>
    have large : 2 ^ 32 ≤ 2 ^ walk.level := Nat.pow_le_pow_right (by decide) enough
    have atLeast : 1 * 2 ^ walk.level ≤ (place + 1) * 2 ^ walk.level :=
      Nat.mul_le_mul_right _ (by omega)
    omega
  | succ rounds ih =>
    rw [sweep]
    by_cases first : place = 0
    · subst first
      refine ⟨walk, if_pos (Nat.one_mul _), ?_⟩
      have height : walk.level = treeHeight leaves.length 0 := by
        apply le_antisymm climbing.notAbove
        by_contra below
        have wide := one_lt_calcTreeWidth_of_lt_treeHeight (Nat.lt_of_not_le below)
        omega
      have tracked := climbing.tracked
      rw [← height]
      generalize walk.matchh = matchh, walk.path = path at tracked
      -- There is nothing to the left of the root, and every leaf has been passed.
      cases tracked with
      | below under => rfl
      | left found bit under => exact absurd bit (by simp)
      | right later unmatched => omega
    · have notTop : ¬ (place + 1) * 2 ^ walk.level = 2 ^ walk.level := by
        intro same
        have one := eq_of_mul_eq_mul_right (Nat.two_pow_pos walk.level)
          (same.trans (Nat.one_mul _).symm)
        omega
      obtain ⟨low, room⟩ := room_for_repeated even first bound
      have next : ((place + 1) * 2 ^ walk.level + 2 ^ walk.level) % 2 ^ 32 =
          (place / 2 + 1) * 2 ^ (walk.level + 1) := by
        have sum : (place + 1) * 2 ^ walk.level + 2 ^ walk.level = (place + 2) * 2 ^ walk.level := by
          ring
        rw [sum, mod_eq_of_lt (by omega), Nat.pow_succ', ← Nat.mul_assoc]
        congr 1
        omega
      have room' : (place / 2 + 1) * 2 ^ (walk.level + 1) ≤ 2 ^ 31 := by
        rw [Nat.pow_succ', ← Nat.mul_assoc]
        exact Nat.le_trans (Nat.mul_le_mul_right _ (by omega)) room
      obtain ⟨above, top, climbed, climbing', even', edge, higher, last'⟩ :=
        climb_spec (climbing.repeatLast even first last passed) room'
          (show walk.level + 1 + (31 - walk.level) = 32 by omega)
      have width' : calcTreeWidth leaves.length (walk.level + 1) = place / 2 + 1 := by
        rw [calcTreeWidth_succ, last]
        omega
      dsimp only at climbed edge higher
      rw [if_neg notTop, next]
      dsimp only
      rw [climbed, Exec.ok_bind, ← edge]
      refine ih climbing' even' (last' width') (by rwa [edge]) (by omega) ?_
      rw [edge]
      exact Nat.lt_of_lt_of_le passed (by
        rw [Nat.pow_succ', ← Nat.mul_assoc]
        exact Nat.mul_le_mul_right _ (by omega))

/-! ## The path -/

theorem calcTreeWidth_edge (place level : Nat) :
    calcTreeWidth ((place + 1) * 2 ^ level) level = place + 1 := by
  have pos := Nat.two_pow_pos level
  rw [calcTreeWidth, Nat.add_sub_assoc pos, Nat.add_comm, add_mul_div_right _ _ pos,
    div_eq_of_lt (by omega), Nat.zero_add]

theorem merkleComputation_eq (short : leaves.length < 2 ^ 31) (inList : leafPos < leaves.length) :
    merkleComputation hashPair leaves leafPos =
      .ok (siblings hashPair leaves leafPos (treeHeight leaves.length 0)) := by
  have start : Loaded hashPair leaves leafPos {} :=
    ⟨fun above bit => absurd bit (by simp), .missing (Nat.zero_le _)⟩
  obtain ⟨final, folded, ⟨frontier, stored⟩, counted⟩ :=
    foldlM_addLeaf (nil_append leaves).symm short start rfl
  have whole : (leaves.length - 1 + 1) * 2 ^ 0 = leaves.length := by omega
  obtain ⟨level, place, skipped, even, edge⟩ :=
    skipZeros_spec (by omega : (leaves.length - 1 + 1) * 2 ^ 0 ≤ 2 ^ 31) (Nat.zero_add 32)
  rw [whole] at skipped edge
  rw [counted, ← edge] at frontier stored
  obtain ⟨own, frontier⟩ := (frontier_edge even).mp frontier
  have width : calcTreeWidth leaves.length level = place + 1 := by
    rw [← edge, calcTreeWidth_edge]
  have notAbove : level ≤ treeHeight leaves.length 0 := by
    rw [treeHeight_eq_clog (Nat.zero_le _), ← clog_pow 2 level Nat.one_lt_two, ← edge]
    exact clog_mono_right 2 (Nat.le_mul_of_pos_left _ (succ_pos place))
  have climbing : Climbing hashPair leaves leafPos final.inner final.matchlevel place
      ⟨final.inner level, final.matchlevel == some level, level, final.path⟩ :=
    ⟨by rw [width]; exact lt_succ_self place, own, frontier,
      tracked_of_stored even stored (by rwa [edge]), notAbove⟩
  obtain ⟨top, swept, path⟩ := sweep_spec inList climbing even width
    (by rw [edge]; omega) (le_add_left 32 level)
  dsimp only at swept
  rw [edge] at swept
  have fits : decide (leaves.length ≤ 2 ^ 32 - 1) = true := decide_eq_true (by omega)
  have ne : ¬ leaves.isEmpty = true := by
    rw [isEmpty_iff_length_eq_zero]
    omega
  rw [merkleComputation, fits, if_neg ne, folded]
  show (skipZeros final.count 32 0 >>= _) = _
  rw [counted, skipped, Exec.ok_bind, swept, Exec.ok_bind, path]
  rfl

/-- The path of every leaf leads to the root, for any list of hashes and for the hashes of
transactions. -/
theorem foldMerklePath_merkleComputation (hashPair : Uint256 → Uint256 → Uint256) :
    (∀ (leaves : List Uint256) (position : Nat), leaves.length < 2 ^ 31 → position < leaves.length →
      ∃ path, merkleComputation hashPair leaves position = .ok path ∧
        foldMerklePath hashPair position (leaves.getD position 0) path =
          (computeMerkleRootWithMutation hashPair leaves).1) ∧
    ∀ (transactions : List CTransaction) (position : UInt32), transactions.length < 2 ^ 31 →
      position.toNat < transactions.length →
      ∃ path, transactionMerklePath hashPair transactions position = .ok path ∧
        foldMerklePath hashPair position.toNat
            ((transactions.map CTransaction.hash).getD position.toNat 0) path =
          (computeMerkleRootWithMutation hashPair (transactions.map CTransaction.hash)).1 := by
  have ofLeaves : ∀ (leaves : List Uint256) (position : Nat), leaves.length < 2 ^ 31 →
      position < leaves.length →
      ∃ path, merkleComputation hashPair leaves position = .ok path ∧
        foldMerklePath hashPair position (leaves.getD position 0) path =
          (computeMerkleRootWithMutation hashPair leaves).1 := by
    intro leaves position short inList
    have nonempty : leaves ≠ [] := ne_nil_of_length_pos (by omega)
    refine ⟨_, merkleComputation_eq short inList, ?_⟩
    have top := div_lt_calcTreeWidth inList (treeHeight leaves.length 0)
    rw [calcTreeWidth_treeHeight (by omega), lt_one_iff] at top
    rw [foldMerklePath_siblings inList, top, calcHash_treeHeight nonempty]
  refine ⟨ofLeaves, ?_⟩
  intro transactions position short inList
  exact ofLeaves _ _ (by rwa [length_map]) (by rwa [length_map])

/-- Five leaves, the last of which is alone on two levels. -/
theorem foldMerklePath_merkleComputation_fiveLeaves :
    ∃ path, merkleComputation (fun left right => left + 3 * right) [1, 2, 3, 4, 5] 4 = .ok path ∧
      foldMerklePath (fun left right => left + 3 * right) 4 5 path =
        (computeMerkleRootWithMutation (fun left right => left + 3 * right) [1, 2, 3, 4, 5]).1 :=
  (foldMerklePath_merkleComputation fun left right => left + 3 * right).1 [1, 2, 3, 4, 5] 4
    (by decide) (by decide)

end Paths

end Champy
