import Champy.BlockChecksAgreement
import Mathlib.Data.Nat.Log

/-!
# What a Merkle root says about its leaves

An odd level of the tree repeats its last hash, so lists of different lengths can have one root.
Such a list is flagged as mutated, and among the lists that are not flagged the root determines
the leaves.

No function of pairs of 256-bit words into 256-bit words is injective.  The results ask for what
they need of it: the pairs that a given tree hashes have no second preimage.
-/

namespace Champy

open List

section Trees

variable (hashPair : HashPair)

/-- The pairs hashed on one level. -/
def levelPairs : List Uint256 → List (Uint256 × Uint256)
  | [] => []
  | [last] => [(last, last)]
  | first :: second :: rest => (first, second) :: levelPairs rest

/-- The pairs hashed on the way to the root. -/
def hashedPairs (hashes : List Uint256) : List (Uint256 × Uint256) :=
  if 1 < hashes.length then levelPairs hashes ++ hashedPairs (merkleLevel hashPair hashes) else []
  termination_by hashes.length
  decreasing_by
    rw [length_merkleLevel]
    omega

/-- No other pair has the hash of one of these. -/
def NoSecondPreimage (pairs : List (Uint256 × Uint256)) : Prop :=
  ∀ pair ∈ pairs, ∀ left right : Uint256, hashPair left right = hashPair pair.1 pair.2 →
    left = pair.1 ∧ right = pair.2

/-- The hashes a number of levels above the leaves. -/
def merkleLevels (level : Nat) (hashes : List Uint256) : List Uint256 :=
  (merkleLevel hashPair)^[level] hashes

def merkleHeight (hashes : List Uint256) : Nat :=
  Nat.clog 2 hashes.length

variable {hashPair} {hashes : List Uint256}

theorem merkleHeight_of_long (hashPair : HashPair) (long : 1 < hashes.length) :
    merkleHeight hashes = merkleHeight (merkleLevel hashPair hashes) + 1 := by
  rw [merkleHeight, merkleHeight, length_merkleLevel,
    Nat.clog_of_two_le Nat.one_lt_two (Nat.succ_le_iff.mpr long)]
  rfl

theorem merkleHeight_of_short (short : ¬1 < hashes.length) : merkleHeight hashes = 0 :=
  Nat.clog_of_right_le_one (Nat.not_lt.mp short) 2

theorem merkleLevel_ne_nil (ne : hashes ≠ []) : merkleLevel hashPair hashes ≠ [] := by
  rcases hashes with - | ⟨first, - | ⟨second, rest⟩⟩
  · exact absurd rfl ne
  · exact cons_ne_nil _ _
  · exact cons_ne_nil _ _

theorem headD_merkleLevel (hashPair : HashPair) (ne : hashes ≠ []) :
    ∃ second, (hashes.headD 0, second) ∈ levelPairs hashes ∧
      (merkleLevel hashPair hashes).headD 0 = hashPair (hashes.headD 0) second := by
  rcases hashes with - | ⟨first, - | ⟨second, rest⟩⟩
  · exact absurd rfl ne
  · exact ⟨first, mem_cons_self, rfl⟩
  · exact ⟨second, mem_cons_self, rfl⟩

theorem merkleLevels_ne_nil (hashPair : HashPair) (level : Nat) (ne : hashes ≠ []) :
    merkleLevels hashPair level hashes ≠ [] := by
  induction level with
  | zero => exact ne
  | succ level ih =>
    rw [merkleLevels, Function.iterate_succ_apply']
    exact merkleLevel_ne_nil ih

theorem merkleLevels_merkleLevel (level : Nat) (hashes : List Uint256) :
    merkleLevels hashPair level (merkleLevel hashPair hashes) =
      merkleLevel hashPair (merkleLevels hashPair level hashes) := by
  rw [merkleLevels, ← Function.iterate_succ_apply, Function.iterate_succ_apply']
  rfl

theorem computeMerkleRoot_of_long (long : 1 < hashes.length) :
    computeMerkleRootWithMutation hashPair hashes =
      ((computeMerkleRootWithMutation hashPair (merkleLevel hashPair hashes)).1,
        merkleLevelMutated hashes ||
          (computeMerkleRootWithMutation hashPair (merkleLevel hashPair hashes)).2) := by
  rw [computeMerkleRootWithMutation, if_pos long]

theorem computeMerkleRoot_of_short (short : ¬1 < hashes.length) :
    computeMerkleRootWithMutation hashPair hashes = (hashes.headD 0, false) := by
  rw [computeMerkleRootWithMutation, if_neg short]

theorem hashedPairs_of_long (long : 1 < hashes.length) : hashedPairs hashPair hashes =
      levelPairs hashes ++ hashedPairs hashPair (merkleLevel hashPair hashes) := by
  rw [hashedPairs, if_pos long]

theorem computeMerkleRoot_eq_headD (hashes : List Uint256) :
    (computeMerkleRootWithMutation hashPair hashes).1 =
      (merkleLevels hashPair (merkleHeight hashes) hashes).headD 0 := by
  fun_induction hashedPairs hashPair hashes with
  | case1 hashes long ih =>
    rw [computeMerkleRoot_of_long long, ih, merkleHeight_of_long hashPair long]
    rfl
  | case2 hashes short =>
    rw [computeMerkleRoot_of_short short, merkleHeight_of_short short]
    rfl

/-- With equal roots, the first leaf of the lower tree is found in the higher one, as far above
the leaves as the two heights differ. -/
theorem headD_of_root_eq {lower higher : List Uint256} (lowerNonempty : lower ≠ [])
    (higherNonempty : higher ≠ [])
    (noSecond : NoSecondPreimage hashPair (hashedPairs hashPair lower))
    (heights : merkleHeight lower ≤ merkleHeight higher)
    (roots : (computeMerkleRootWithMutation hashPair lower).1 =
      (computeMerkleRootWithMutation hashPair higher).1) :
    lower.headD 0 =
      (merkleLevels hashPair (merkleHeight higher - merkleHeight lower) higher).headD 0 := by
  fun_induction hashedPairs hashPair lower generalizing higher with
  | case1 lower long ih =>
    have lowerHeight := merkleHeight_of_long hashPair long
    have higherLong : 1 < higher.length := by
      by_contra short
      rw [merkleHeight_of_short short] at heights
      omega
    have higherHeight := merkleHeight_of_long hashPair higherLong
    rw [computeMerkleRoot_of_long long, computeMerkleRoot_of_long higherLong] at roots
    have above := ih (merkleLevel_ne_nil lowerNonempty) (merkleLevel_ne_nil higherNonempty)
      (fun pair mem => noSecond pair (mem_append_right _ mem)) (by omega) roots
    have difference : merkleHeight (merkleLevel hashPair higher) -
        merkleHeight (merkleLevel hashPair lower) = merkleHeight higher - merkleHeight lower := by
      omega
    rw [difference, merkleLevels_merkleLevel] at above
    have betweenNonempty :=
      merkleLevels_ne_nil hashPair (merkleHeight higher - merkleHeight lower) higherNonempty
    -- The hashes above are those of two pairs, the first of which has no second preimage.
    obtain ⟨lowerSecond, hashed, lowerHead⟩ := headD_merkleLevel hashPair lowerNonempty
    obtain ⟨second, -, betweenHead⟩ := headD_merkleLevel hashPair betweenNonempty
    rw [lowerHead, betweenHead] at above
    exact (noSecond _ (mem_append_left _ hashed) _ _ above.symm).1.symm
  | case2 lower short =>
    rw [computeMerkleRoot_of_short short, computeMerkleRoot_eq_headD] at roots
    rw [merkleHeight_of_short short]
    exact roots

variable {first second : List Uint256}

/-- Two levels that are not flagged and have one level above them are the same. -/
theorem merkleLevel_injective (noSecond : NoSecondPreimage hashPair (levelPairs first))
    (firstClean : merkleLevelMutated first = false)
    (secondClean : merkleLevelMutated second = false)
    (levels : merkleLevel hashPair second = merkleLevel hashPair first) : second = first := by
  fun_induction levelPairs first generalizing second with
  | case1 =>
    rcases second with - | ⟨only, - | ⟨other, more⟩⟩
    · rfl
    · cases levels
    · cases levels
  | case2 last =>
    rcases second with - | ⟨only, - | ⟨other, more⟩⟩
    · cases levels
    · obtain ⟨same, -⟩ := noSecond _ mem_cons_self _ _ (cons.inj levels).1
      rw [same]
    · -- Two hashes where the other level repeats one: they are equal, which is flagged.
      obtain ⟨leftSame, rightSame⟩ := noSecond _ mem_cons_self _ _ (cons.inj levels).1
      rw [leftSame, rightSame, merkleLevelMutated] at secondClean
      simp at secondClean
  | case3 left right rest ih =>
    rcases second with - | ⟨only, - | ⟨other, more⟩⟩
    · cases levels
    · obtain ⟨leftSame, rightSame⟩ := noSecond _ mem_cons_self _ _ (cons.inj levels).1
      have same : left = right := leftSame.symm.trans rightSame
      rw [same, merkleLevelMutated] at firstClean
      simp at firstClean
    · obtain ⟨headSame, tailSame⟩ := cons.inj levels
      obtain ⟨leftSame, rightSame⟩ := noSecond _ mem_cons_self _ _ headSame
      rw [merkleLevelMutated, Bool.or_eq_false_iff] at firstClean secondClean
      rw [leftSame, rightSame,
        ih (fun pair mem => noSecond pair (mem_cons_of_mem _ mem)) firstClean.2
          secondClean.2 tailSame]

/-- Of two trees with one root neither is higher, since a leaf is no hash of a pair. -/
theorem merkleHeight_le_of_root_eq (firstNonempty : first ≠ []) (secondNonempty : second ≠ [])
    (noSecond : NoSecondPreimage hashPair (hashedPairs hashPair first))
    (leavesNotHashed : ∀ leaf ∈ first, ∀ left right, leaf ≠ hashPair left right)
    (roots : (computeMerkleRootWithMutation hashPair first).1 =
      (computeMerkleRootWithMutation hashPair second).1) :
    merkleHeight second ≤ merkleHeight first := by
  by_contra higher
  have leafFound := headD_of_root_eq firstNonempty secondNonempty noSecond (by omega) roots
  obtain ⟨more, moreEq⟩ : ∃ more, merkleHeight second - merkleHeight first = more + 1 :=
    ⟨merkleHeight second - merkleHeight first - 1, by omega⟩
  have below := merkleLevels_ne_nil hashPair more secondNonempty
  obtain ⟨sibling, -, headEq⟩ := headD_merkleLevel hashPair below
  rw [moreEq, merkleLevels, Function.iterate_succ_apply', ← merkleLevels, headEq] at leafFound
  obtain ⟨leaf, rest, rfl⟩ := exists_cons_of_ne_nil firstNonempty
  exact leavesNotHashed leaf mem_cons_self _ _ leafFound

theorem leaves_eq_of_root_eq (firstNonempty : first ≠ []) (secondNonempty : second ≠ [])
    (noSecond : NoSecondPreimage hashPair (hashedPairs hashPair first))
    (heights : merkleHeight first = merkleHeight second)
    (roots : (computeMerkleRootWithMutation hashPair first).1 =
      (computeMerkleRootWithMutation hashPair second).1)
    (firstClean : (computeMerkleRootWithMutation hashPair first).2 = false)
    (secondClean : (computeMerkleRootWithMutation hashPair second).2 = false) :
    second = first := by
  fun_induction hashedPairs hashPair first generalizing second with
  | case1 first long ih =>
    have secondLong : 1 < second.length := by
      by_contra short
      rw [merkleHeight_of_long hashPair long, merkleHeight_of_short short] at heights
      omega
    rw [merkleHeight_of_long hashPair long, merkleHeight_of_long hashPair secondLong] at heights
    rw [computeMerkleRoot_of_long long, computeMerkleRoot_of_long secondLong] at roots
    rw [computeMerkleRoot_of_long long, Bool.or_eq_false_iff] at firstClean
    rw [computeMerkleRoot_of_long secondLong, Bool.or_eq_false_iff] at secondClean
    have above := ih (merkleLevel_ne_nil firstNonempty) (merkleLevel_ne_nil secondNonempty)
      (fun pair mem => noSecond pair (mem_append_right _ mem)) (by omega) roots
      firstClean.2 secondClean.2
    exact merkleLevel_injective (fun pair mem => noSecond pair (mem_append_left _ mem))
      firstClean.1 secondClean.1 above
  | case2 first short =>
    have secondShort : ¬1 < second.length := by
      intro long
      rw [merkleHeight_of_short short, merkleHeight_of_long hashPair long] at heights
      omega
    rw [computeMerkleRoot_of_short short, computeMerkleRoot_of_short secondShort] at roots
    rcases first with - | ⟨leaf, - | ⟨other, rest⟩⟩
    · exact absurd rfl firstNonempty
    · rcases second with - | ⟨leaf', - | ⟨other', rest'⟩⟩
      · exact absurd rfl secondNonempty
      · exact congrArg (fun hash => [hash]) roots.symm
      · exact absurd (by simp) secondShort
    · exact absurd (by simp) short

end Trees

/-- Lists that are not flagged and have one root are the same, and the value library computes the
root and the flag of every list as the validation code does. -/
theorem merkleRoot_determines_leaves (hashPair : Uint256 → Uint256 → Uint256)
    (doubleSha256 : List UInt8 → Uint256) :
    (∀ first second : List Uint256, first ≠ [] → second ≠ [] →
      NoSecondPreimage hashPair (hashedPairs hashPair first ++ hashedPairs hashPair second) →
      (∀ leaf ∈ first ++ second, ∀ left right, leaf ≠ hashPair left right) →
      (computeMerkleRootWithMutation hashPair first).1 =
        (computeMerkleRootWithMutation hashPair second).1 →
      (computeMerkleRootWithMutation hashPair first).2 = false →
      (computeMerkleRootWithMutation hashPair second).2 = false → first = second) ∧
    (∀ hashes : List Uint256, Validation.merkleLoop doubleSha256 hashes =
      computeMerkleRootWithMutation (sha256D64 doubleSha256) hashes) ∧
    ∀ transactions : List Protocol.Transaction, Validation.merkleRoot doubleSha256 transactions =
        computeMerkleRootWithMutation (sha256D64 doubleSha256)
          (transactions.map (Protocol.Transaction.id doubleSha256)) := by
  refine ⟨?_, Validation.merkleLoop_eq doubleSha256,
    fun transactions => Validation.merkleLoop_eq doubleSha256 _⟩
  intro first second firstNonempty secondNonempty noSecond notHashed roots firstClean secondClean
  have noSecondFirst : NoSecondPreimage hashPair (hashedPairs hashPair first) :=
    fun pair member => noSecond pair (mem_append_left _ member)
  have noSecondSecond : NoSecondPreimage hashPair (hashedPairs hashPair second) :=
    fun pair member => noSecond pair (mem_append_right _ member)
  have secondLow := merkleHeight_le_of_root_eq firstNonempty secondNonempty noSecondFirst
    (fun leaf member => notHashed leaf (mem_append_left _ member)) roots
  have firstLow := merkleHeight_le_of_root_eq secondNonempty firstNonempty noSecondSecond
    (fun leaf member => notHashed leaf (mem_append_right _ member)) roots.symm
  exact (leaves_eq_of_root_eq firstNonempty secondNonempty noSecondFirst
    (Nat.le_antisymm firstLow secondLow) roots firstClean secondClean).symm

/-- A hash of pairs under which the tree of three leaves has no second preimages. -/
def threeLeafHash (left right : Uint256) : Uint256 :=
  if left = 1 ∧ right = 2 then 10
  else if left = 3 ∧ right = 3 then 11
  else if left = 10 ∧ right = 11 then 12
  else 13

theorem hashedPairs_threeLeafHash :
    hashedPairs threeLeafHash [1, 2, 3] = [(1, 2), (3, 3), (10, 11)] := by
  rw [hashedPairs_of_long (by decide), hashedPairs_of_long (by decide), hashedPairs]
  decide +kernel

theorem threeLeafHash_noSecondPreimage :
    NoSecondPreimage threeLeafHash (hashedPairs threeLeafHash [1, 2, 3]) := by
  rw [hashedPairs_threeLeafHash]
  intro pair mem left right same
  simp only [mem_cons, not_mem_nil, or_false] at mem
  rcases mem with rfl | rfl | rfl
  · grind [threeLeafHash]
  · grind [threeLeafHash]
  · grind [threeLeafHash]

theorem threeLeafHash_ne_leaf {leaf : Uint256} (mem : leaf ∈ [(1 : Uint256), 2, 3])
    (left right : Uint256) : leaf ≠ threeLeafHash left right := by
  simp only [mem_cons, not_mem_nil, or_false] at mem
  rcases mem with rfl | rfl | rfl
  · grind [threeLeafHash]
  · grind [threeLeafHash]
  · grind [threeLeafHash]

/-- The three leaves are not flagged, so no other list that is not flagged has their root. -/
theorem merkleRoot_determines_leaves_three :
    (computeMerkleRootWithMutation threeLeafHash [1, 2, 3] = (12, false)) ∧
      ([1, 2, 3] : List Uint256) = [1, 2, 3] ∧
      Validation.merkleLoop (fun bytes => bytes.length) [1, 2, 3] =
        computeMerkleRootWithMutation (sha256D64 fun bytes => bytes.length) [1, 2, 3] := by
  have root : computeMerkleRootWithMutation threeLeafHash [1, 2, 3] = (12, false) := by
    rw [computeMerkleRoot_of_long (by decide), computeMerkleRoot_of_long (by decide),
      computeMerkleRoot_of_short (by decide)]
    decide +kernel
  have applied := merkleRoot_determines_leaves threeLeafHash fun bytes => bytes.length
  refine ⟨root, applied.1 [1, 2, 3] [1, 2, 3] (by decide) (by decide) ?_ ?_ rfl
    (congrArg Prod.snd root) (congrArg Prod.snd root), applied.2.1 _⟩
  · intro pair member
    rcases mem_append.mp member with inFirst | inSecond
    · exact threeLeafHash_noSecondPreimage pair inFirst
    · exact threeLeafHash_noSecondPreimage pair inSecond
  · intro leaf member
    rcases mem_append.mp member with inFirst | inSecond
    · exact threeLeafHash_ne_leaf inFirst
    · exact threeLeafHash_ne_leaf inSecond

end Champy
