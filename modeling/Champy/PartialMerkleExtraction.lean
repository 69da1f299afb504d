import Champy.PartialMerkleTree
import Mathlib.Data.List.GetD

/-!
# What a partial Merkle tree proves

The hash of a node, computed from its leaves, is the entry of its level in the tree of the Merkle
root.  So the walk that extracts a built tree returns the root and the matched leaves, and a walk
over any bits and hashes that returns the root of a list has taken the hashes of that list's tree
all the way down.
-/

namespace Champy

open Consensus CPartialMerkleTree List Nat

/-! ## Levels -/

section Levels

variable {hashPair : HashPair}

theorem calcTreeWidth_succ (count height : Nat) :
    calcTreeWidth count (height + 1) = (calcTreeWidth count height + 1) / 2 := by
  have positive := Nat.two_pow_pos height
  rw [calcTreeWidth, calcTreeWidth, Nat.pow_succ, ← Nat.div_div_eq_div_mul]
  congr 1
  rw [← add_div_right _ positive]
  congr 1
  omega

theorem length_merkleLevels (height : Nat) (hashes : List Uint256) :
    (merkleLevels hashPair height hashes).length = calcTreeWidth hashes.length height := by
  induction height with
  | zero => simp [merkleLevels, calcTreeWidth]
  | succ height ih =>
    rw [merkleLevels, Function.iterate_succ_apply', length_merkleLevel, ← merkleLevels, ih,
      calcTreeWidth_succ]

variable {pos : Nat}

theorem getD_merkleLevel (hashPair : HashPair) {hashes : List Uint256}
    (inside : pos * 2 < hashes.length) :
    (hashes.getD (pos * 2) 0,
        if pos * 2 + 1 < hashes.length then hashes.getD (pos * 2 + 1) 0
        else hashes.getD (pos * 2) 0) ∈ levelPairs hashes ∧
      (merkleLevel hashPair hashes).getD pos 0 = hashPair (hashes.getD (pos * 2) 0)
          (if pos * 2 + 1 < hashes.length then hashes.getD (pos * 2 + 1) 0
          else hashes.getD (pos * 2) 0) := by
  fun_induction levelPairs hashes generalizing pos with
  | case1 => simp at inside
  | case2 last =>
    obtain rfl : pos = 0 := by
      rw [length_singleton] at inside
      omega
    simp [merkleLevel]
  | case3 first second rest ih =>
    cases pos with
    | zero => simp [merkleLevel]
    | succ pos =>
      have shifted : (pos + 1) * 2 = pos * 2 + 2 := by omega
      have insideRest : pos * 2 < rest.length := by
        rw [length_cons, length_cons] at inside
        omega
      obtain ⟨mem, value⟩ := ih insideRest
      have bound : pos * 2 + 2 + 1 < (first :: second :: rest).length ↔
          pos * 2 + 1 < rest.length := by
        rw [length_cons, length_cons]
        omega
      simp only [shifted, bound, getD_cons_succ, merkleLevel]
      exact ⟨mem_cons_of_mem _ mem, value⟩

variable {height : Nat} {vTxid : List Uint256} {count : Nat}

theorem pos_lt_of_succ (inside : pos < calcTreeWidth count (height + 1)) :
    pos * 2 < calcTreeWidth count height := by
  rw [calcTreeWidth_succ] at inside
  omega

theorem calcHash_eq_getD (inside : pos < calcTreeWidth vTxid.length height) :
    calcHash hashPair vTxid height pos = (merkleLevels hashPair height vTxid).getD pos 0 := by
  induction height generalizing pos with
  | zero => rfl
  | succ height ih =>
    have leftInside := pos_lt_of_succ inside
    have leftLength : pos * 2 < (merkleLevels hashPair height vTxid).length := by
      rw [length_merkleLevels]
      exact leftInside
    have level := (getD_merkleLevel hashPair leftLength).2
    rw [length_merkleLevels] at level
    rw [calcHash, merkleLevels, Function.iterate_succ_apply', ← merkleLevels, level, ih leftInside]
    split
    next rightInside => rw [ih rightInside]
    next => rfl

/-- The pair that a node above the leaves hashes. -/
def childHashes (hashPair : HashPair) (vTxid : List Uint256)
    (height pos : Nat) : Uint256 × Uint256 :=
  (calcHash hashPair vTxid height (pos * 2),
    if pos * 2 + 1 < calcTreeWidth vTxid.length height then
      calcHash hashPair vTxid height (pos * 2 + 1)
    else calcHash hashPair vTxid height (pos * 2))

theorem calcHash_succ (vTxid : List Uint256) (height pos : Nat) :
    calcHash hashPair vTxid (height + 1) pos = hashPair (childHashes hashPair vTxid height pos).1
        (childHashes hashPair vTxid height pos).2 :=
  rfl

theorem levelPairs_subset_hashedPairs {hashes : List Uint256}
    (long : 1 < (merkleLevels hashPair height hashes).length) :
    levelPairs (merkleLevels hashPair height hashes) ⊆ hashedPairs hashPair hashes := by
  induction height generalizing hashes with
  | zero =>
    have hashesLong : 1 < hashes.length := long
    rw [hashedPairs_of_long hashesLong]
    exact subset_append_left _ _
  | succ height ih =>
    have wide : 2 ^ (height + 1) < hashes.length := by
      rw [length_merkleLevels] at long
      exact one_lt_calcTreeWidth.mp long
    have hashesLong : 1 < hashes.length := lt_trans (Nat.one_lt_two_pow height.succ_ne_zero) wide
    rw [hashedPairs_of_long hashesLong]
    exact subset_append_of_subset_right _ (ih long)

/-- Below the root, every pair that a node hashes is a pair of the tree. -/
theorem childHashes_mem (wide : 1 < calcTreeWidth vTxid.length height)
    (inside : pos < calcTreeWidth vTxid.length (height + 1)) :
    childHashes hashPair vTxid height pos ∈ hashedPairs hashPair vTxid := by
  have leftInside := pos_lt_of_succ inside
  have leftLength : pos * 2 < (merkleLevels hashPair height vTxid).length := by
    rw [length_merkleLevels]
    exact leftInside
  have mem := (getD_merkleLevel hashPair leftLength).1
  rw [length_merkleLevels, ← calcHash_eq_getD leftInside] at mem
  have sameRight : (if pos * 2 + 1 < calcTreeWidth vTxid.length height then
      (merkleLevels hashPair height vTxid).getD (pos * 2 + 1) 0
      else calcHash hashPair vTxid height (pos * 2)) =
      (childHashes hashPair vTxid height pos).2 := by
    rw [childHashes]
    split
    next rightInside => rw [calcHash_eq_getD rightInside]
    next => rfl
  rw [sameRight] at mem
  apply levelPairs_subset_hashedPairs _ mem
  rw [length_merkleLevels]
  exact wide

theorem treeHeight_eq_clog (below : height ≤ clog 2 count) :
    treeHeight count height = clog 2 count := by
  fun_induction treeHeight count height with
  | case1 height wide ih =>
    rw [one_lt_calcTreeWidth, ← lt_clog_iff_pow_lt Nat.one_lt_two] at wide
    exact ih wide
  | case2 height narrow =>
    rw [one_lt_calcTreeWidth, ← lt_clog_iff_pow_lt Nat.one_lt_two] at narrow
    omega

theorem one_lt_calcTreeWidth_of_lt_treeHeight (below : height < treeHeight count 0) :
    1 < calcTreeWidth count height := by
  rw [treeHeight_eq_clog (zero_le _)] at below
  exact one_lt_calcTreeWidth.mpr ((lt_clog_iff_pow_lt Nat.one_lt_two).mp below)

theorem calcTreeWidth_treeHeight (positive : 0 < count) :
    calcTreeWidth count (treeHeight count 0) = 1 := by
  have powPositive := Nat.two_pow_pos (treeHeight count 0)
  have notWide : ¬1 < calcTreeWidth count (treeHeight count 0) := by
    rw [one_lt_calcTreeWidth, treeHeight_eq_clog (zero_le _)]
    exact not_lt.mpr (le_pow_clog Nat.one_lt_two count)
  have atLeast : 0 < calcTreeWidth count (treeHeight count 0) := div_pos (by omega) powPositive
  omega

theorem root_inside (ne : vTxid ≠ []) :
    0 < calcTreeWidth vTxid.length (treeHeight vTxid.length 0) := by
  rw [calcTreeWidth_treeHeight (length_pos_iff.mpr ne)]
  exact one_pos

theorem calcHash_treeHeight (ne : vTxid ≠ []) :
    calcHash hashPair vTxid (treeHeight vTxid.length 0) 0 =
      (computeMerkleRootWithMutation hashPair vTxid).1 := by
  rw [calcHash_eq_getD (root_inside ne), computeMerkleRoot_eq_headD, treeHeight_eq_clog (zero_le _),
    merkleHeight]
  cases merkleLevels hashPair (clog 2 vTxid.length) vTxid with
  | nil => rfl
  | cons first rest => rfl

theorem calcHash_injective (distinct : vTxid.Nodup)
    (noSecond : NoSecondPreimage hashPair (hashedPairs hashPair vTxid))
    (wide : 1 < calcTreeWidth vTxid.length height) {first second : Nat}
    (firstInside : first < calcTreeWidth vTxid.length height)
    (secondInside : second < calcTreeWidth vTxid.length height)
    (same : calcHash hashPair vTxid height second = calcHash hashPair vTxid height first) :
    second = first := by
  induction height generalizing first second with
  | zero =>
    have width : calcTreeWidth vTxid.length 0 = vTxid.length := by simp [calcTreeWidth]
    rw [width] at firstInside secondInside
    rw [calcHash, calcHash, getD_eq_getElem _ _ firstInside,
      getD_eq_getElem _ _ secondInside] at same
    exact (distinct.getElem_inj_iff).mp same
  | succ height ih =>
    have wideBelow : 1 < calcTreeWidth vTxid.length height := by
      rw [calcTreeWidth_succ] at wide
      omega
    rw [calcHash_succ, calcHash_succ] at same
    have sameLeft := (noSecond _ (childHashes_mem wideBelow firstInside) _ _ same).1
    have doubled := ih wideBelow (pos_lt_of_succ firstInside) (pos_lt_of_succ secondInside) sameLeft
    omega

end Levels

/-! ## Flag bits -/

theorem bits_packByte (bits : List Bool) (pos : Nat) : ((range 8).map fun shift =>
        packByte bits pos &&& ((1 : UInt8) <<< shift.toUInt8) != 0) =
      (range 8).map fun shift => bits.getD (pos + shift) false := by
  have packed (b0 b1 b2 b3 b4 b5 b6 b7 : Bool) : ((range 8).map fun shift =>
        ((0 : UInt8) ||| b0.toUInt8 <<< (0 : UInt8) ||| b1.toUInt8 <<< (1 : UInt8) |||
          b2.toUInt8 <<< (2 : UInt8) ||| b3.toUInt8 <<< (3 : UInt8) |||
          b4.toUInt8 <<< (4 : UInt8) ||| b5.toUInt8 <<< (5 : UInt8) |||
          b6.toUInt8 <<< (6 : UInt8) ||| b7.toUInt8 <<< (7 : UInt8)) &&&
            ((1 : UInt8) <<< shift.toUInt8) != 0) = [b0, b1, b2, b3, b4, b5, b6, b7] := by
    revert b0 b1 b2 b3 b4 b5 b6 b7
    decide +kernel
  exact packed _ _ _ _ _ _ _ _

theorem flatMap_range_eight (value : Nat → Bool) (count : Nat) : ((range count).flatMap fun index =>
        (range 8).map fun shift => value (8 * index + shift)) =
      (range (count * 8)).map value := by
  induction count with
  | zero => rfl
  | succ count ih =>
    rw [range_succ (n := count), flatMap_append, ih, succ_mul, range_add, map_append,
      flatMap_singleton, map_map, mul_comm count 8]
    rfl

theorem bytesToBits_bitsToBytes (bits : List Bool) :
    ∃ padding : List Bool, bytesToBits (bitsToBytes bits) = bits ++ padding ∧
      (bits ++ padding).length = (bits.length + 7) / 8 * 8 := by
  have unpacked : bytesToBits (bitsToBytes bits) =
      (range ((bits.length + 7) / 8 * 8)).map fun pos => bits.getD pos false := by
    rw [bytesToBits, bitsToBytes, flatMap_map, ← flatMap_range_eight]
    simp only [bits_packByte]
  obtain ⟨padding, size⟩ : ∃ padding, (bits.length + 7) / 8 * 8 = bits.length + padding :=
    ⟨(bits.length + 7) / 8 * 8 - bits.length, by omega⟩
  have whole : (range bits.length).map (fun pos => bits.getD pos false) = bits := by
    apply ext_getElem
    · simp
    · intro pos inRange inBits
      simp [inBits]
  rw [unpacked, size, range_add, map_append, whole]
  exact ⟨_, rfl, by simp⟩

/-! ## Matched positions -/

/-- The matched leaves at or below a node. -/
def matchedPositions (count : Nat) (vMatch : List Bool) (height pos : Nat) : List Nat :=
  (range' (pos * 2 ^ height) (2 ^ height)).filter fun p =>
    decide (p < count) && vMatch.getD p false

variable {count : Nat} {height pos : Nat}

theorem parentOfMatch_eq_false {vMatch : List Bool} :
    parentOfMatch count vMatch height pos = false ↔
      matchedPositions count vMatch height pos = [] := by
  rw [parentOfMatch, matchedPositions, any_eq_false, filter_eq_nil_iff]

theorem lt_calcTreeWidth : pos < calcTreeWidth count height ↔ pos * 2 ^ height < count := by
  have positive := Nat.two_pow_pos height
  rw [calcTreeWidth, Nat.lt_div_iff_mul_lt positive]
  omega

theorem leaves_of_children (height pos : Nat) : pos * 2 ^ (height + 1) = pos * 2 * 2 ^ height ∧
      (pos * 2 + 1) * 2 ^ height = pos * 2 * 2 ^ height + 2 ^ height ∧
      (pos + 1) * 2 ^ (height + 1) = pos * 2 * 2 ^ height + 2 ^ height + 2 ^ height := by
  refine ⟨?_, succ_mul _ _, ?_⟩
  · rw [Nat.pow_succ, mul_comm (2 ^ height), mul_assoc]
  · rw [Nat.pow_succ, mul_comm (2 ^ height), ← mul_assoc, succ_mul, succ_mul, succ_mul]

theorem matchedPositions_outside {vMatch : List Bool}
    (outside : ¬pos < calcTreeWidth count height) :
    matchedPositions count vMatch height pos = [] := by
  rw [lt_calcTreeWidth] at outside
  rw [matchedPositions, filter_eq_nil_iff]
  intro p mem
  have behind : pos * 2 ^ height ≤ p := (mem_range'_1.mp mem).1
  have notInside : ¬p < count := by omega
  simp [notInside]

theorem matchedPositions_succ (count : Nat) (vMatch : List Bool) (height pos : Nat) :
    matchedPositions count vMatch (height + 1) pos =
      matchedPositions count vMatch height (pos * 2) ++
        matchedPositions count vMatch height (pos * 2 + 1) := by
  obtain ⟨start, middle, -⟩ := leaves_of_children height pos
  have size : 2 ^ (height + 1) = 2 ^ height + 2 ^ height := by
    rw [Nat.pow_succ, mul_two]
  rw [matchedPositions, start, size, ← range'_append_1, filter_append, ← middle]
  rfl

theorem matchedPositions_root (vMatch : List Bool) :
    matchedPositions count vMatch (treeHeight count 0) 0 =
      (range count).filter fun p => vMatch.getD p false := by
  have covered : count ≤ 2 ^ treeHeight count 0 := by
    rw [treeHeight_eq_clog (zero_le _)]
    exact le_pow_clog Nat.one_lt_two count
  obtain ⟨beyond, size⟩ := Nat.exists_eq_add_of_le covered
  rw [matchedPositions, size, Nat.zero_mul, ← range_eq_range', range_add, filter_append]
  have outside : (map (fun offset => count + offset) (range beyond)).filter
      (fun p => decide (p < count) && vMatch.getD p false) = [] := by
    rw [filter_eq_nil_iff]
    intro p mem
    obtain ⟨offset, -, rfl⟩ := mem_map.mp mem
    simp
  rw [outside, append_nil]
  apply filter_congr
  intro p mem
  simp [mem_range.mp mem]

theorem matchedPositions_zero (count : Nat) (vMatch : List Bool) (pos : Nat) :
    matchedPositions count vMatch 0 pos =
      (if parentOfMatch count vMatch 0 pos then some pos else none).toList := by
  cases found : parentOfMatch count vMatch 0 pos with
  | false => exact parentOfMatch_eq_false.mp found
  | true =>
    rw [parentOfMatch] at found
    simp only [pow_zero, mul_one, range'_one, any_cons, any_nil, Bool.or_false] at found
    rw [matchedPositions, pow_zero, mul_one, range'_one, filter_cons, if_pos found]
    rfl

/-! ## Walking a built tree -/

section Walks

variable {hashPair : HashPair} {tree : CPartialMerkleTree} {vTxid : List Uint256}

theorem getElem?_append_length {α : Type} (before : List α) (elem : α) (after : List α) :
    (before ++ elem :: after)[before.length]? = some elem := by
  simp

theorem takeHash_of_next {hashesBefore hashesAfter : List Uint256} {hash : Uint256}
    (hashes : tree.vHash = hashesBefore ++ hash :: hashesAfter) (matched : Option Nat)
    (nBitsUsed : Nat) (found : List Uint256) (positions : List Nat) (fBad : Bool) :
    takeHash tree matched ⟨nBitsUsed, hashesBefore.length, found, positions, fBad⟩ =
      (hash, ⟨nBitsUsed, hashesBefore.length + 1,
        found ++ (matched.map fun _ => hash).toList, positions ++ matched.toList, fBad⟩) := by
  have next : tree.vHash[hashesBefore.length]? = some hash := by
    rw [hashes, getElem?_append_length]
  simp only [takeHash, next]

/-- The walk over a built subtree returns its hash and its matched leaves, and takes exactly the
bits and hashes that were stored for it. -/
theorem traverseAndExtract_of_built {vMatch : List Bool} (distinct : vTxid.Nodup)
    (noSecond : NoSecondPreimage hashPair (hashedPairs hashPair vTxid))
    (count : tree.nTransactions.toNat = vTxid.length) {height pos : Nat}
    (wide : ∀ lower < height, 1 < calcTreeWidth vTxid.length lower)
    (inside : pos < calcTreeWidth vTxid.length height)
    {bitsBefore bitsAfter : List Bool} {hashesBefore hashesAfter : List Uint256}
    (bits : tree.vBits =
      bitsBefore ++ ((traverseAndBuild hashPair vTxid vMatch height pos).1 ++ bitsAfter))
    (hashes : tree.vHash =
      hashesBefore ++ ((traverseAndBuild hashPair vTxid vMatch height pos).2 ++ hashesAfter))
    (found : List Uint256) (positions : List Nat) (fBad : Bool) :
    traverseAndExtract hashPair tree height pos
        ⟨bitsBefore.length, hashesBefore.length, found, positions, fBad⟩ =
      (calcHash hashPair vTxid height pos,
        ⟨bitsBefore.length + (traverseAndBuild hashPair vTxid vMatch height pos).1.length,
          hashesBefore.length + (traverseAndBuild hashPair vTxid vMatch height pos).2.length,
          found ++ (matchedPositions vTxid.length vMatch height pos).map (vTxid.getD · 0),
          positions ++ matchedPositions vTxid.length vMatch height pos, fBad⟩) := by
  induction height generalizing pos bitsBefore bitsAfter hashesBefore hashesAfter found positions fBad with
  | zero =>
    simp only [traverseAndBuild, singleton_append] at bits hashes
    have next : tree.vBits[bitsBefore.length]? =
        some (parentOfMatch vTxid.length vMatch 0 pos) := by
      rw [bits, getElem?_append_length]
    rw [traverseAndExtract]
    simp only [next, takeHash_of_next hashes]
    rw [matchedPositions_zero, traverseAndBuild]
    cases parentOfMatch vTxid.length vMatch 0 pos with
    | false => simp
    | true => simp [calcHash]
  | succ height ih =>
    have wideBelow : ∀ lower < height, 1 < calcTreeWidth vTxid.length lower :=
      fun lower less => wide lower (by omega)
    cases found' : parentOfMatch vTxid.length vMatch (height + 1) pos with
    | false =>
      rw [traverseAndBuild, found'] at bits hashes
      simp only [Bool.false_eq_true, if_false, singleton_append] at bits hashes
      have next : tree.vBits[bitsBefore.length]? = some false := by
        rw [bits, getElem?_append_length]
      rw [traverseAndExtract, traverseAndBuild, parentOfMatch_eq_false.mp found', found']
      simp only [next, takeHash_of_next hashes]
      simp
    | true =>
      have leftInside := pos_lt_of_succ inside
      rw [traverseAndBuild, found', if_pos rfl] at bits hashes
      rw [traverseAndBuild, found', if_pos rfl, matchedPositions_succ]
      dsimp only at bits hashes ⊢
      generalize rightEq : (if pos * 2 + 1 < calcTreeWidth vTxid.length height then
        traverseAndBuild hashPair vTxid vMatch height (pos * 2 + 1) else ([], [])) = right
        at bits hashes ⊢
      generalize leftEq : traverseAndBuild hashPair vTxid vMatch height (pos * 2) = left
        at bits hashes ⊢
      rw [cons_append, append_assoc] at bits
      rw [append_assoc] at hashes
      have next : tree.vBits[bitsBefore.length]? = some true := by
        rw [bits, getElem?_append_length]
      have leftBits : tree.vBits = bitsBefore ++ [true] ++
          ((traverseAndBuild hashPair vTxid vMatch height (pos * 2)).1 ++
            (right.1 ++ bitsAfter)) := by
        rw [bits, leftEq, append_assoc bitsBefore [true], singleton_append]
      have leftHashes : tree.vHash = hashesBefore ++
          ((traverseAndBuild hashPair vTxid vMatch height (pos * 2)).2 ++
            (right.2 ++ hashesAfter)) := by
        rw [hashes, leftEq]
      have leftWalk := ih wideBelow leftInside leftBits leftHashes found positions fBad
      rw [leftEq, length_append, length_singleton] at leftWalk
      rw [traverseAndExtract]
      simp only [next, leftWalk, count]
      by_cases rightInside : pos * 2 + 1 < calcTreeWidth vTxid.length height
      · rw [if_pos rightInside] at rightEq ⊢
        have rightBits : tree.vBits = bitsBefore ++ [true] ++ left.1 ++
            ((traverseAndBuild hashPair vTxid vMatch height (pos * 2 + 1)).1 ++ bitsAfter) := by
          rw [leftBits, leftEq, rightEq, append_assoc _ left.1]
        have rightHashes : tree.vHash = hashesBefore ++ left.2 ++
            ((traverseAndBuild hashPair vTxid vMatch height (pos * 2 + 1)).2 ++ hashesAfter) := by
          rw [leftHashes, leftEq, rightEq, append_assoc _ left.2]
        have rightWalk := ih wideBelow rightInside rightBits rightHashes
          (found ++ (matchedPositions vTxid.length vMatch height (pos * 2)).map (vTxid.getD · 0))
          (positions ++ matchedPositions vTxid.length vMatch height (pos * 2)) fBad
        have ne : calcHash hashPair vTxid height (pos * 2 + 1) ≠
            calcHash hashPair vTxid height (pos * 2) := by
          intro same
          have eq := calcHash_injective distinct noSecond (wide height (by omega)) leftInside
            rightInside same
          omega
        simp only [length_append, length_singleton, rightEq] at rightWalk
        rw [rightWalk, rejectRepeated, if_neg ne, calcHash_succ, childHashes, if_pos rightInside]
        simp [add_assoc, add_comm 1]
      · rw [if_neg rightInside] at rightEq ⊢
        subst rightEq
        rw [matchedPositions_outside rightInside, calcHash_succ, childHashes, if_neg rightInside]
        simp [add_assoc, add_comm 1]

theorem length_traverseAndBuild (vMatch : List Bool) (height pos : Nat) :
    (traverseAndBuild hashPair vTxid vMatch height pos).2.length ≤
        (traverseAndBuild hashPair vTxid vMatch height pos).1.length ∧
      (traverseAndBuild hashPair vTxid vMatch height pos).1.length < 2 ^ (height + 1) := by
  induction height generalizing pos with
  | zero => simp [traverseAndBuild]
  | succ height ih =>
    have left := ih (pos * 2)
    have right := ih (pos * 2 + 1)
    rw [Nat.pow_succ 2 (height + 1), traverseAndBuild]
    split
    next =>
      split
      next =>
        simp only [length_append, length_cons]
        omega
      next =>
        simp only [append_nil, length_cons]
        omega
    next =>
      have positive := Nat.two_pow_pos height
      rw [length_singleton, length_singleton]
      omega

theorem hashes_traverseAndBuild_le (vMatch : List Bool) {height pos : Nat}
    (inside : pos < calcTreeWidth vTxid.length height) :
    pos * 2 ^ height + (traverseAndBuild hashPair vTxid vMatch height pos).2.length ≤
      min ((pos + 1) * 2 ^ height) vTxid.length := by
  induction height generalizing pos with
  | zero =>
    rw [lt_calcTreeWidth] at inside
    simp only [traverseAndBuild, length_singleton]
    omega
  | succ height ih =>
    have positive := Nat.two_pow_pos height
    obtain ⟨start, middle, finish⟩ := leaves_of_children height pos
    have last : (pos * 2 + 1 + 1) * 2 ^ height = (pos * 2 + 1) * 2 ^ height + 2 ^ height :=
      succ_mul _ _
    have left := ih (pos_lt_of_succ inside)
    rw [lt_calcTreeWidth] at inside
    rw [traverseAndBuild]
    split
    next =>
      split
      next rightInside =>
        have right := ih rightInside
        rw [length_append]
        omega
      next =>
        simp only [append_nil]
        omega
    next =>
      rw [length_singleton]
      omega

/-! ## Walking any tree -/

theorem takeHash_of_good {matched : Option Nat} {state : Extraction}
    (good : (takeHash tree matched state).2.fBad = false) :
    state.fBad = false ∧ (takeHash tree matched state).2.vMatch =
        state.vMatch ++ (matched.map fun _ => (takeHash tree matched state).1).toList ∧
      (takeHash tree matched state).2.vnIndex = state.vnIndex ++ matched.toList := by
  rw [takeHash] at good ⊢
  split at good
  · cases good
  · exact ⟨good, rfl, rfl⟩

theorem fBad_rejectRepeated {left right : Uint256} {state : Extraction}
    (good : (rejectRepeated left right state).fBad = false) :
    state.fBad = false ∧ rejectRepeated left right state = state := by
  rw [rejectRepeated] at good ⊢
  split at good
  next => cases good
  next ne => exact ⟨good, if_neg ne⟩

/-- A walk that takes the hash of a node of the list's tree, and does not mark the tree as bad,
finds leaves of the list below that node, from left to right. -/
theorem traverseAndExtract_sound (noSecond : NoSecondPreimage hashPair (hashedPairs hashPair vTxid))
    (count : tree.nTransactions.toNat = vTxid.length) {height pos : Nat} {state : Extraction}
    (wide : ∀ lower < height, 1 < calcTreeWidth vTxid.length lower)
    (inside : pos < calcTreeWidth vTxid.length height)
    (good : (traverseAndExtract hashPair tree height pos state).2.fBad = false)
    (hash : (traverseAndExtract hashPair tree height pos state).1 =
      calcHash hashPair vTxid height pos) :
    state.fBad = false ∧ ∃ positions : List Nat,
      (traverseAndExtract hashPair tree height pos state).2.vMatch =
        state.vMatch ++ positions.map (vTxid.getD · 0) ∧
      (traverseAndExtract hashPair tree height pos state).2.vnIndex = state.vnIndex ++ positions ∧
      positions.Pairwise (· < ·) ∧
      ∀ p ∈ positions, pos * 2 ^ height ≤ p ∧ p < (pos + 1) * 2 ^ height ∧ p < vTxid.length := by
  induction height generalizing pos state with
  | zero =>
    rw [traverseAndExtract] at good hash ⊢
    rw [lt_calcTreeWidth] at inside
    cases bit : tree.vBits[state.nBitsUsed]? with
    | none =>
      rw [bit] at good
      cases good
    | some flag =>
      simp only [bit] at good hash ⊢
      obtain ⟨stateGood, found, indexes⟩ := takeHash_of_good good
      rw [hash] at found
      refine ⟨stateGood, (if flag then some pos else none).toList, ?_, indexes, ?_, ?_⟩
      · cases flag with
        | false => exact found
        | true => exact found
      · cases flag with
        | false => exact List.Pairwise.nil
        | true => exact pairwise_singleton _ _
      · intro p mem
        cases flag with
        | false => cases mem
        | true =>
          obtain rfl : p = pos := mem_singleton.mp mem
          omega
  | succ height ih =>
    have wideBelow : ∀ lower < height, 1 < calcTreeWidth vTxid.length lower :=
      fun lower less => wide lower (by omega)
    rw [traverseAndExtract] at good hash ⊢
    cases bit : tree.vBits[state.nBitsUsed]? with
    | none =>
      rw [bit] at good
      cases good
    | some flag =>
      cases flag with
      | false =>
        simp only [bit] at good ⊢
        obtain ⟨stateGood, found, indexes⟩ := takeHash_of_good good
        exact ⟨stateGood, [], found, indexes, List.Pairwise.nil, by simp⟩
      | true =>
        simp only [bit, count] at good hash ⊢
        have leftInside := pos_lt_of_succ inside
        have leftSound := @ih (pos * 2) { state with nBitsUsed := state.nBitsUsed + 1 }
          wideBelow leftInside
        generalize traverseAndExtract hashPair tree height (pos * 2)
          { state with nBitsUsed := state.nBitsUsed + 1 } = left at good hash leftSound ⊢
        have pairHashed := noSecond _ (childHashes_mem (wide height (lt_succ_self height)) inside)
        obtain ⟨start, middle, finish⟩ := leaves_of_children height pos
        have last : (pos * 2 + 1 + 1) * 2 ^ height = (pos * 2 + 1) * 2 ^ height + 2 ^ height :=
          succ_mul _ _
        by_cases rightInside : pos * 2 + 1 < calcTreeWidth vTxid.length height
        · rw [if_pos rightInside] at good hash ⊢
          have rightSound := @ih (pos * 2 + 1) left.2 wideBelow rightInside
          generalize traverseAndExtract hashPair tree height (pos * 2 + 1) left.2 = right
            at good hash rightSound ⊢
          obtain ⟨rightGood, unchanged⟩ := fBad_rejectRepeated good
          rw [calcHash_succ] at hash
          obtain ⟨leftHash, rightHash⟩ := pairHashed _ _ hash
          rw [childHashes, if_pos rightInside] at leftHash rightHash
          obtain ⟨leftGood, rights, rightMatches, rightIndexes, rightSorted, rightBounds⟩ :=
            rightSound rightGood rightHash
          obtain ⟨stateGood, lefts, leftMatches, leftIndexes, leftSorted, leftBounds⟩ :=
            leftSound leftGood leftHash
          refine ⟨stateGood, lefts ++ rights, ?_, ?_, ?_, ?_⟩
          · rw [unchanged, rightMatches, leftMatches, map_append, append_assoc]
          · rw [unchanged, rightIndexes, leftIndexes, append_assoc]
          · refine pairwise_append.mpr ⟨leftSorted, rightSorted, ?_⟩
            intro first firstMember second secondMember
            have firstBound := (leftBounds first firstMember).2.1
            have secondBound := (rightBounds second secondMember).1
            omega
          · intro p mem
            rcases mem_append.mp mem with inLeft | inRight
            · have bounds := leftBounds p inLeft
              omega
            · have bounds := rightBounds p inRight
              omega
        · rw [if_neg rightInside] at good hash ⊢
          rw [calcHash_succ] at hash
          have leftHash := (pairHashed _ _ hash).1
          obtain ⟨stateGood, lefts, leftMatches, leftIndexes, leftSorted, leftBounds⟩ :=
            leftSound good leftHash
          refine ⟨stateGood, lefts, leftMatches, leftIndexes, leftSorted, ?_⟩
          intro p mem
          have bounds := leftBounds p mem
          omega

end Walks

/-! ## The whole tree -/

section Trees

variable {hashPair : HashPair}

theorem unserialize_serialize (tree : CPartialMerkleTree) (rest : List UInt8)
    (hashes : tree.vHash.length ≤ maxSize) (bits : (bitsToBytes tree.vBits).length ≤ maxSize) :
    unserialize ⟨tree.serialize ++ rest⟩ =
      .ok (⟨tree.nTransactions, bytesToBits (bitsToBytes tree.vBits), tree.vHash, false⟩, ⟨rest⟩) := by
  have recognizes : Reader.Recognizes unserialize _ :=
    recognizes_readUInt32.bindEncoded fun count _ =>
    (recognizes_unserializeVector recognizes_readHash).bindEncoded fun vHash _ =>
      recognizes_unserializeBytes.map fun bytes =>
        (⟨count, bytesToBits bytes, vHash, false⟩ : CPartialMerkleTree)
  apply (recognizes ⟨tree.serialize ++ rest⟩ _ ⟨rest⟩).mpr
  refine ⟨tree.serialize, ⟨tree.nTransactions, _, trivial, ⟨tree.vHash, _, ⟨hashes, fun _ _ => trivial⟩,
    ⟨bitsToBytes tree.vBits, ⟨rfl, bits⟩, rfl⟩, rfl⟩, ?_⟩, prefix_append _ _, ?_⟩
  · rw [serialize, append_assoc]
  · exact congrArg ByteReader.mk (drop_left).symm

theorem treeHeight_le {count : Nat} (few : count ≤ maxMerkleTransactions) :
    treeHeight count 0 ≤ 15 := by
  rw [treeHeight_eq_clog (zero_le _), clog_le_iff_le_pow Nat.one_lt_two]
  exact le_trans few (by decide)

variable {vTxid : List Uint256}

theorem extractMatches_of_built {vMatch : List Bool} {padding : List Bool} (ne : vTxid ≠ [])
    (few : vTxid.length ≤ maxMerkleTransactions) (distinct : vTxid.Nodup)
    (noSecond : NoSecondPreimage hashPair (hashedPairs hashPair vTxid))
    {built : List Bool × List Uint256}
    (builtEq : traverseAndBuild hashPair vTxid vMatch (treeHeight vTxid.length 0) 0 = built)
    (padded : (built.1 ++ padding).length = (built.1.length + 7) / 8 * 8) :
    extractMatches hashPair ⟨vTxid.length.toUInt32, built.1 ++ padding, built.2, false⟩ [] =
      ⟨(computeMerkleRootWithMutation hashPair vTxid).1,
        ((range vTxid.length).filter fun p => vMatch.getD p false).map (vTxid.getD · 0),
        (range vTxid.length).filter fun p => vMatch.getD p false⟩ := by
  have positive : 0 < vTxid.length := length_pos_iff.mpr ne
  have count : (vTxid.length.toUInt32).toNat = vTxid.length := by
    have limit : maxMerkleTransactions < 2 ^ 32 := by decide
    exact mod_eq_of_lt (by omega)
  have hashesFew := @hashes_traverseAndBuild_le hashPair vTxid vMatch _ _ (root_inside ne)
  have hashesBits :=
    (@length_traverseAndBuild hashPair vTxid vMatch (treeHeight vTxid.length 0) 0).1
  have walk := @traverseAndExtract_of_built hashPair
    ⟨vTxid.length.toUInt32, built.1 ++ padding, built.2, false⟩ vTxid vMatch distinct noSecond count
    (treeHeight vTxid.length 0) 0 (fun lower => one_lt_calcTreeWidth_of_lt_treeHeight)
    (root_inside ne) [] padding [] [] (by rw [builtEq]; rfl) (by rw [builtEq, append_nil]; rfl) [] [] false
  rw [builtEq] at hashesFew hashesBits walk
  have ok : ¬(vTxid.length.toUInt32 = 0 ∨ maxMerkleTransactions < vTxid.length.toUInt32.toNat ∨
      vTxid.length.toUInt32.toNat < built.2.length ∨
      (built.1 ++ padding).length < built.2.length) := by
    rw [count, length_append]
    intro refused
    rcases refused with zero | many | manyHashes | fewBits
    · rw [zero] at count
      exact absurd count.symm (ne_of_gt positive)
    · omega
    · omega
    · omega
  have consumed : ¬((false : Bool) = true ∨
      (0 + built.1.length + 7) / 8 ≠ ((built.1 ++ padding).length + 7) / 8 ∨
      0 + built.2.length ≠ built.2.length) := by
    rw [padded]
    intro refused
    rcases refused with bad | bitsLeft | hashesLeft
    · cases bad
    · omega
    · omega
  rw [length_nil, length_nil] at walk
  rw [extractMatches, if_neg ok]
  dsimp only
  rw [count, walk, if_neg consumed, calcHash_treeHeight ne, matchedPositions_root]
  rfl

/-- A built tree survives its serialization, and its extraction returns the root of the list and
the matched leaves with their positions. -/
theorem extractMatches_ofTxids (vMatch : List Bool) (rest : List UInt8) (ne : vTxid ≠ [])
    (few : vTxid.length ≤ maxMerkleTransactions) (distinct : vTxid.Nodup)
    (noSecond : NoSecondPreimage hashPair (hashedPairs hashPair vTxid)) :
    ∃ tree received, ofTxids hashPair vTxid vMatch = .ok tree ∧
      unserialize ⟨tree.serialize ++ rest⟩ = .ok (received, ⟨rest⟩) ∧
      extractMatches hashPair received [] = ⟨(computeMerkleRootWithMutation hashPair vTxid).1,
          ((range vTxid.length).filter fun p => vMatch.getD p false).map (vTxid.getD · 0),
          (range vTxid.length).filter fun p => vMatch.getD p false⟩ := by
  have hashesFew := @hashes_traverseAndBuild_le hashPair vTxid vMatch _ _ (root_inside ne)
  have bitsFew := (@length_traverseAndBuild hashPair vTxid vMatch (treeHeight vTxid.length 0) 0).2
  have bitsLimit : 2 ^ (treeHeight vTxid.length 0 + 1) ≤ 2 ^ 16 :=
    Nat.pow_le_pow_right Nat.two_pos (succ_le_succ (treeHeight_le few))
  generalize builtEq : traverseAndBuild hashPair vTxid vMatch (treeHeight vTxid.length 0) 0 = built
    at hashesFew bitsFew
  obtain ⟨padding, unpacked, padded⟩ := bytesToBits_bitsToBytes built.1
  have hashesSize : built.2.length ≤ maxSize := by
    have limit : maxMerkleTransactions ≤ maxSize := by decide
    omega
  have bitsSize : (bitsToBytes built.1).length ≤ maxSize := by
    rw [bitsToBytes, length_map, length_range, maxSize]
    omega
  refine ⟨⟨vTxid.length.toUInt32, built.1, built.2, false⟩,
    ⟨vTxid.length.toUInt32, built.1 ++ padding, built.2, false⟩, ?_, ?_,
    extractMatches_of_built ne few distinct noSecond builtEq padded⟩
  · rw [ofTxids, builtEq]
    cases vTxid with
    | nil => exact absurd rfl ne
    | cons first others => rfl
  · rw [unserialize_serialize ⟨vTxid.length.toUInt32, built.1, built.2, false⟩ rest hashesSize
      bitsSize, unpacked]

theorem computeMerkleRoot_ne_zero (ne : vTxid ≠ []) (txidsNonzero : ∀ txid ∈ vTxid, txid ≠ 0)
    (hashesNonzero : ∀ left right, hashPair left right ≠ 0) :
    (computeMerkleRootWithMutation hashPair vTxid).1 ≠ 0 := by
  rw [← calcHash_treeHeight ne]
  cases treeHeight vTxid.length 0 with
  | zero =>
    obtain ⟨first, others, rfl⟩ := exists_cons_of_ne_nil ne
    exact txidsNonzero first mem_cons_self
  | succ height => exact hashesNonzero _ _

theorem extractMatches_sound {tree : CPartialMerkleTree}
    (count : tree.nTransactions.toNat = vTxid.length) (txidsNonzero : ∀ txid ∈ vTxid, txid ≠ 0)
    (hashesNonzero : ∀ left right, hashPair left right ≠ 0)
    (noSecond : NoSecondPreimage hashPair (hashedPairs hashPair vTxid))
    (root : (extractMatches hashPair tree []).root =
      (computeMerkleRootWithMutation hashPair vTxid).1) :
    ∃ positions : List Nat, (extractMatches hashPair tree []).vnIndex = positions ∧
      (extractMatches hashPair tree []).vMatch = positions.map (vTxid.getD · 0) ∧
      positions.Pairwise (· < ·) ∧ ∀ p ∈ positions, p < vTxid.length := by
  rw [extractMatches] at root ⊢
  split at root
  next refused =>
    -- nothing was walked
    rw [if_pos refused]
    exact ⟨[], rfl, rfl, List.Pairwise.nil, by simp⟩
  next ok =>
    rw [if_neg ok]
    have ne : vTxid ≠ [] := by
      intro empty
      rw [empty] at count
      exact ok (Or.inl (UInt32.toNat_inj.mp count))
    have rootNonzero := computeMerkleRoot_ne_zero ne txidsNonzero hashesNonzero
    dsimp only at root ⊢
    split at root
    next => exact absurd root.symm rootNonzero
    next walked =>
      rw [if_neg walked]
      rw [count] at root walked ⊢
      rw [← calcHash_treeHeight ne] at root
      have good := Bool.eq_false_iff.mpr fun bad => walked (Or.inl bad)
      obtain ⟨-, positions, foundEq, indexesEq, sorted, bounds⟩ :=
        traverseAndExtract_sound noSecond count
          (fun lower => one_lt_calcTreeWidth_of_lt_treeHeight) (root_inside ne) good root
      exact ⟨positions, indexesEq, foundEq, sorted, fun p mem => (bounds p mem).2.2⟩

end Trees

/-- Partial trees are complete: a built tree, after its serialization, yields the Merkle root and
the matched leaves with their positions.  They are sound: whatever bits and hashes a tree holds,
if it yields the Merkle root of a list of as many leaves, it yields leaves of that list at
increasing positions. -/
theorem partialMerkleTree_complete_and_sound (hashPair : Uint256 → Uint256 → Uint256) :
    (∀ (vTxid : List Uint256) (vMatch : List Bool) (rest : List UInt8), vTxid ≠ [] →
      vTxid.length ≤ maxMerkleTransactions → vTxid.Nodup →
      NoSecondPreimage hashPair (hashedPairs hashPair vTxid) →
      ∃ tree received, ofTxids hashPair vTxid vMatch = .ok tree ∧
        unserialize ⟨tree.serialize ++ rest⟩ = .ok (received, ⟨rest⟩) ∧
        extractMatches hashPair received [] = ⟨(computeMerkleRootWithMutation hashPair vTxid).1,
            ((List.range vTxid.length).filter fun p => vMatch.getD p false).map (vTxid.getD · 0),
            (List.range vTxid.length).filter fun p => vMatch.getD p false⟩) ∧
    ∀ (tree : CPartialMerkleTree) (vTxid : List Uint256),
      tree.nTransactions.toNat = vTxid.length → (∀ txid ∈ vTxid, txid ≠ 0) →
      (∀ left right, hashPair left right ≠ 0) →
      NoSecondPreimage hashPair (hashedPairs hashPair vTxid) →
      (extractMatches hashPair tree []).root = (computeMerkleRootWithMutation hashPair vTxid).1 →
      (extractMatches hashPair tree []).vMatch.length =
          (extractMatches hashPair tree []).vnIndex.length ∧
        (extractMatches hashPair tree []).vnIndex.Pairwise (· < ·) ∧
        ∀ pair ∈ (extractMatches hashPair tree []).vMatch.zip
          (extractMatches hashPair tree []).vnIndex, vTxid[pair.2]? = some pair.1 := by
  constructor
  · intro vTxid vMatch rest nonempty few distinct noSecond
    exact extractMatches_ofTxids vMatch rest nonempty few distinct noSecond
  · intro tree vTxid count txidsNonzero hashesNonzero noSecond root
    obtain ⟨positions, indexes, found, sorted, bounds⟩ :=
      extractMatches_sound count txidsNonzero hashesNonzero noSecond root
    rw [indexes, found]
    refine ⟨length_map _, sorted, ?_⟩
    intro pair member
    rw [zip_map_left, zip_eq_zipWith, zipWith_self, map_map] at member
    obtain ⟨position, positionMember, rfl⟩ := mem_map.mp member
    have inside := bounds position positionMember
    simp [inside]

theorem treeHeight_three : treeHeight (UInt32.toNat 3) 0 = 2 := by
  rw [treeHeight_eq_clog (zero_le _)]
  decide

theorem extractMatches_three :
    extractMatches threeLeafHash ⟨3, [true, true, false, true, false], [1, 2, 11], false⟩ [] =
      ⟨12, [2], [1]⟩ := by
  have walked : traverseAndExtract threeLeafHash
      ⟨3, [true, true, false, true, false], [1, 2, 11], false⟩ 2 0 ⟨0, 0, [], [], false⟩ =
        (12, ⟨5, 3, [2], [1], false⟩) := by
    simp [traverseAndExtract, takeHash, calcTreeWidth, rejectRepeated, threeLeafHash]
  rw [extractMatches, if_neg (by decide), treeHeight_three]
  dsimp only
  rw [walked, if_neg (by decide)]

/-- Three leaves of which the second is matched. -/
theorem partialMerkleTree_complete_and_sound_three : (∃ tree received,
      ofTxids threeLeafHash [1, 2, 3] [false, true, false] = .ok tree ∧
        unserialize ⟨tree.serialize ++ [7]⟩ = .ok (received, ⟨[7]⟩) ∧
        extractMatches threeLeafHash received [] =
          ⟨(computeMerkleRootWithMutation threeLeafHash [1, 2, 3]).1,
            ((List.range 3).filter fun p => [false, true, false].getD p false).map
              (([1, 2, 3] : List Uint256).getD · 0),
            (List.range 3).filter fun p => [false, true, false].getD p false⟩) ∧
      (extractMatches threeLeafHash ⟨3, [true, true, false, true, false], [1, 2, 11], false⟩
        []).vnIndex.Pairwise (· < ·) := by
  have applied := partialMerkleTree_complete_and_sound threeLeafHash
  refine ⟨applied.1 [1, 2, 3] [false, true, false] [7] (by decide) (by decide) (by decide)
    threeLeafHash_noSecondPreimage, ?_⟩
  refine (applied.2 ⟨3, [true, true, false, true, false], [1, 2, 11], false⟩ [1, 2, 3] rfl
    (by simp) ?_ threeLeafHash_noSecondPreimage ?_).2.1
  · intro left right
    grind [threeLeafHash]
  · rw [extractMatches_three, computeMerkleRoot_of_long (by decide),
      computeMerkleRoot_of_long (by decide), computeMerkleRoot_of_short (by decide)]
    decide +kernel

end Champy
