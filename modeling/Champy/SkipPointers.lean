import Champy.BlockTree
import Champy.CheckedExecution
import Champy.MeasuredLoops
import Mathlib.Logic.Relation

/-!
# Skip pointers

Besides its parent a block points to an ancestor further back, at a height that only depends on its
own.  `GetAncestor` follows either pointer, and `BuildSkip` uses it to set the pointer of a new
block.  Blocks of one height have pointers of one height, so that `LastCommonAncestor` may follow
them in both branches while they differ.
-/

namespace Champy

/-- Turn the lowest bit that is set off. -/
def invertLowestOne (n : Nat) : Nat :=
  n &&& (n - 1)

def getSkipHeight (height : Nat) : Nat :=
  if height < 2 then 0
  else if height &&& 1 ≠ 0 then invertLowestOne (invertLowestOne (height - 1)) + 1
  else invertLowestOne height

theorem getSkipHeight_lt {height : Nat} (pos : 0 < height) : getSkipHeight height < height := by
  have once : invertLowestOne height ≤ height - 1 := Nat.and_le_right
  have below : invertLowestOne (height - 1) ≤ height - 1 - 1 := Nat.and_le_right
  have twice : invertLowestOne (invertLowestOne (height - 1)) ≤ invertLowestOne (height - 1) :=
    Nat.and_le_left
  rw [getSkipHeight]
  split
  · exact pos
  · split <;> omega

namespace BlockTree

variable {Block : Type} (tree : BlockTree Block)

/-! ## Following the pointers -/

section Pointers

variable (pskip : Block → Option Block)

/-- A round of the loop of `GetAncestor`. -/
def ancestorRound (height : Nat) (walk : Block × Nat) : Except Fault (Block ⊕ Block × Nat) :=
  if walk.2 ≤ height then .ok (.inl walk.1)
  else
    let heightSkip := getSkipHeight walk.2
    let heightSkipPrev := getSkipHeight (walk.2 - 1)
    let follows := heightSkip = height ∨
      heightSkip > height ∧ ¬ (heightSkipPrev + 2 < heightSkip ∧ heightSkipPrev ≥ height)
    match (pskip walk.1).filter fun _ => follows, tree.pprev walk.1 with
    | some skip, _ => .ok (.inr (skip, heightSkip))
    | none, some parent => .ok (.inr (parent, walk.2 - 1))
    | none, none => .error .assertion

def ancestorLoop (height : Nat) : MeasuredLoop (Block × Nat) Fault Block where
  round := tree.ancestorRound pskip height
  measure walk := walk.2
  decreases := by
    intro walk next ran
    rw [ancestorRound] at ran
    split at ran
    · cases ran
    next above =>
      have skips := getSkipHeight_lt (show 0 < walk.2 by omega)
      dsimp only at ran
      split at ran <;> cases ran
      · exact skips
      · dsimp only
        omega

/-- `GetAncestor` with the pointers that are there. -/
def skipAncestor (block : Block) (height : Int) : Except Fault (Option Block) :=
  if height > tree.nHeight block ∨ height < 0 then .ok none
  else ((tree.ancestorLoop pskip height.toNat).run (block, tree.nHeight block)).map some

/-- A pointer that is set leads from the parent back to the height that belongs to it. -/
def ValidSkips : Prop :=
  ∀ {block skip}, pskip block = some skip → ∃ parent, tree.pprev block = some parent ∧
    tree.getAncestor parent (getSkipHeight (tree.nHeight block) : Nat) = some skip

/-- The walk stands on an ancestor at or above the height that it looks for. -/
def OnTheWay (block : Block) (height : Nat) (walk : Block × Nat) : Prop :=
  tree.getAncestor block walk.2 = some walk.1 ∧ height ≤ walk.2

variable {tree pskip} {block parent skip : Block}

theorem getAncestor_parent (parentEq : tree.pprev block = some parent) {height : Int}
    (below : height < tree.nHeight block) :
    tree.getAncestor parent height = tree.getAncestor block height := by
  have heightEq := tree.nHeight_of_pprev parentEq
  have found := pprev_of_getAncestor (tree.getAncestor_self block)
  rw [parentEq] at found
  exact getAncestor_getAncestor found.symm (by omega)

variable (valid : tree.ValidSkips pskip)
include valid

theorem getAncestor_skip (pointed : pskip block = some skip) :
    tree.getAncestor block (tree.nHeight skip : Nat) = some skip ∧
      tree.nHeight skip = getSkipHeight (tree.nHeight block) ∧
      tree.nHeight skip < tree.nHeight block := by
  obtain ⟨parent, parentEq, found⟩ := valid pointed
  have above := tree.nHeight_of_pprev parentEq
  have less := getSkipHeight_lt (show 0 < tree.nHeight block by omega)
  have height : tree.nHeight skip = getSkipHeight (tree.nHeight block) := by
    simpa using (nHeight_getAncestor found).2.1
  rw [getAncestor_parent parentEq (by omega), ← height] at found
  exact ⟨found, height, by omega⟩

theorem ancestorRound_spec {height : Nat} {walk : Block × Nat}
    (onTheWay : tree.OnTheWay block height walk) :
    ∃ outcome, tree.ancestorRound pskip height walk = .ok outcome ∧
      Sum.elim (fun ancestor => tree.getAncestor block height = some ancestor)
        (tree.OnTheWay block height) outcome := by
  obtain ⟨walk, heightWalk⟩ := walk
  obtain ⟨reached, above⟩ := onTheWay
  dsimp only at reached above
  have walkHeight : tree.nHeight walk = heightWalk := by
    simpa using (nHeight_getAncestor reached).2.1
  have parent := pprev_of_getAncestor reached
  rw [ancestorRound]
  dsimp only
  split
  next arrived =>
    obtain rfl : height = heightWalk := le_antisymm above arrived
    exact ⟨_, rfl, reached⟩
  next further =>
    have less := getSkipHeight_lt (show 0 < heightWalk by omega)
    split
    next skip followed =>
      obtain ⟨pointed, follows⟩ := Option.filter_eq_some_iff.mp followed
      obtain ⟨back, skipHeight, -⟩ := getAncestor_skip valid pointed
      rw [skipHeight, walkHeight, getAncestor_getAncestor reached (by omega)] at back
      rw [decide_eq_true_eq] at follows
      exact ⟨_, rfl, back, by dsimp only; omega⟩
    next up _ parentEq =>
      have one : ((heightWalk - 1 : Nat) : Int) = heightWalk - 1 := by omega
      refine ⟨_, rfl, ?_, by dsimp only; omega⟩
      rw [one, ← parent, parentEq]
    next _ parentEq =>
      have genesis := tree.nHeight_of_genesis parentEq
      omega

theorem skipAncestor_eq (block : Block) (height : Int) :
    tree.skipAncestor pskip block height = .ok (tree.getAncestor block height) := by
  rw [skipAncestor]
  by_cases outside : height > tree.nHeight block ∨ height < 0
  · rw [if_pos outside, getAncestor, if_pos outside]
  · have natural : (height.toNat : Int) = height := Int.toNat_of_nonneg (by omega)
    have start : tree.OnTheWay block height.toNat (block, tree.nHeight block) :=
      ⟨getAncestor_self block, by dsimp only; omega⟩
    obtain ⟨ancestor, ran, found⟩ := (tree.ancestorLoop pskip height.toNat).run_spec
      (fun _ => ancestorRound_spec valid) start
    rw [if_neg outside, ran, ← natural, found]
    rfl

end Pointers

/-! ## Building the pointers -/

section Building

variable [DecidableEq Block]

def buildSkip (pskip : Block → Option Block) (block : Block) :
    Except Fault (Block → Option Block) :=
  match tree.pprev block with
  | none => .ok pskip
  | some parent => do
      let skip ← tree.skipAncestor pskip parent (getSkipHeight (tree.nHeight block) : Nat)
      pure (Function.update pskip block skip)

/-- The pointers after `BuildSkip` for blocks in the order in which they are added. -/
def buildSkips (order : List Block) : Except Fault (Block → Option Block) :=
  order.foldlM tree.buildSkip fun _ => none

/-- Every block that was added has its pointer. -/
def SkipsOf (added : List Block) (pskip : Block → Option Block) : Prop :=
  ∀ block, pskip block = if block ∈ added then
    (tree.pprev block).bind fun parent =>
      tree.getAncestor parent (getSkipHeight (tree.nHeight block) : Nat) else none

variable {tree} {added : List Block} {pskip : Block → Option Block}

theorem SkipsOf.valid (skips : tree.SkipsOf added pskip) : tree.ValidSkips pskip := by
  intro block skip pointed
  rw [skips] at pointed
  split at pointed
  · exact Option.bind_eq_some_iff.mp pointed
  · cases pointed

theorem SkipsOf.buildSkip (skips : tree.SkipsOf added pskip) (block : Block) :
    ∃ next, tree.buildSkip pskip block = .ok next ∧ tree.SkipsOf (added ++ [block]) next := by
  rw [BlockTree.buildSkip]
  cases parentEq : tree.pprev block with
  | none =>
    refine ⟨pskip, rfl, ?_⟩
    intro other
    by_cases same : other = block
    · simp [same, skips block, parentEq]
    · simp [skips other, same]
  | some parent =>
    dsimp only
    rw [skipAncestor_eq skips.valid]
    refine ⟨_, rfl, ?_⟩
    intro other
    by_cases same : other = block
    · simp [same, parentEq]
    · simp [skips other, same]

theorem buildSkips_spec (tree : BlockTree Block) (order : List Block) :
    ∃ pskip, tree.buildSkips order = .ok pskip ∧ tree.SkipsOf order pskip := by
  induction order using List.reverseRecOn with
  | nil => exact ⟨_, rfl, fun _ => rfl⟩
  | append_singleton order block ih =>
    obtain ⟨pskip, built, skips⟩ := ih
    obtain ⟨next, builtNext, skipsNext⟩ := skips.buildSkip block
    refine ⟨next, ?_, skipsNext⟩
    rw [buildSkips] at built ⊢
    rw [List.foldlM_append, built]
    exact (bind_pure _).trans builtNext

end Building

/-! ## Common ancestors -/

section Common

/-- The blocks on the way back from a block, with the block itself. -/
def IsAncestor (ancestor block : Block) : Prop :=
  Relation.ReflTransGen (fun child parent => tree.pprev child = some parent) block ancestor

variable {tree} in
theorem isAncestor_iff {ancestor block : Block} : tree.IsAncestor ancestor block ↔
      tree.getAncestor block (tree.nHeight ancestor : Nat) = some ancestor := by
  constructor
  · intro path
    induction path with
    | refl => exact getAncestor_self block
    | @tail middle ancestor _ parentEq ih =>
      have height := tree.nHeight_of_pprev parentEq
      have found := pprev_of_getAncestor ih
      rw [parentEq, height] at found
      simpa using found.symm
  · intro found
    rw [getAncestor] at found
    split at found
    · cases found
    next =>
      generalize tree.nHeight block - _ = steps at found
      clear * - found
      induction steps generalizing block with
      | zero =>
        cases found
        exact .refl
      | succ steps ih =>
        obtain ⟨parent, parentEq, found⟩ := Option.bind_eq_some_iff.mp found
        exact .head parentEq (ih found)

variable (pskip : Block → Option Block)

/-- Back to the height of the other block, if that is lower. -/
def rewind (block other : Block) : Except Fault Block :=
  if tree.nHeight block > tree.nHeight other then do
    let ancestor ← tree.skipAncestor pskip block (tree.nHeight other : Nat)
    ancestor.elim (.error .nullPointer) .ok
  else .ok block

section Meeting

variable {tree pskip} {first second : Block}

theorem isAncestor_of_getAncestor {block middle ancestor : Block} {height : Int}
    (found : tree.getAncestor block height = some middle) :
    tree.IsAncestor ancestor middle ↔
      tree.IsAncestor ancestor block ∧ tree.nHeight ancestor ≤ height := by
  obtain ⟨-, heightEq, -⟩ := nHeight_getAncestor found
  rw [isAncestor_iff, isAncestor_iff]
  constructor
  · intro below
    have atMost := (nHeight_getAncestor below).2.2
    rw [getAncestor_getAncestor found (by omega)] at below
    exact ⟨below, by omega⟩
  · rintro ⟨below, low⟩
    rwa [getAncestor_getAncestor found low]

theorem exists_pprev {block : Block} (pos : 0 < tree.nHeight block) :
    ∃ parent, tree.pprev block = some parent := by
  apply Option.ne_none_iff_exists'.mp
  intro genesis
  rw [tree.nHeight_of_genesis genesis] at pos
  omega

/-- Two blocks of one height, with the common ancestors of two others. -/
structure Meets (tree : BlockTree Block) (first second : Block) (pair : Block × Block) : Prop where
  nHeight_eq : tree.nHeight pair.1 = tree.nHeight pair.2
  common_iff : ∀ other, tree.IsAncestor other first ∧ tree.IsAncestor other second ↔
    tree.IsAncestor other pair.1 ∧ tree.IsAncestor other pair.2

/-- Going back in both branches to a height that no common ancestor is above. -/
theorem meets_of_getAncestor {pa pb pa' pb' : Block} {height : Int}
    (common_iff : ∀ other, tree.IsAncestor other first ∧ tree.IsAncestor other second ↔
      tree.IsAncestor other pa ∧ tree.IsAncestor other pb)
    (backA : tree.getAncestor pa height = some pa') (backB : tree.getAncestor pb height = some pb')
    (low : ∀ other, tree.IsAncestor other pa → tree.IsAncestor other pb →
      tree.nHeight other ≤ height) : tree.Meets first second (pa', pb') := by
  constructor
  · have heightA := (nHeight_getAncestor backA).2.1
    have heightB := (nHeight_getAncestor backB).2.1
    dsimp only
    omega
  · intro other
    rw [common_iff, isAncestor_of_getAncestor backA, isAncestor_of_getAncestor backB]
    constructor
    · rintro ⟨ofA, ofB⟩
      exact ⟨⟨ofA, low other ofA ofB⟩, ofB, low other ofA ofB⟩
    · rintro ⟨⟨ofA, -⟩, ofB, -⟩
      exact ⟨ofA, ofB⟩

theorem rewind_spec (valid : tree.ValidSkips pskip) (block other : Block) :
    ∃ res, tree.rewind pskip block other = .ok res ∧
      tree.getAncestor block (min (tree.nHeight block) (tree.nHeight other) : Nat) = some res := by
  rw [rewind]
  split
  next above =>
    obtain ⟨ancestor, found, -⟩ := exists_getAncestor (le_of_lt above)
    rw [skipAncestor_eq valid, found, min_eq_right (le_of_lt above)]
    exact ⟨ancestor, rfl, found⟩
  next within =>
    rw [min_eq_left (by omega)]
    exact ⟨block, rfl, getAncestor_self block⟩

end Meeting

variable [DecidableEq Block]

/-- A round of the two loops of `LastCommonAncestor`.  The inner loop leaves two different
blocks, so that its rounds are rounds of the outer one. -/
def commonRound (pair : Block × Block) : Except Fault (Block ⊕ Block × Block) :=
  if pair.1 = pair.2 then .ok (.inl pair.1)
  else if pskip pair.1 ≠ pskip pair.2 then
    match pskip pair.1, pskip pair.2 with
    | some first, some second =>
      if tree.nHeight pair.1 = tree.nHeight pair.2 ∧ tree.nHeight first = tree.nHeight second then
        .ok (.inr (first, second))
      else .error .assertion
    | _, _ => .error .nullPointer
  else
    match tree.pprev pair.1, tree.pprev pair.2 with
    | some first, some second => .ok (.inr (first, second))
    | _, _ => .error .nullPointer

def commonLoop (valid : tree.ValidSkips pskip) : MeasuredLoop (Block × Block) Fault Block where
  round := tree.commonRound pskip
  measure pair := tree.nHeight pair.1
  decreases := by
    intro pair next ran
    rw [commonRound] at ran
    split at ran
    · cases ran
    · split at ran
      · split at ran
        next pointed _ =>
          split at ran
          · cases ran
            exact (getAncestor_skip valid pointed).2.2
          · cases ran
        · cases ran
      · split at ran
        next parentEq _ =>
          cases ran
          rw [tree.nHeight_of_pprev parentEq]
          exact Nat.lt_succ_self _
        · cases ran

def lastCommonAncestor (valid : tree.ValidSkips pskip) (first second : Block) :
    Except Fault Block := do
  let pa ← tree.rewind pskip first second
  let pb ← tree.rewind pskip second first
  (tree.commonLoop pskip valid).run (pa, pb)

variable {tree pskip} {first second other : Block}

section Round

variable (rooted : ∀ block other, tree.pprev block = none → tree.pprev other = none → block = other)
  (valid : tree.ValidSkips pskip) (pointers : ∀ block, tree.pprev block ≠ none → pskip block ≠ none)
include rooted valid pointers

theorem commonRound_spec {pair : Block × Block} (meets : tree.Meets first second pair) :
    ∃ outcome, tree.commonRound pskip pair = .ok outcome ∧
      Sum.elim (fun last => ∀ other, tree.IsAncestor other first ∧ tree.IsAncestor other second ↔
        tree.IsAncestor other last) (tree.Meets first second) outcome := by
  obtain ⟨pa, pb⟩ := pair
  obtain ⟨nHeight_eq, common_iff⟩ := meets
  dsimp only at nHeight_eq common_iff
  rw [commonRound]
  dsimp only
  by_cases same : pa = pb
  · rw [if_pos same]
    refine ⟨_, rfl, fun other => ?_⟩
    rw [common_iff, same, and_self]
  · have pos : 0 < tree.nHeight pa := by
      by_contra lowest
      refine same (rooted pa pb ?_ ?_) <;>
        exact Option.eq_none_iff_forall_ne_some.mpr fun parent parentEq => by
          have above := tree.nHeight_of_pprev parentEq
          omega
    obtain ⟨parentA, parentEqA⟩ := exists_pprev pos
    obtain ⟨parentB, parentEqB⟩ := exists_pprev (nHeight_eq ▸ pos)
    rw [if_neg same]
    by_cases apart : pskip pa ≠ pskip pb
    · obtain ⟨skipA, pointedA⟩ := Option.ne_none_iff_exists'.mp (pointers pa (by simp [parentEqA]))
      obtain ⟨skipB, pointedB⟩ := Option.ne_none_iff_exists'.mp (pointers pb (by simp [parentEqB]))
      obtain ⟨backA, heightA, -⟩ := getAncestor_skip valid pointedA
      obtain ⟨backB, heightB, -⟩ := getAncestor_skip valid pointedB
      have level : tree.nHeight skipA = tree.nHeight skipB := by rw [heightA, heightB, nHeight_eq]
      rw [if_pos apart, pointedA, pointedB]
      refine ⟨_, if_pos ⟨nHeight_eq, level⟩,
        meets_of_getAncestor common_iff backA (level ▸ backB) fun other ofA ofB => ?_⟩
      -- Above both pointers they would come from the common ancestor.
      by_contra above
      rw [isAncestor_iff] at ofA ofB
      rw [← getAncestor_getAncestor ofA (by omega), level] at backA
      rw [← getAncestor_getAncestor ofB (by omega), backA] at backB
      rw [pointedA, pointedB] at apart
      exact apart backB
    · rw [if_neg apart, parentEqA, parentEqB]
      refine ⟨_, rfl, meets_of_getAncestor common_iff
        (pprev_of_getAncestor (getAncestor_self pa) ▸ parentEqA)
        (nHeight_eq ▸ pprev_of_getAncestor (getAncestor_self pb) ▸ parentEqB)
        fun other ofA ofB => ?_⟩
      by_contra above
      rw [isAncestor_iff] at ofA ofB
      have atMost := (nHeight_getAncestor ofA).2.2
      have level : tree.nHeight other = tree.nHeight pa := by omega
      rw [level, getAncestor_self] at ofA
      rw [level, nHeight_eq, getAncestor_self] at ofB
      exact same (Option.some.inj (ofA.trans ofB.symm))

end Round

/-- The pointers that `BuildSkip` sets in a tree, whatever the order of the calls, lead
`GetAncestor` to the one ancestor at a height, and `LastCommonAncestor` to the block whose
ancestors are the common ancestors. -/
theorem skipPointers_exact (tree : BlockTree Block)
    (rooted : ∀ block other, tree.pprev block = none → tree.pprev other = none → block = other)
    {order : List Block} (all : ∀ block, block ∈ order) :
    ∃ pskip, ∃ valid : tree.ValidSkips pskip, tree.buildSkips order = .ok pskip ∧
      (∀ (block : Block) (height : Nat), height ≤ tree.nHeight block →
        ∃ ancestor, tree.skipAncestor pskip block height = .ok (some ancestor) ∧
          ∀ other, tree.IsAncestor other block ∧ tree.nHeight other = height ↔ other = ancestor) ∧
      ∀ first second, ∃ last, tree.lastCommonAncestor pskip valid first second = .ok last ∧
        ∀ other, tree.IsAncestor other first ∧ tree.IsAncestor other second ↔
          tree.IsAncestor other last := by
  obtain ⟨pskip, built, skips⟩ := tree.buildSkips_spec order
  have pointers : ∀ block, tree.pprev block ≠ none → pskip block ≠ none := by
    intro block child
    obtain ⟨parent, parentEq⟩ := Option.ne_none_iff_exists'.mp child
    have above := tree.nHeight_of_pprev parentEq
    have less := getSkipHeight_lt (show 0 < tree.nHeight block by omega)
    obtain ⟨ancestor, found, -⟩ := exists_getAncestor
      (show getSkipHeight (tree.nHeight block) ≤ tree.nHeight parent by omega)
    simp [skips block, all, parentEq, found]
  refine ⟨pskip, skips.valid, built, ?_, ?_⟩
  · intro block height within
    obtain ⟨ancestor, found, heightEq⟩ := exists_getAncestor within
    refine ⟨ancestor, by rw [skipAncestor_eq skips.valid, found], fun other => ?_⟩
    rw [isAncestor_iff]
    constructor
    · rintro ⟨ofBlock, rfl⟩
      exact Option.some.inj (ofBlock.symm.trans found)
    · rintro rfl
      exact ⟨heightEq ▸ found, heightEq⟩
  · intro first second
    obtain ⟨pa, rewoundA, backA⟩ := rewind_spec skips.valid first second
    obtain ⟨pb, rewoundB, backB⟩ := rewind_spec skips.valid second first
    rw [min_comm] at backB
    have start := meets_of_getAncestor (fun _ => Iff.rfl) backA backB fun other ofA ofB => by
      have belowA := (nHeight_getAncestor (isAncestor_iff.mp ofA)).2.2
      have belowB := (nHeight_getAncestor (isAncestor_iff.mp ofB)).2.2
      omega
    simp only [lastCommonAncestor, rewoundA, rewoundB, bind, Except.bind]
    exact (tree.commonLoop pskip skips.valid).run_spec
      (fun _ => commonRound_spec rooted skips.valid pointers) start

/-- Two branches from the block at height 2: the blocks 3 and 4, and the blocks 5 and 6. -/
def twoBranches : BlockTree (Fin 7) where
  pprev block := if block = 0 then none else if block = 5 then some 2 else some (block - 1)
  nHeight block := if block < 5 then block else block - 2
  nTime block := 100 * block.val.toUInt32
  nHeight_of_genesis := by decide
  nHeight_of_pprev := by decide
  nHeight_lt := by decide

/-- At height 4 the pointer skips to the genesis block. -/
theorem skipPointers_exact_twoBranches : ∃ pskip, ∃ valid : twoBranches.ValidSkips pskip,
      twoBranches.buildSkips [6, 5, 4, 3, 2, 1, 0] = .ok pskip ∧ pskip 4 = some 0 ∧
      (∃ ancestor, twoBranches.skipAncestor pskip 4 1 = .ok (some ancestor) ∧
        ∀ other, twoBranches.IsAncestor other 4 ∧ twoBranches.nHeight other = 1 ↔
          other = ancestor) ∧
      ∃ last, twoBranches.lastCommonAncestor pskip valid 4 6 = .ok last ∧
        ∀ other, twoBranches.IsAncestor other 4 ∧ twoBranches.IsAncestor other 6 ↔
          twoBranches.IsAncestor other last := by
  obtain ⟨pskip, valid, built, ancestors, common⟩ := skipPointers_exact twoBranches (by decide)
    (by decide : ∀ block : Fin 7, block ∈ [6, 5, 4, 3, 2, 1, 0])
  have pointer : (twoBranches.buildSkips [6, 5, 4, 3, 2, 1, 0]).toOption.map (fun skips => skips 4) =
      some (some 0) := by
    decide +kernel
  rw [built] at pointer
  exact ⟨pskip, valid, built, Option.some.inj pointer, ancestors 4 1 (by decide), common 4 6⟩

end Common

end BlockTree

end Champy
