import Champy.CodecAgreement
import Champy.MerkleMutation

/-!
# Partial Merkle trees

`CPartialMerkleTree` holds the part of a Merkle tree that proves some of its leaves.  The tree is
walked in depth-first order.  Each visited node stores a bit, whether a matched leaf is below it;
a node with no such leaf, and every leaf that is visited, stores its hash, and all other nodes are
walked further.  The extraction makes the same walk and takes the bits and hashes in the order in
which they were stored.

A tree has at most `MAX_BLOCK_WEIGHT / MIN_TRANSACTION_WEIGHT` leaves when it is walked, so that
the widths and positions are far from the end of `unsigned int`.
-/

namespace Champy

open Consensus

/-- `MAX_BLOCK_WEIGHT / MIN_TRANSACTION_WEIGHT`. -/
def maxMerkleTransactions : Nat :=
  maxBlockWeight / (witnessScaleFactor * 60)

/-! ## Flag bits -/

/-- The byte made of eight bits from a position on, the first one being the lowest. -/
def packByte (bits : List Bool) (position : Nat) : UInt8 :=
  (List.range 8).foldl
    (fun byte shift => byte ||| ((bits.getD (position + shift) false).toUInt8 <<< shift.toUInt8)) 0

def bitsToBytes (bits : List Bool) : List UInt8 :=
  (List.range ((bits.length + 7) / 8)).map fun index => packByte bits (8 * index)

def bytesToBits (bytes : List UInt8) : List Bool :=
  bytes.flatMap fun (byte : UInt8) =>
    (List.range 8).map fun shift => byte &&& ((1 : UInt8) <<< shift.toUInt8) != 0

/-! ## The tree -/

structure CPartialMerkleTree where
  nTransactions : UInt32
  vBits : List Bool
  vHash : List Uint256
  fBad : Bool
  deriving DecidableEq, Repr

/-- The number of nodes at a height. -/
def calcTreeWidth (nTransactions height : Nat) : Nat :=
  (nTransactions + 2 ^ height - 1) / 2 ^ height

theorem one_lt_calcTreeWidth {nTransactions height : Nat} :
    1 < calcTreeWidth nTransactions height ↔ 2 ^ height < nTransactions := by
  have pos := Nat.two_pow_pos height
  rw [calcTreeWidth, Nat.lt_div_iff_mul_lt pos]
  omega

/-- `while (CalcTreeWidth(nHeight) > 1) nHeight++`. -/
def treeHeight (nTransactions : Nat) (nHeight : Nat) : Nat :=
  if 1 < calcTreeWidth nTransactions nHeight then treeHeight nTransactions (nHeight + 1)
  else nHeight
  termination_by nTransactions - 2 ^ nHeight
  decreasing_by
    next wide =>
      have below := one_lt_calcTreeWidth.mp wide
      have grows : 2 ^ nHeight < 2 ^ (nHeight + 1) := Nat.pow_lt_pow_succ Nat.one_lt_two
      omega

section Walks

variable (hashPair : HashPair)

/-- The hash of the node at a height and position, computed from all leaves. -/
def calcHash (vTxid : List Uint256) : (height pos : Nat) → Uint256
  | 0, pos => vTxid.getD pos 0
  | height + 1, pos =>
    let left := calcHash vTxid height (pos * 2)
    let right :=
      if pos * 2 + 1 < calcTreeWidth vTxid.length height then calcHash vTxid height (pos * 2 + 1)
      else left
    hashPair left right

/-- Whether a matched leaf is at or below a node. -/
def parentOfMatch (nTransactions : Nat) (vMatch : List Bool) (height pos : Nat) : Bool :=
  (List.range' (pos * 2 ^ height) (2 ^ height)).any fun p =>
    decide (p < nTransactions) && vMatch.getD p false

/-- The bits and hashes that the walk over a subtree stores. -/
def traverseAndBuild (vTxid : List Uint256) (vMatch : List Bool) :
    (height pos : Nat) → List Bool × List Uint256
  | 0, pos => ([parentOfMatch vTxid.length vMatch 0 pos], [calcHash hashPair vTxid 0 pos])
  | height + 1, pos =>
    if parentOfMatch vTxid.length vMatch (height + 1) pos then
      let left := traverseAndBuild vTxid vMatch height (pos * 2)
      let right :=
        if pos * 2 + 1 < calcTreeWidth vTxid.length height then
          traverseAndBuild vTxid vMatch height (pos * 2 + 1)
        else ([], [])
      (true :: (left.1 ++ right.1), left.2 ++ right.2)
    else ([false], [calcHash hashPair vTxid (height + 1) pos])

/-- The constructor.  The assertion is the one of `CalcHash`, which an empty list reaches. -/
def CPartialMerkleTree.ofTxids (vTxid : List Uint256) (vMatch : List Bool) :
    Exec Empty CPartialMerkleTree := do
  Exec.assertThat !vTxid.isEmpty
  let built := traverseAndBuild hashPair vTxid vMatch (treeHeight vTxid.length 0) 0
  pure ⟨vTxid.length.toUInt32, built.1, built.2, false⟩

/-- What `TraverseAndExtract` changes. -/
structure Extraction where
  nBitsUsed : Nat
  nHashUsed : Nat
  vMatch : List Uint256
  vnIndex : List Nat
  fBad : Bool
  deriving DecidableEq, Repr

/-- Take a stored hash, which at a matched leaf is noted with its position. -/
def takeHash (tree : CPartialMerkleTree) (matched : Option Nat) (state : Extraction) :
    Uint256 × Extraction :=
  match tree.vHash[state.nHashUsed]? with
  | none => (0, { state with fBad := true })
  | some hash =>
    (hash,
      { state with
        nHashUsed := state.nHashUsed + 1
        vMatch := state.vMatch ++ (matched.map fun _ => hash).toList
        vnIndex := state.vnIndex ++ matched.toList })

/-- Mark the tree as bad when two branches are identical. -/
def rejectRepeated (left right : Uint256) (state : Extraction) : Extraction :=
  if right = left then { state with fBad := true } else state

def traverseAndExtract (tree : CPartialMerkleTree) :
    (height pos : Nat) → Extraction → Uint256 × Extraction
  | 0, pos, state =>
    match tree.vBits[state.nBitsUsed]? with
    | none => (0, { state with fBad := true })
    | some fParentOfMatch =>
      takeHash tree (if fParentOfMatch then some pos else none)
        { state with nBitsUsed := state.nBitsUsed + 1 }
  | height + 1, pos, state =>
    match tree.vBits[state.nBitsUsed]? with
    | none => (0, { state with fBad := true })
    | some false => takeHash tree none { state with nBitsUsed := state.nBitsUsed + 1 }
    | some true =>
      let left := traverseAndExtract tree height (pos * 2)
        { state with nBitsUsed := state.nBitsUsed + 1 }
      if pos * 2 + 1 < calcTreeWidth tree.nTransactions.toNat height then
        let right := traverseAndExtract tree height (pos * 2 + 1) left.2
        (hashPair left.1 right.1, rejectRepeated left.1 right.1 right.2)
      else (hashPair left.1 left.1, left.2)

/-- The root, the matched leaves and their positions. -/
structure ExtractedMatches where
  root : Uint256
  vMatch : List Uint256
  vnIndex : List Nat
  deriving DecidableEq, Repr

/-- Clears `vMatch` but not `vnIndex`, and returns a zero root on failure. -/
def extractMatches (tree : CPartialMerkleTree) (vnIndex : List Nat) : ExtractedMatches :=
  if tree.nTransactions = 0 ∨ maxMerkleTransactions < tree.nTransactions.toNat ∨
      tree.nTransactions.toNat < tree.vHash.length ∨ tree.vBits.length < tree.vHash.length then
    ⟨0, [], vnIndex⟩
  else
    let walked := traverseAndExtract hashPair tree (treeHeight tree.nTransactions.toNat 0) 0
      ⟨0, 0, [], vnIndex, tree.fBad⟩
    if walked.2.fBad ∨ (walked.2.nBitsUsed + 7) / 8 ≠ (tree.vBits.length + 7) / 8 ∨
        walked.2.nHashUsed ≠ tree.vHash.length then
      ⟨0, walked.2.vMatch, walked.2.vnIndex⟩
    else ⟨walked.1, walked.2.vMatch, walked.2.vnIndex⟩

end Walks

/-! ## Serialization -/

def CPartialMerkleTree.serialize (tree : CPartialMerkleTree) : List UInt8 :=
  writeUInt32 tree.nTransactions ++ serializeVector hashBytes tree.vHash ++
    writeSizedBytes (bitsToBytes tree.vBits)

def CPartialMerkleTree.unserialize : Stream CPartialMerkleTree := do
  let nTransactions ← readUInt32
  let vHash ← unserializeVector readHash
  let bytes ← unserializeBytes
  pure ⟨nTransactions, bytesToBits bytes, vHash, false⟩

end Champy
