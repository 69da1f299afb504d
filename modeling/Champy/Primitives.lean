import Champy.CheckedExecution
import Mathlib.Algebra.Order.BigOperators.Group.List
import Mathlib.Data.List.Basic

/-!
# Transactions, outputs and consensus constants

The value types that validation reads.  Machine integers keep their width: an
amount is an `Int64`, a height an `Int32`, a version or sequence a `UInt32`.
A transaction carries its cached hash as a field, as `CTransaction` does, so
nothing here depends on how the hash is computed.
-/

namespace Champy

/-- A 256-bit value such as a block hash. -/
abbrev Uint256 : Type := BitVec 256

/-- A hash function of two hashes, and one of bytes. -/
abbrev HashPair : Type := Uint256 → Uint256 → Uint256

abbrev ByteHash : Type := List UInt8 → Uint256

abbrev Txid : Type := BitVec 256

abbrev CAmount : Type := Int64

abbrev CScript : Type := List UInt8

/-- The set of script verification flags, one bit a flag. -/
abbrev ScriptVerifyFlags : Type := UInt64

def coinUnit : CAmount := 100000000

def maxMoney : CAmount := 21000000 * coinUnit

def moneyRange (value : CAmount) : Bool :=
  0 ≤ value && value ≤ maxMoney

def maxBlockWeight : Nat := 4000000

def maxBlockSigOpsCost : Int64 := 80000

def coinbaseMaturity : Int32 := 100

def witnessScaleFactor : Nat := 4

def locktimeVerifySequence : Int32 := 1

structure COutPoint where
  hash : Txid
  n : UInt32
  deriving DecidableEq, Repr

namespace COutPoint

def isNull (outpoint : COutPoint) : Bool :=
  outpoint.hash == 0 && outpoint.n == 0xffffffff

end COutPoint

structure CTxIn where
  prevout : COutPoint
  scriptSig : CScript
  nSequence : UInt32
  scriptWitness : List (List UInt8)
  deriving DecidableEq, Repr

namespace CTxIn

def sequenceFinal : UInt32 := 0xffffffff

def sequenceLocktimeDisableFlag : UInt32 := (1 : UInt32) <<< 31

def sequenceLocktimeTypeFlag : UInt32 := (1 : UInt32) <<< 22

def sequenceLocktimeMask : UInt32 := 0x0000ffff

def sequenceLocktimeGranularity : UInt32 := 9

end CTxIn

structure CTxOut where
  nValue : CAmount
  scriptPubKey : CScript
  deriving DecidableEq, Repr

structure CTransaction where
  vin : List CTxIn
  vout : List CTxOut
  version : UInt32
  nLockTime : UInt32
  hash : Txid
  deriving DecidableEq, Repr

/-- The outpoint of output `index` of the transaction with the given hash.
The index is cast to 32 bits, as the loops over `vout` do. -/
def outpointAt (hash : Txid) (index : Nat) : COutPoint :=
  ⟨hash, UInt32.ofNat index⟩

namespace CTransaction

def isCoinBase (tx : CTransaction) : Bool :=
  match tx.vin with
  | [txin] => txin.prevout.isNull
  | _ => false

/-- One round of the loop of `GetValueOut`: an amount out of range throws
`std::runtime_error`. -/
def addOutputValue {ε : Type} (total : CAmount) (txout : CTxOut) : Exec ε CAmount :=
  if moneyRange txout.nValue then do
    let sum ← addInt64 total txout.nValue
    if moneyRange sum then pure sum else Exec.abort .runtimeError
  else Exec.abort .runtimeError

def getValueOut {ε : Type} (tx : CTransaction) : Exec ε CAmount :=
  tx.vout.foldlM addOutputValue 0

/-- The outpoints of all outputs, spendable or not, in order. -/
def outputOutpoints (tx : CTransaction) : List COutPoint :=
  (List.range tx.vout.length).map (outpointAt tx.hash)

/-- The outpoints that a transaction spends.  A coinbase spends none. -/
def spentOutpoints (tx : CTransaction) : List COutPoint :=
  if tx.isCoinBase then [] else tx.vin.map CTxIn.prevout

end CTransaction

/-- What spend validation knows about an unspent output. -/
structure CoinSnapshot where
  output : CTxOut
  height : Int32
  isCoinbase : Bool
  deriving DecidableEq, Repr

/-! ## Amounts -/

theorem maxMoney_toInt : maxMoney.toInt = 2100000000000000 := by
  decide

theorem moneyRange_iff {value : CAmount} :
    moneyRange value = true ↔ 0 ≤ value.toInt ∧ value.toInt ≤ 2100000000000000 := by
  rw [moneyRange, Bool.and_eq_true, decide_eq_true_iff, decide_eq_true_iff,
    Int64.le_iff_toInt_le, Int64.le_iff_toInt_le, maxMoney_toInt]
  rfl

namespace CTransaction

theorem addOutputValue_eq_ok {ε : Type} {start total : CAmount} {txout : CTxOut} :
    (addOutputValue start txout : Exec ε CAmount) = .ok total ↔
      moneyRange txout.nValue = true ∧ moneyRange total = true ∧
        total.toInt = start.toInt + txout.nValue.toInt := by
  unfold addOutputValue
  by_cases valueRange : moneyRange txout.nValue = true
  · rw [if_pos valueRange, Exec.bind_eq_ok]
    simp only [addInt64_eq_ok, Exec.pure_eq_ok]
    constructor
    · rintro ⟨sum, sumEq, ret⟩
      by_cases sumRange : moneyRange sum = true
      · rw [if_pos sumRange] at ret
        cases ret
        exact ⟨valueRange, sumRange, sumEq⟩
      · rw [if_neg sumRange] at ret
        exact absurd ret (Exec.abort_ne_ok _ _)
    · rintro ⟨-, totalRange, totalEq⟩
      exact ⟨total, totalEq, if_pos totalRange⟩
  · rw [if_neg valueRange]
    constructor
    · intro ret
      exact absurd ret (Exec.abort_ne_ok _ _)
    · intro conditions
      exact absurd conditions.1 valueRange

private theorem foldlM_addOutputValue_eq_ok {ε : Type} (outputs : List CTxOut) :
    ∀ start total : CAmount, moneyRange start = true →
      ((outputs.foldlM addOutputValue start : Exec ε CAmount) = .ok total ↔
        (∀ txout ∈ outputs, moneyRange txout.nValue = true) ∧ moneyRange total = true ∧
          total.toInt = start.toInt + (outputs.map fun txout => txout.nValue.toInt).sum) := by
  induction outputs with
  | nil =>
    intro start total startRange
    simp only [List.foldlM_nil, Exec.pure_eq_ok, Except.ok.injEq, List.not_mem_nil,
      false_implies, implies_true, List.map_nil, List.sum_nil, Int.add_zero, true_and]
    constructor
    · rintro rfl
      exact ⟨startRange, rfl⟩
    · rintro ⟨-, eq⟩
      exact (Int64.toInt_inj.mp eq).symm
  | cons txout outputs ih =>
    intro start total startRange
    rw [List.foldlM_cons, Exec.bind_eq_ok, List.forall_mem_cons, List.map_cons, List.sum_cons]
    constructor
    · rintro ⟨sum, added, rest⟩
      obtain ⟨valueRange, sumRange, sumEq⟩ := addOutputValue_eq_ok.mp added
      obtain ⟨outputRange, totalRange, totalEq⟩ := (ih sum total sumRange).mp rest
      exact ⟨⟨valueRange, outputRange⟩, totalRange, by omega⟩
    · rintro ⟨⟨valueRange, outputRange⟩, totalRange, totalEq⟩
      have nonneg : 0 ≤ (outputs.map fun txout => txout.nValue.toInt).sum := by
        apply List.sum_nonneg
        intro value mem
        obtain ⟨output, outputMember, rfl⟩ := List.mem_map.mp mem
        exact (moneyRange_iff.mp (outputRange output outputMember)).1
      have startBounds := moneyRange_iff.mp startRange
      have valueBounds := moneyRange_iff.mp valueRange
      have totalBounds := moneyRange_iff.mp totalRange
      obtain ⟨sum, sumEq⟩ : ∃ sum : CAmount, sum.toInt = start.toInt + txout.nValue.toInt :=
        ⟨Int64.ofInt (start.toInt + txout.nValue.toInt),
          Int64.toInt_ofInt_of_le (by omega) (by omega)⟩
      have sumRange : moneyRange sum = true := moneyRange_iff.mpr (by omega)
      exact ⟨sum, addOutputValue_eq_ok.mpr ⟨valueRange, sumRange, sumEq⟩,
        (ih sum total sumRange).mpr ⟨outputRange, totalRange, by omega⟩⟩

theorem getValueOut_eq_ok {ε : Type} {tx : CTransaction} {total : CAmount} :
    (tx.getValueOut : Exec ε CAmount) = .ok total ↔
      (∀ txout ∈ tx.vout, moneyRange txout.nValue = true) ∧ moneyRange total = true ∧
        total.toInt = (tx.vout.map fun txout => txout.nValue.toInt).sum := by
  rw [getValueOut, foldlM_addOutputValue_eq_ok tx.vout 0 total (by decide)]
  simp

end CTransaction

end Champy
