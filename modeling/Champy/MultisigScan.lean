import Champy.SigOpBound
import Mathlib.Data.List.NodupEquivFin
import Mathlib.Data.Fintype.Card

/-!
# The scan of `OP_CHECKMULTISIG`

The loop goes over the keys once and gives each key to the first signature that is left.  No
choice is lost by this: a key that verifies the first signature may as well be assigned to it.
The loop reads its signatures and keys from the stack by their positions, and
`checkSignatures` is that loop on the elements it reads.
-/

namespace Champy

open List

/-! ## Ordered assignments -/

section Assignments

variable {α β : Type} {related : α → β → Prop} {x : α} {xs : List α} {y : β} {ys : List β}

/-- Every element of the first list has an element of the second that it is related to, at
places that keep the order and are all different. -/
def OrderedAssignment (related : α → β → Prop) (xs : List α) (ys : List β) : Prop :=
  ∃ place : Fin xs.length → Fin ys.length, StrictMono place ∧
    ∀ index, related (xs.get index) (ys.get (place index))

theorem orderedAssignment_iff_sublist : OrderedAssignment related xs ys ↔
      ∃ chosen : List β, chosen.Sublist ys ∧ List.Forall₂ related xs chosen := by
  constructor
  · intro assignment
    obtain ⟨place, increasing, all⟩ := assignment
    refine ⟨ofFn fun index => ys.get (place index), ?_, ?_⟩
    · rw [sublist_iff_exists_fin_orderEmbedding_get_eq]
      refine ⟨(Fin.castOrderIso length_ofFn).toOrderEmbedding.trans
        (OrderEmbedding.ofStrictMono place increasing), ?_⟩
      intro index
      rw [get_ofFn]
      rfl
    · rw [forall₂_iff_get]
      refine ⟨length_ofFn.symm, ?_⟩
      intro index inFirst inChosen
      rw [get_ofFn]
      exact all ⟨index, inFirst⟩
  · intro chosen
    obtain ⟨chosen, within, all⟩ := chosen
    obtain ⟨place, same⟩ := sublist_iff_exists_fin_orderEmbedding_get_eq.mp within
    obtain ⟨lengths, pairs⟩ := forall₂_iff_get.mp all
    refine ⟨fun index => place (index.cast lengths), ?_, ?_⟩
    · intro index later before
      exact place.strictMono before
    · intro index
      rw [← same]
      exact pairs index.1 index.2 (lengths ▸ index.2)

theorem orderedAssignment_nil : OrderedAssignment related [] ys :=
  orderedAssignment_iff_sublist.mpr ⟨[], nil_sublist ys, List.Forall₂.nil⟩

theorem not_orderedAssignment_of_lt (fewer : ys.length < xs.length) :
    ¬ OrderedAssignment related xs ys := by
  intro assignment
  obtain ⟨place, increasing, -⟩ := assignment
  have injected := Fintype.card_le_of_injective place increasing.injective
  rw [Fintype.card_fin, Fintype.card_fin] at injected
  omega

theorem orderedAssignment_cons_of_related (first : related x y) :
    OrderedAssignment related (x :: xs) (y :: ys) ↔ OrderedAssignment related xs ys := by
  rw [orderedAssignment_iff_sublist, orderedAssignment_iff_sublist]
  constructor
  · intro assignment
    obtain ⟨chosen, within, all⟩ := assignment
    cases all with
    | cons head tail =>
      -- Whatever is assigned to the first element, the others are assigned to later places.
      refine ⟨_, ?_, tail⟩
      cases within with
      | cons _ later => exact sublist_of_cons_sublist later
      | cons_cons _ later => exact later
  · intro assignment
    obtain ⟨chosen, within, all⟩ := assignment
    exact ⟨y :: chosen, within.cons_cons y, List.Forall₂.cons first all⟩

theorem orderedAssignment_cons_of_not_related (first : ¬ related x y) :
    OrderedAssignment related (x :: xs) (y :: ys) ↔ OrderedAssignment related (x :: xs) ys := by
  rw [orderedAssignment_iff_sublist, orderedAssignment_iff_sublist]
  constructor
  · intro assignment
    obtain ⟨chosen, within, all⟩ := assignment
    cases within with
    | cons _ later => exact ⟨chosen, later, all⟩
    | cons_cons _ later =>
      cases all with
      | cons head tail => exact absurd head first
  · intro assignment
    obtain ⟨chosen, within, all⟩ := assignment
    exact ⟨chosen, within.cons y, all⟩

end Assignments

/-! ## The loop over positions of the stack -/

section Scan

variable (crypto : ScriptCrypto) (checker : SignatureChecker) (flags : ScriptVerifyFlags)
  (sigversion : SigVersion)

/-- A round of the loop: `stacktop(-isig)` is checked against `stacktop(-ikey)`. -/
def scanRound (top : Nat → Exec ScriptError (List UInt8)) (scriptCode : CScript)
    (isig ikey : Nat) : ScriptRun Bool := do
  let vchSig ← .lift (top isig)
  let vchPubKey ← .lift (top ikey)
  checkEncodedSignature crypto checker flags sigversion vchSig vchPubKey scriptCode

/-- The loop of `OP_CHECKMULTISIG` on its four counters, where `top` reads the stack. -/
def scanSignatures (top : Nat → Exec ScriptError (List UInt8)) (scriptCode : CScript) :
    (nKeysCount nSigsCount isig ikey : Nat) → ScriptRun Bool
  | _, 0, _, _ => pure true
  | 0, _ + 1, isig, ikey => do
      -- the number of keys becomes negative
      let _ ← scanRound crypto checker flags sigversion top scriptCode isig ikey
      pure false
  | nKeysCount + 1, nSigsCount + 1, isig, ikey => do
      let fOk ← scanRound crypto checker flags sigversion top scriptCode isig ikey
      let left := if fOk then nSigsCount else nSigsCount + 1
      if left > nKeysCount then pure false
      else scanSignatures top scriptCode nKeysCount left (if fOk then isig + 1 else isig) (ikey + 1)

/-- `stacktop` for the keys and the signatures alone. -/
def countedTop (stack : Stack) (nKeysCount nSigsCount i : Nat) : Exec ScriptError (List UInt8) :=
  if (2 ≤ i ∧ i < nKeysCount + 2) ∨ (nKeysCount + 3 ≤ i ∧ i < nKeysCount + nSigsCount + 3) then
    stackTop stack i
  else Exec.abort .logicError

variable {crypto checker flags sigversion} {top : Nat → Exec ScriptError (List UInt8)}
  {stack : Stack}

variable {sig key : List UInt8}

theorem scanRound_eq {isig ikey : Nat} (readsSig : top isig = .ok sig)
    (readsKey : top ikey = .ok key) (code : CScript) :
    scanRound crypto checker flags sigversion top code isig ikey =
      checkEncodedSignature crypto checker flags sigversion sig key code := by
  rw [scanRound, readsSig, readsKey]
  rfl

theorem scanSignatures_eq {keys sigs : Stack} {isig ikey : Nat} (fewer : sigs.length ≤ keys.length)
    (readsKeys : ∀ index key, keys[index]? = some key → top (ikey + index) = .ok key)
    (readsSigs : ∀ index sig, sigs[index]? = some sig → top (isig + index) = .ok sig)
    (code : CScript) :
    scanSignatures crypto checker flags sigversion top code keys.length sigs.length isig ikey =
      checkSignatures crypto checker flags sigversion code keys sigs := by
  induction keys generalizing sigs isig ikey with
  | nil =>
    rw [eq_nil_of_length_eq_zero (Nat.le_zero.mp fewer)]
    rfl
  | cons key keys ih =>
    cases sigs with
    | nil => rfl
    | cons sig sigs =>
      have laterKeys : ∀ index key, keys[index]? = some key → top (ikey + 1 + index) = .ok key := by
        intro index key found
        rw [Nat.add_assoc, Nat.add_comm 1]
        exact readsKeys (index + 1) key found
      have laterSigs : ∀ index sig, sigs[index]? = some sig → top (isig + 1 + index) = .ok sig := by
        intro index sig found
        rw [Nat.add_assoc, Nat.add_comm 1]
        exact readsSigs (index + 1) sig found
      have readsSig : top isig = .ok sig := readsSigs 0 sig rfl
      have readsKey : top ikey = .ok key := readsKeys 0 key rfl
      rw [length_cons, length_cons, scanSignatures, checkSignatures, scanRound_eq readsSig readsKey]
      congr 1
      funext fOk
      cases fOk with
      | true =>
        by_cases exhausted : sigs.length > keys.length
        · exact (if_pos exhausted).trans (if_pos exhausted).symm
        · refine (if_neg exhausted).trans (Eq.trans ?_ (if_neg exhausted).symm)
          exact ih (Nat.le_of_not_lt exhausted) laterKeys laterSigs
      | false =>
        by_cases exhausted : (sig :: sigs).length > keys.length
        · exact (if_pos exhausted).trans (if_pos exhausted).symm
        · refine (if_neg exhausted).trans (Eq.trans ?_ (if_neg exhausted).symm)
          exact ih (Nat.le_of_not_lt exhausted) laterKeys readsSigs

/-! ## What the loop decides -/

/-- The signature checker accepts a signature for a key. -/
def SignatureChecker.Verifies (checker : SignatureChecker) (scriptCode : CScript)
    (sigversion : SigVersion) (sig key : List UInt8) : Prop :=
  checker.checkECDSASignature sig key scriptCode sigversion = true

theorem checkEncodedSignature_outcome
    (sigEncoding : checkSignatureEncoding crypto.checkLowS sig flags = .ok ())
    (keyEncoding : checkPubKeyEncoding key flags sigversion = .ok ()) (code : CScript) :
    (checkEncodedSignature crypto checker flags sigversion sig key code).outcome =
      .ok (checker.checkECDSASignature sig key code sigversion) := by
  rw [checkEncodedSignature, sigEncoding, keyEncoding]
  rfl

theorem checkSignatures_outcome {keys sigs : Stack} (code : CScript)
    (sigEncodings : ∀ sig ∈ sigs, checkSignatureEncoding crypto.checkLowS sig flags = .ok ())
    (keyEncodings : ∀ key ∈ keys, checkPubKeyEncoding key flags sigversion = .ok ()) :
    ∃ success, (checkSignatures crypto checker flags sigversion code keys sigs).outcome =
        .ok success ∧
      (success = true ↔ OrderedAssignment (checker.Verifies code sigversion) sigs keys) := by
  induction keys generalizing sigs with
  | nil =>
    cases sigs with
    | nil => exact ⟨true, rfl, iff_of_true rfl orderedAssignment_nil⟩
    | cons sig sigs =>
      exact ⟨false, rfl, iff_of_false Bool.false_ne_true
        (not_orderedAssignment_of_lt (Nat.succ_pos _))⟩
  | cons key keys ih =>
    cases sigs with
    | nil => exact ⟨true, rfl, iff_of_true rfl orderedAssignment_nil⟩
    | cons sig sigs =>
      have checked : (checkEncodedSignature crypto checker flags sigversion sig key
          code).outcome = .ok (checker.checkECDSASignature sig key code sigversion) :=
        checkEncodedSignature_outcome (sigEncodings sig mem_cons_self)
          (keyEncodings key mem_cons_self) code
      -- More signatures than keys cannot be assigned, so the loop stops.
      have goesOn : ∀ left : Stack, (∀ sig ∈ left,
          checkSignatureEncoding crypto.checkLowS sig flags = .ok ()) →
          ∃ success, (if left.length > keys.length then pure false
            else checkSignatures crypto checker flags sigversion code keys left :
              ScriptRun Bool).outcome = .ok success ∧
            (success = true ↔ OrderedAssignment (checker.Verifies code sigversion) left keys) := by
        intro left leftEncodings
        by_cases exhausted : left.length > keys.length
        · rw [if_pos exhausted]
          exact ⟨false, rfl, iff_of_false Bool.false_ne_true
            (not_orderedAssignment_of_lt exhausted)⟩
        · rw [if_neg exhausted]
          exact ih leftEncodings fun key mem => keyEncodings key (mem_cons_of_mem _ mem)
      rw [checkSignatures, Traced.outcome_bind, checked]
      cases ok : checker.checkECDSASignature sig key code sigversion with
      | true =>
        have verified : checker.Verifies code sigversion sig key := ok
        rw [orderedAssignment_cons_of_related verified]
        exact goesOn sigs fun sig mem => sigEncodings sig (mem_cons_of_mem _ mem)
      | false =>
        have refused : ¬ checker.Verifies code sigversion sig key := Bool.eq_false_iff.mp ok
        rw [orderedAssignment_cons_of_not_related refused]
        exact goesOn (sig :: sigs) sigEncodings

/-! ## Keys and signatures on the stack -/

/-- The keys among the arguments of `OP_CHECKMULTISIG`, first the one next to their number. -/
def multisigKeys (stack : Stack) (nKeysCount : Nat) : Stack :=
  (stack.drop 1).take nKeysCount

def multisigSigs (stack : Stack) (nKeysCount nSigsCount : Nat) : Stack :=
  (stack.drop (nKeysCount + 2)).take nSigsCount

theorem multisigTop {first count index : Nat} {vch : List UInt8}
    (found : ((stack.drop first).take count)[index]? = some vch) :
    index < count ∧ stackTop stack (first + 1 + index) = .ok vch := by
  rw [getElem?_take] at found
  split at found
  · next within =>
      rw [getElem?_drop] at found
      refine ⟨within, ?_⟩
      have pos : first + 1 + index - 1 = first + index := by omega
      rw [stackTop, pos, found]
      rfl
  · cases found

theorem length_multisigKeys {nKeysCount : Nat} (room : nKeysCount + 1 ≤ stack.length) :
    (multisigKeys stack nKeysCount).length = nKeysCount := by
  rw [multisigKeys, length_take, length_drop]
  omega

/-- The loop, for whatever reads the counted elements as `stacktop` does. -/
theorem scanSignatures_of_reads {nKeysCount nSigsCount : Nat} (fewer : nSigsCount ≤ nKeysCount)
    (room : nKeysCount + nSigsCount + 2 ≤ stack.length) (code : CScript)
    (readsKeys : ∀ i, 2 ≤ i ∧ i < nKeysCount + 2 → top i = stackTop stack i)
    (readsSigs : ∀ i, nKeysCount + 3 ≤ i ∧ i < nKeysCount + nSigsCount + 3 →
      top i = stackTop stack i) :
    scanSignatures crypto checker flags sigversion top code nKeysCount nSigsCount
        (nKeysCount + 3) 2 =
      checkSignatures crypto checker flags sigversion code (multisigKeys stack nKeysCount)
        (multisigSigs stack nKeysCount nSigsCount) := by
  have keysLength : (multisigKeys stack nKeysCount).length = nKeysCount :=
    length_multisigKeys (by omega)
  have sigsLength : (multisigSigs stack nKeysCount nSigsCount).length = nSigsCount := by
    rw [multisigSigs, length_take, length_drop]
    omega
  have scanned : scanSignatures crypto checker flags sigversion top code
      (multisigKeys stack nKeysCount).length (multisigSigs stack nKeysCount nSigsCount).length
        (nKeysCount + 3) 2 =
      checkSignatures crypto checker flags sigversion code (multisigKeys stack nKeysCount)
        (multisigSigs stack nKeysCount nSigsCount) := by
    apply scanSignatures_eq (by omega)
    · intro index key found
      obtain ⟨within, read⟩ := multisigTop found
      rw [readsKeys _ (by omega)]
      exact read
    · intro index sig found
      obtain ⟨within, read⟩ := multisigTop found
      rw [readsSigs _ (by omega)]
      exact read
  rwa [keysLength, sigsLength] at scanned

/-- The loop succeeds exactly when the signatures can be assigned to keys.  It makes at most one
check for each key, and its reads are those of `countedTop`. -/
theorem scanSignatures_complete {stack : Stack} {nKeysCount nSigsCount : Nat}
    (fewer : nSigsCount ≤ nKeysCount) (room : nKeysCount + nSigsCount + 2 ≤ stack.length)
    (scriptCode : CScript)
    (sigEncodings : ∀ sig ∈ multisigSigs stack nKeysCount nSigsCount,
      checkSignatureEncoding crypto.checkLowS sig flags = .ok ())
    (keyEncodings : ∀ key ∈ multisigKeys stack nKeysCount,
      checkPubKeyEncoding key flags sigversion = .ok ()) :
    ∃ run : ScriptRun Bool,
      run = scanSignatures crypto checker flags sigversion (stackTop stack) scriptCode
        nKeysCount nSigsCount (nKeysCount + 3) 2 ∧
      run = scanSignatures crypto checker flags sigversion (countedTop stack nKeysCount nSigsCount)
        scriptCode nKeysCount nSigsCount (nKeysCount + 3) 2 ∧
      run = checkSignatures crypto checker flags sigversion scriptCode
        (multisigKeys stack nKeysCount) (multisigSigs stack nKeysCount nSigsCount) ∧
      run.trace.length ≤ nKeysCount ∧
      ∃ success, run.outcome = .ok success ∧
        (success = true ↔ OrderedAssignment (checker.Verifies scriptCode sigversion)
          (multisigSigs stack nKeysCount nSigsCount) (multisigKeys stack nKeysCount)) := by
  refine ⟨checkSignatures crypto checker flags sigversion scriptCode
      (multisigKeys stack nKeysCount) (multisigSigs stack nKeysCount nSigsCount),
    (scanSignatures_of_reads fewer room scriptCode (fun _ _ => rfl) fun _ _ => rfl).symm,
    (scanSignatures_of_reads fewer room scriptCode (fun _ within => if_pos (Or.inl within))
      fun _ within => if_pos (Or.inr within)).symm, rfl, ?_,
    checkSignatures_outcome scriptCode sigEncodings keyEncodings⟩
  have calls : (checkSignatures crypto checker flags sigversion scriptCode
      (multisigKeys stack nKeysCount) (multisigSigs stack nKeysCount nSigsCount)).AtMost
        (multisigKeys stack nKeysCount).length := checkSignatures_atMost _ _ _
  rwa [length_multisigKeys (by omega)] at calls

end Scan

/-! ## Two signatures and three keys -/

/-- A checker for which a signature is valid for the key of the same bytes. -/
def sameBytesChecker : SignatureChecker where
  checkECDSASignature sig key _ _ := sig == key
  checkSchnorrSignature _ _ _ execdata := .ok execdata
  checkLockTime _ := true
  checkSequence _ := true

/-- Hashes that change nothing. -/
def plainCrypto : ScriptCrypto where
  ripemd160 := id
  sha1 := id
  sha256 := id
  tapleafHasher := id
  tapbranchHasher := id
  checkLowS _ := true
  checkTapTweak _ _ _ _ := true

/-- The first key is skipped and the others are used. -/
theorem scanSignatures_complete_twoOfThree :
    ∃ success, (scanSignatures plainCrypto sameBytesChecker 0 .base
        (stackTop [[3], [7], [8], [9], [2], [8], [9], []]) [] 3 2 6 2).outcome = .ok success ∧
      (success = true ↔ OrderedAssignment (sameBytesChecker.Verifies [] .base)
        [[8], [9]] [[7], [8], [9]]) := by
  have encodings : ∀ sig ∈ multisigSigs [[3], [7], [8], [9], [2], [8], [9], []] 3 2,
      checkSignatureEncoding plainCrypto.checkLowS sig 0 = .ok () := by
    intro sig mem
    have found : sig = [8] ∨ sig = [9] := by simpa [multisigSigs] using mem
    rcases found with rfl | rfl <;> rfl
  obtain ⟨run, scanned, -, -, -, result⟩ := scanSignatures_complete (by decide) (by decide) []
    encodings (fun key _ => rfl)
  rw [← scanned]
  exact result

end Champy
