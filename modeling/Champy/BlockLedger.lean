import Champy.BlockSpentOutputsJoin

/-!
# A block as a batch of transfers

A transaction is a transfer on the ledger of unspent coins: it spends its inputs
and creates its spendable outputs.  When distinct transactions have distinct
hashes and no output of the block is unspent before it, the transfers of a
structurally valid block are coherent, and the join finds the coins that running
them one after the other takes.
-/

namespace Champy

open List CTransaction Ledger

/-- The transaction without its witness, which is what its hash commits to. -/
def CTransaction.stripped (tx : CTransaction) : CTransaction :=
  { tx with vin := tx.vin.map fun txin => { txin with scriptWitness := [] } }

/-- Transactions with one hash are equal up to the witness. -/
def DistinctTxids (txs : List CTransaction) : Prop :=
  ∀ first ∈ txs, ∀ second ∈ txs, first.hash = second.hash → first.stripped = second.stripped

/-- No output of the block, spendable or not, is unspent. -/
def NoUnspentOutput (coins : CoinLedger) (txs : List CTransaction) :
    Prop :=
  ∀ tx ∈ txs, ∀ outpoint ∈ tx.outputOutpoints, coins outpoint = none

/-- No spendable output of the transactions is unspent. -/
abbrev OutputsFree {V : Type} (ledger : Ledger COutPoint V) (transactions : List CTransaction) :
    Prop :=
  ∀ tx ∈ transactions, ∀ outpoint ∈ spendableOutpoints tx, ledger outpoint = none

def CTransaction.transfer (tx : CTransaction) (height : Int32) :
    Transfer COutPoint CoinSnapshot :=
  ⟨tx.spentOutpoints,
    (createdCoinEffects tx height).map fun create => (create.outpoint, create.coin)⟩

def blockTransfers (txs : List CTransaction) (height : Int32) :
    List (Transfer COutPoint CoinSnapshot) :=
  txs.map fun tx => tx.transfer height

variable {tx : CTransaction}

theorem spentOutpoints_of_notCoinBase (notCoinbase : tx.isCoinBase = false) :
    tx.spentOutpoints = tx.vin.map CTxIn.prevout := by
  rw [spentOutpoints, notCoinbase]
  rfl

theorem spentOutpoints_of_coinBase (coinbase : tx.isCoinBase = true) : tx.spentOutpoints = [] := by
  rw [spentOutpoints, coinbase]
  rfl

namespace CTransaction

variable {tx other : CTransaction}

theorem stripped_prevouts (tx : CTransaction) :
    tx.stripped.vin.map CTxIn.prevout = tx.vin.map CTxIn.prevout := by
  rw [stripped, map_map]
  rfl

theorem stripped_isCoinBase (tx : CTransaction) : tx.stripped.isCoinBase = tx.isCoinBase := by
  unfold isCoinBase stripped
  rcases tx.vin with _ | ⟨first, _ | ⟨second, rest⟩⟩ <;> rfl

theorem stripped_spentOutpoints (tx : CTransaction) :
    tx.stripped.spentOutpoints = tx.spentOutpoints := by
  rw [spentOutpoints, spentOutpoints, stripped_isCoinBase, stripped_prevouts]

theorem createdKeys_transfer (tx : CTransaction) (height : Int32) :
    (tx.transfer height).createdKeys = spendableOutpoints tx := by
  rw [Transfer.createdKeys, transfer, createdCoinEffects, spendableOutpoints, map_map,
    map_filterMap]
  apply filterMap_congr
  intro output _
  split <;> rfl

theorem mem_spendableOutpoints {point : COutPoint} : point ∈ spendableOutpoints tx ↔
      ∃ index txout, tx.vout[index]? = some txout ∧
        isUnspendable txout.scriptPubKey = false ∧ point = outpointAt tx.hash index := by
  rw [spendableOutpoints, mem_filterMap]
  constructor
  · rintro ⟨⟨txout, index⟩, mem, chosen⟩
    refine ⟨index, txout, mem_zipIdx_iff_getElem?.mp mem, ?_⟩
    cases unspendable : isUnspendable txout.scriptPubKey with
    | true => simp [unspendable] at chosen
    | false => simpa [unspendable, eq_comm] using chosen
  · rintro ⟨index, txout, found, spendable, rfl⟩
    exact ⟨(txout, index), mem_zipIdx_iff_getElem?.mpr found, by simp [spendable]⟩

theorem outputOutpoints_of_spendable {point : COutPoint}
    (mem : point ∈ spendableOutpoints tx) : point ∈ tx.outputOutpoints := by
  obtain ⟨index, txout, found, -, rfl⟩ := mem_spendableOutpoints.mp mem
  have bound := (List.getElem?_eq_some_iff.mp found).1
  exact mem_map_of_mem (mem_range.mpr bound)

end CTransaction

theorem outpointAt_n (hash : Txid) {index : Nat} (small : index < 2 ^ 32) :
    (outpointAt hash index).n.toNat = index := by
  change (UInt32.ofNat index).toNat = index
  rw [UInt32.toNat_ofNat']
  exact Nat.mod_eq_of_lt small

theorem outpointAt_injective {hash : Txid} {first second : Nat} (firstSmall : first < 2 ^ 32)
    (secondSmall : second < 2 ^ 32) (eq : outpointAt hash first = outpointAt hash second) :
    first = second := by
  rw [← outpointAt_n hash firstSmall, eq, outpointAt_n hash secondSmall]

theorem outputOutpoints_nodup (checked : CheckedTransaction tx) : tx.outputOutpoints.Nodup := by
  have length := checked.vout_length
  refine List.Nodup.map_on ?_ nodup_range
  intro first firstMem second secondMem eq
  rw [mem_range] at firstMem secondMem
  exact outpointAt_injective (by omega) (by omega) eq

theorem spendableOutpoints_sublist (tx : CTransaction) :
    (spendableOutpoints tx).Sublist tx.outputOutpoints := by
  have skips : ∀ outputs : List (CTxOut × Nat), (outputs.filterMap fun output =>
        if isUnspendable output.1.scriptPubKey then none
        else some (outpointAt tx.hash output.2)).Sublist
        (outputs.map fun output => outpointAt tx.hash output.2) := by
    intro outputs
    induction outputs with
    | nil => exact List.Sublist.refl _
    | cons output outputs ih =>
      cases unspendable : isUnspendable output.1.scriptPubKey with
      | true => simpa [unspendable] using ih.cons _
      | false => simpa [unspendable] using ih
  have indices : tx.outputOutpoints = tx.vout.zipIdx.map fun output =>
      outpointAt tx.hash output.2 := by
    rw [outputOutpoints, range_eq_range', ← zipIdx_map_snd, map_map]
    rfl
  rw [indices]
  exact skips tx.vout.zipIdx

theorem spendableOutpoints_nodup (checked : CheckedTransaction tx) :
    (spendableOutpoints tx).Nodup :=
  (outputOutpoints_nodup checked).sublist (spendableOutpoints_sublist tx)

theorem mem_creates_transfer {height : Int32} {point : COutPoint} {coin : CoinSnapshot} :
    (point, coin) ∈ (tx.transfer height).creates ↔ ∃ index txout, tx.vout[index]? = some txout ∧
        isUnspendable txout.scriptPubKey = false ∧ point = outpointAt tx.hash index ∧
        coin = ⟨txout, height, tx.isCoinBase⟩ := by
  rw [transfer, mem_map]
  constructor
  · rintro ⟨create, mem, eq⟩
    cases eq
    obtain ⟨⟨txout, index⟩, outputMem, chosen⟩ := mem_filterMap.mp mem
    refine ⟨index, txout, mem_zipIdx_iff_getElem?.mp outputMem, ?_⟩
    cases unspendable : isUnspendable txout.scriptPubKey with
    | true => simp [unspendable] at chosen
    | false =>
      simp only [unspendable, Bool.false_eq_true, if_false, Option.some.injEq] at chosen
      rw [← chosen]
      exact ⟨rfl, rfl, rfl⟩
  · rintro ⟨index, txout, found, spendable, rfl, rfl⟩
    exact ⟨⟨outpointAt tx.hash index, ⟨txout, height, tx.isCoinBase⟩⟩,
      mem_filterMap.mpr ⟨(txout, index), mem_zipIdx_iff_getElem?.mpr found,
        by simp [spendable]⟩, rfl⟩

/-- The map from outpoints to creators finds the first transaction that creates
an outpoint. -/
theorem lookup_createdByTransaction (txs : List CTransaction) (point : COutPoint) :
    (createdByTransaction txs).lookup point =
      txs.findIdx? fun tx => decide (point ∈ spendableOutpoints tx) := by
  have inner : ∀ (points : List COutPoint) (created : FinMap COutPoint Nat) (index : Nat),
      (points.foldl (fun created point => created.emplace point index) created).lookup point =
        (created.lookup point).or (if point ∈ points then some index else none) := by
    intro points
    induction points with
    | nil => simp
    | cons first points ih =>
      intro created index
      rw [foldl_cons, ih, FinMap.lookup_emplace, Option.or_assoc]
      congr 1
      by_cases same : point = first <;> by_cases later : point ∈ points <;> simp [same, later]
  have outer : ∀ (txs : List CTransaction) (created : FinMap COutPoint Nat) (start : Nat),
      ((txs.zipIdx start).foldl (fun created tx =>
        (spendableOutpoints tx.1).foldl (fun created point => created.emplace point tx.2)
          created) created).lookup point =
        (created.lookup point).or ((txs.findIdx? fun tx =>
          decide (point ∈ spendableOutpoints tx)).map (· + start)) := by
    intro txs
    induction txs with
    | nil => simp
    | cons tx txs ih =>
      intro created start
      rw [zipIdx_cons, foldl_cons, ih, inner, Option.or_assoc, findIdx?_cons]
      congr 1
      by_cases creates : point ∈ spendableOutpoints tx
      · simp [creates]
      · simp [creates, Function.comp_def, Nat.add_comm, Nat.add_left_comm]
  rw [createdByTransaction, outer txs ∅ 0]
  simp

theorem dependencyCoin_of_spendable {txs : List CTransaction} {height : Int32}
    {dependency : BlockSpentOutputDependency}
    (found : txs[dependency.createdByTransaction]? = some tx)
    (checked : CheckedTransaction tx) (mem : dependency.lookup.outpoint ∈ spendableOutpoints tx) :
    ∃ coin, (dependencyCoin txs height dependency).toOption = some coin ∧
      (dependency.lookup.outpoint, coin) ∈ (tx.transfer height).creates := by
  obtain ⟨index, txout, outputEq, spendable, outpointEq⟩ := mem_spendableOutpoints.mp mem
  have bound := (List.getElem?_eq_some_iff.mp outputEq).1
  have length := checked.vout_length
  have pos : dependency.lookup.outpoint.n.toNat = index := by
    rw [outpointEq, outpointAt_n tx.hash (by omega)]
  refine ⟨⟨txout, height, tx.isCoinBase⟩, ?_, ?_⟩
  · simp only [dependencyCoin, found, pos, outputEq]
    rfl
  · exact mem_creates_transfer.mpr ⟨index, txout, outputEq, spendable, outpointEq, rfl⟩

/-! ## Coherence -/

section Coherent

variable {txs : List CTransaction} {coins : CoinLedger} {height : Int32}

/-- Two transactions of a block that create a common outpoint spend a common
outpoint, if the second is not the coinbase. -/
theorem common_spend {first second : CTransaction} {point : COutPoint}
    (sameStripped : first.hash = second.hash → first.stripped = second.stripped)
    (checked : CheckedTransaction second) (notCoinbase : second.isCoinBase = false)
    (inFirst : point ∈ spendableOutpoints first)
    (inSecond : point ∈ spendableOutpoints second) :
    ∃ common ∈ first.spentOutpoints, common ∈ second.spentOutpoints := by
  obtain ⟨firstIndex, -, -, -, firstEq⟩ := mem_spendableOutpoints.mp inFirst
  obtain ⟨secondIndex, -, -, -, secondEq⟩ := mem_spendableOutpoints.mp inSecond
  have sameHash : first.hash = second.hash := by
    have eq := firstEq.symm.trans secondEq
    exact congrArg COutPoint.hash eq
  have sameSpends : first.spentOutpoints = second.spentOutpoints := by
    rw [← first.stripped_spentOutpoints, sameStripped sameHash, second.stripped_spentOutpoints]
  rw [sameSpends, spentOutpoints, notCoinbase]
  obtain ⟨txin, rest, vinEq⟩ := exists_cons_of_ne_nil checked.vin_ne_nil
  refine ⟨txin.prevout, ?_, ?_⟩ <;> simp [vinEq]

/-- The transactions of a valid block cohere, whatever is kept of the coins. -/
theorem coherent_of_structurallyValid {V : Type} {ledger : Ledger COutPoint V}
    {transferOf : CTransaction → Transfer COutPoint V}
    (spends : ∀ tx, (transferOf tx).spends = tx.spentOutpoints)
    (creates : ∀ tx, (transferOf tx).createdKeys = spendableOutpoints tx)
    (valid : StructurallyValid txs) (distinct : DistinctTxids txs)
    (free : OutputsFree ledger txs) : Ledger.Coherent ledger (txs.map transferOf) := by
  intro done transfer later split
  obtain ⟨before, rest, transactionsEq, doneEq, restEq⟩ := map_eq_append_iff.mp split
  obtain ⟨tx, after, restCons, transferEq, -⟩ := map_eq_cons_iff.mp restEq
  subst transactionsEq restCons doneEq transferEq
  have mem : tx ∈ before ++ tx :: after := mem_append_right _ mem_cons_self
  have checked := valid.checked tx mem
  refine ⟨?_, ?_, ?_⟩
  · intro point created
    rw [creates] at created
    exact free tx mem point created
  · rw [creates]
    exact spendableOutpoints_nodup checked
  · intro earlier earlierMem point inEarlier inTx
    obtain ⟨first, firstMem, rfl⟩ := mem_map.mp earlierMem
    rw [creates] at inEarlier inTx
    rw [spends, spends]
    have firstMem' : first ∈ before ++ tx :: after := mem_append_left _ firstMem
    have notCoinbase : tx.isCoinBase = false := by
      obtain ⟨coinbase, others, listEq, -, othersNot⟩ := valid.coinbase_first
      cases before with
      | nil => cases firstMem
      | cons head tail =>
        obtain ⟨-, tailEq⟩ := cons.inj listEq
        apply othersNot
        rw [← tailEq]
        exact mem_append_right _ mem_cons_self
    exact common_spend (distinct first firstMem' tx mem) checked notCoinbase inEarlier inTx

theorem blockTransfers_coherent (valid : StructurallyValid txs)
    (distinct : DistinctTxids txs) (unspent : NoUnspentOutput coins txs) :
    Ledger.Coherent coins (blockTransfers txs height) :=
  coherent_of_structurallyValid (fun _ => rfl)
    (fun tx => createdKeys_transfer tx height) valid distinct
    fun tx mem point created =>
      unspent tx mem point (outputOutpoints_of_spendable created)

theorem spentOutpoints_nodup {tx : CTransaction} (checked : CheckedTransaction tx) :
    tx.spentOutpoints.Nodup := by
  unfold spentOutpoints
  split
  · exact nodup_nil
  · exact checked.inputs_nodup

theorem blockTransfers_spends_nodup (checked : ∀ tx ∈ txs, CheckedTransaction tx) :
    ∀ transfer ∈ blockTransfers txs height, transfer.spends.Nodup := by
  intro transfer mem
  obtain ⟨tx, txMem, rfl⟩ := mem_map.mp mem
  exact spentOutpoints_nodup (checked tx txMem)

theorem spent_blockTransfers (txs : List CTransaction) (height : Int32) :
    spent (blockTransfers txs height) = txs.flatMap spentOutpoints := by
  rw [spent, blockTransfers, flatMap_map]
  rfl

theorem mem_created_take {index : Nat} {point : COutPoint} :
    point ∈ (created ((blockTransfers txs height).take index)).map Prod.fst ↔
      ∃ creator tx, creator < index ∧ txs[creator]? = some tx ∧ point ∈ spendableOutpoints tx := by
  rw [created, map_flatMap, mem_flatMap, blockTransfers, ← map_take]
  constructor
  · rintro ⟨transfer, transferMem, created⟩
    obtain ⟨tx, txMem, rfl⟩ := mem_map.mp transferMem
    obtain ⟨creator, found⟩ := mem_iff_getElem?.mp txMem
    rw [getElem?_take] at found
    by_cases early : creator < index
    · rw [if_pos early] at found
      have key := createdKeys_transfer tx height
      rw [Transfer.createdKeys] at key
      rw [key] at created
      exact ⟨creator, tx, early, found, created⟩
    · rw [if_neg early] at found
      cases found
  · rintro ⟨creator, tx, early, found, created⟩
    have txMem : tx ∈ txs.take index := by
      apply mem_iff_getElem?.mpr
      exact ⟨creator, by rw [getElem?_take, if_pos early, found]⟩
    refine ⟨tx.transfer height, mem_map_of_mem txMem, ?_⟩
    have key := createdKeys_transfer tx height
    rw [Transfer.createdKeys] at key
    rw [key]
    exact created

theorem created_take_nodup (coherent : Ledger.Coherent coins (blockTransfers txs height))
    (nodup : (txs.flatMap spentOutpoints).Nodup) (index : Nat) :
    ((created ((blockTransfers txs height).take index)).map Prod.fst).Nodup := by
  have fromStart : Ledger.Coherent coins ([] ++ blockTransfers txs height) := coherent
  have allNodup := fromStart.created_nodup (by rwa [nil_append, spent_blockTransfers]) nodup_nil
  rw [nil_append, ← take_append_drop index (blockTransfers txs height),
    created_append, map_append] at allNodup
  exact (nodup_append.mp allNodup).1

/-- The join finds for an input what the ledger holds after the transactions
before it. -/
theorem joinedCoin_eq_adding (valid : StructurallyValid txs)
    (coherent : Ledger.Coherent coins (blockTransfers txs height))
    (nodup : (txs.flatMap spentOutpoints).Nodup)
    (lookup : BlockSpentOutputLookup) :
    joinedCoin coins txs height lookup = coins.adding (created
        ((blockTransfers txs height).take lookup.transactionIndex))
        lookup.outpoint := by
  unfold joinedCoin
  rw [lookup_createdByTransaction]
  cases found : txs.findIdx? fun tx =>
      decide (lookup.outpoint ∈ spendableOutpoints tx) with
  | none =>
    have absent : lookup.outpoint ∉ (created
        ((blockTransfers txs height).take lookup.transactionIndex)).map
        Prod.fst := by
      rw [mem_created_take]
      rintro ⟨creator, tx, -, txEq, created⟩
      have never := findIdx?_eq_none_iff.mp found tx (mem_of_getElem? txEq)
      exact absurd created (of_decide_eq_false never)
    rw [adding_of_notMem absent]
  | some creator =>
    obtain ⟨bound, creates, firstCreator⟩ := findIdx?_eq_some_iff_getElem.mp found
    have txEq : txs[creator]? = some txs[creator] := getElem?_eq_getElem bound
    have mem : txs[creator] ∈ txs := getElem_mem bound
    have spendable : lookup.outpoint ∈ spendableOutpoints txs[creator] := of_decide_eq_true creates
    by_cases early : creator < lookup.transactionIndex
    · obtain ⟨coin, coinEq, coinMem⟩ : ∃ coin,
          (dependencyCoin txs height ⟨lookup, creator, .earlierTransaction⟩).toOption = some coin ∧
          (lookup.outpoint, coin) ∈ (txs[creator].transfer height).creates :=
        dependencyCoin_of_spendable txEq (valid.checked _ mem) spendable
      have coinCreated : (lookup.outpoint, coin) ∈ created
          ((blockTransfers txs height).take lookup.transactionIndex) := by
        refine mem_flatMap.mpr ⟨_, ?_, coinMem⟩
        rw [blockTransfers, ← map_take]
        apply mem_map_of_mem (f := fun tx => transfer tx height)
        exact mem_iff_getElem?.mpr ⟨creator, by rw [getElem?_take, if_pos early, txEq]⟩
      simp only [if_pos early, coinEq]
      exact (adding_of_mem (created_take_nodup coherent nodup _) coinCreated).symm
    · have absent : lookup.outpoint ∉ (created
          ((blockTransfers txs height).take lookup.transactionIndex)).map
          Prod.fst := by
        rw [mem_created_take]
        rintro ⟨other, tx, otherEarly, otherEq, created⟩
        have notFirst : other < creator := by omega
        have never := firstCreator other notFirst
        rw [getElem?_eq_getElem (by omega), Option.some.injEq] at otherEq
        rw [otherEq] at never
        exact never (decide_eq_true created)
      have free : coins lookup.outpoint = none := by
        apply coherent.free (mem_map_of_mem mem)
        rw [createdKeys_transfer]
        exact spendable
      simp only [if_neg early]
      rw [adding_of_notMem absent, free]

theorem joinedCoin_recorded (checked : ∀ tx ∈ txs, CheckedTransaction tx)
    {lookup : BlockSpentOutputLookup} {coin : CoinSnapshot}
    (joined : joinedCoin coins txs height lookup = some coin) :
    Ledger.Recorded coins ((blockTransfers txs height).take lookup.transactionIndex)
      lookup.outpoint coin := by
  unfold joinedCoin at joined
  rw [lookup_createdByTransaction] at joined
  cases first : txs.findIdx? fun tx =>
      decide (lookup.outpoint ∈ spendableOutpoints tx) with
  | none =>
    rw [first] at joined
    exact Or.inl joined
  | some creator =>
    simp only [first] at joined
    obtain ⟨inRange, creates, -⟩ := findIdx?_eq_some_iff_getElem.mp first
    by_cases early : creator < lookup.transactionIndex
    · rw [if_pos early] at joined
      obtain ⟨made, madeEq, mem⟩ := @dependencyCoin_of_spendable _ txs height
        ⟨lookup, creator, .earlierTransaction⟩ (getElem?_eq_getElem inRange)
        (checked _ (getElem_mem inRange))
        (of_decide_eq_true creates)
      obtain rfl : made = coin := Option.some.inj (madeEq.symm.trans joined)
      right
      apply mem_flatMap.mpr
      refine ⟨_, ?_, mem⟩
      apply mem_iff_getElem?.mpr
      refine ⟨creator, ?_⟩
      rw [getElem?_take, if_pos early, blockTransfers, getElem?_map, getElem?_eq_getElem inRange]
      rfl
    · rw [if_neg early] at joined
      cases joined

variable {found : List (List CoinSnapshot)}

theorem joinedCoins_recorded (checked : ∀ tx ∈ txs, CheckedTransaction tx)
    (allFound : joinedCoins coins txs height = found.map (map some))
    {index : Nat} {transfer : Transfer COutPoint CoinSnapshot} {row : List CoinSnapshot}
    (transferEq : (blockTransfers txs height)[index]? = some transfer)
    (rowEq : found[index]? = some row) :
    List.Forall₂ (Ledger.Recorded coins ((blockTransfers txs height).take index))
      transfer.spends row := by
  rw [blockTransfers, getElem?_map, Option.map_eq_some_iff] at transferEq
  obtain ⟨tx, txEq, rfl⟩ := transferEq
  have rows := congrArg (fun grid => grid[index]?) allFound
  simp only [joinedCoins, getElem?_mapIdx, getElem?_map, txEq, rowEq, Option.map_some,
    Option.some.injEq] at rows
  have lengths := congrArg List.length rows
  rw [length_mapIdx, length_map] at lengths
  refine forall₂_iff_get.mpr ⟨lengths, ?_⟩
  intro input spendBound rowBound
  change input < tx.spentOutpoints.length at spendBound
  have atInput := congrArg (fun cells => cells[input]?) rows
  simp only [getElem?_mapIdx, getElem?_map, getElem?_eq_getElem spendBound,
    getElem?_eq_getElem rowBound, Option.map_some, Option.some.injEq] at atInput
  exact joinedCoin_recorded checked atInput

theorem joinedCoins_length (allFound : joinedCoins coins txs height = found.map (map some)) :
    found.length = txs.length := by
  have lengths := congrArg List.length allFound
  rw [joinedCoins, length_mapIdx, length_map] at lengths
  exact lengths.symm

/-- A block of which the join finds every coin runs, unless it overwrites one. -/
theorem joinedCoins_run (valid : StructurallyValid txs) (nodup : (txs.flatMap spentOutpoints).Nodup)
    (allFound : joinedCoins coins txs height = found.map (map some))
    (free : coins.OverwritesNothing (blockTransfers txs height)) :
    ∃ final, coins.run (blockTransfers txs height) = some (found, final) := by
  refine (keeps_nil coins).run_eq_some free ?_ ?_ ?_
  · rw [nil_append, spent_blockTransfers]
    exact nodup
  · rw [joinedCoins_length allFound, blockTransfers, length_map]
  · intro index transfer row transferEq rowEq
    rw [nil_append]
    exact joinedCoins_recorded valid.checked allFound transferEq rowEq

theorem joinedCoins_iff_run (valid : StructurallyValid txs)
    (coherent : Ledger.Coherent coins (blockTransfers txs height))
    :
    ((txs.flatMap spentOutpoints).Nodup ∧ joinedCoins coins txs height = found.map (map some)) ↔
      ∃ final, coins.run (blockTransfers txs height) = some (found, final) := by
  have sameGrid : (txs.flatMap spentOutpoints).Nodup → joinedCoins coins txs height =
        (blockTransfers txs height).mapIdx fun index transfer =>
          transfer.spends.map (coins.adding (created
            ([] ++ (blockTransfers txs height).take index))) := by
    intro nodup
    rw [joinedCoins, blockTransfers, mapIdx_map]
    apply mapIdx_congr
    intro index tx _
    apply mapIdx_eq_map
    intro inputIndex point
    exact joinedCoin_eq_adding valid coherent nodup ⟨point, index, inputIndex⟩
  constructor
  · rintro ⟨nodup, allFound⟩
    rw [sameGrid nodup, ← resolves_iff] at allFound
    rw [← spent_blockTransfers txs height] at nodup
    exact ⟨_, (run_eq_some coherent).mpr ⟨nodup, allFound, rfl⟩⟩
  · rintro ⟨final, ran⟩
    obtain ⟨nodup, resolves, -⟩ := (run_eq_some coherent).mp ran
    rw [spent_blockTransfers] at nodup
    rw [sameGrid nodup]
    exact ⟨nodup, resolves_iff.mp resolves⟩

end Coherent

end Champy
