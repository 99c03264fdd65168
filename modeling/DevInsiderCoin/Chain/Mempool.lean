import DevInsiderCoin.Chain.Balances

/-! The mempool over a run of `AddToMempool` and `AddBlock` calls.

`AddToMempool` appends what it admits; `AddBlock`, once its commit succeeds, drops every
pending transaction whose id the block carries. A failed call changes nothing in the
mempool. So the mempool is the history's pending admissions: each admitted transaction not
followed by a committed block carrying its id, in admission order. A template takes the
first of them that fit beside its reward transactions.
-/

set_option autoImplicit false

namespace DevInsiderCoin

/-- What a call does to the mempool: `AddToMempool` admits a transaction, or `AddBlock`
commits a block. -/
inductive MempoolEvent where
  | accept (tx : Transaction)
  | commit (block : Block)

/-- The event takes a transaction of this id out of the mempool: a committed block that
carries a transaction with that id. -/
def MempoolEvent.removes (id : String) : MempoolEvent → Bool
  | .accept _ => false
  | .commit block => block.transactions.any (·.txID == id)

/-- The transactions a history leaves pending: every admission not followed by an event
that removes its id, in admission order. -/
def pending : List MempoolEvent → List Transaction
  | [] => []
  | .accept tx :: rest => if rest.any (·.removes tx.txID) then pending rest else tx :: pending rest
  | .commit _ :: rest => pending rest

theorem pending_append_accept (events : List MempoolEvent) (tx : Transaction) :
    pending (events ++ [.accept tx]) = pending events ++ [tx] := by
  have hkeep : ∀ (rest : List MempoolEvent) (id : String),
      (rest ++ [MempoolEvent.accept tx]).any (·.removes id) = rest.any (·.removes id) := fun rest id => by
    simp [List.any_append, MempoolEvent.removes]
  induction events with
  | nil => simp [pending, MempoolEvent.removes]
  | cons e rest ih =>
    cases e with
    | accept t =>
      show (if (rest ++ [MempoolEvent.accept tx]).any (·.removes t.txID) then pending (rest ++ [MempoolEvent.accept tx])
        else t :: pending (rest ++ [MempoolEvent.accept tx])) = _
      rw [hkeep, ih]
      by_cases hr : rest.any (·.removes t.txID) <;> simp [pending, hr]
    | commit b => exact ih

theorem pending_append_commit (events : List MempoolEvent) (block : Block) :
    pending (events ++ [.commit block]) = (pending events).filter (fun tx => tx.txID ∉ collectTxIDs block) := by
  have hany : ∀ (rest : List MempoolEvent) (id : String), (rest ++ [MempoolEvent.commit block]).any (·.removes id) =
      (rest.any (·.removes id) || decide (id ∈ collectTxIDs block)) := fun rest id => by
    rw [List.any_append, List.any_cons, List.any_nil, Bool.or_false]
    congr 1
    rw [Bool.eq_iff_iff]
    simp only [MempoolEvent.removes, collectTxIDs, List.any_eq_true, beq_iff_eq, List.mem_map, decide_eq_true_eq]
  induction events with
  | nil => rfl
  | cons e rest ih =>
    cases e with
    | accept t =>
      show (if (rest ++ [MempoolEvent.commit block]).any (·.removes t.txID)
        then pending (rest ++ [MempoolEvent.commit block]) else t :: pending (rest ++ [MempoolEvent.commit block])) = _
      rw [hany, ih]
      by_cases hr : rest.any (·.removes t.txID) <;> by_cases ht : t.txID ∈ collectTxIDs block <;>
        simp [pending, hr, ht, List.filter_cons]
    | commit b => exact ih

theorem pending_map_accept (txs : List Transaction) : pending (txs.map .accept) = txs := by
  induction txs with
  | nil => rfl
  | cons t rest ih =>
    have hnone : (rest.map MempoolEvent.accept).any (·.removes t.txID) = false := by
      simp [MempoolEvent.removes]
    simp only [List.map_cons, pending, hnone, ih]
    rfl

namespace Blockchain

def admitted (bc : Blockchain) (tx : Transaction) : List MempoolEvent :=
  match bc.addToMempool tx with
  | .ok _ => [.accept tx]
  | .error _ => []

def added (bc : Blockchain) (block : Block) (disk : Disk) : List MempoolEvent :=
  match (bc.addBlock block disk).1 with
  | .ok _ => [.commit block]
  | .error _ => []

/-- A run of `AddToMempool` and `AddBlock` calls from `bc₀`, each of which may fail, with
the history of what they did to the mempool. -/
inductive CallRun (bc₀ : Blockchain) : List MempoolEvent → Blockchain → Prop
  | start : CallRun bc₀ [] bc₀
  | submit {events : List MempoolEvent} {bc : Blockchain} (tx : Transaction) :
      CallRun bc₀ events bc → CallRun bc₀ (events ++ bc.admitted tx) (bc.submit tx)
  | addBlock {events : List MempoolEvent} {bc : Blockchain} (block : Block) (disk : Disk) :
      CallRun bc₀ events bc → CallRun bc₀ (events ++ bc.added block disk) (bc.addBlock block disk).2

variable {bc : Blockchain} {events : List MempoolEvent}

theorem mempool_submit (h : bc.mempool = pending events) (tx : Transaction) :
    (bc.submit tx).mempool = pending (events ++ bc.admitted tx) := by
  unfold submit admitted
  cases hadd : bc.addToMempool tx with
  | ok bc' => rw [(addToMempool_eq_ok.1 hadd).2, pending_append_accept, h]
  | error e => rw [List.append_nil, h]

theorem mempool_addBlock (h : bc.mempool = pending events) (block : Block) (disk : Disk) :
    (bc.addBlock block disk).2.mempool = pending (events ++ bc.added block disk) := by
  have herr : ∀ {r : Except AddBlockError Unit}, r ≠ .ok () →
      (match r with | .ok _ => [MempoolEvent.commit block] | .error _ => []) = [] := by
    intro r hr
    cases r with
    | ok u => exact absurd rfl hr
    | error e => rfl
  unfold added
  rcases addBlock_cases bc block disk with ⟨-, hst, hr⟩ | ⟨-, hst, hr⟩ | ⟨-, -, hr, hst⟩
  · rw [herr hr, List.append_nil, hst, h]
  · rw [herr hr, List.append_nil, hst, applied_mempool, h]
  · rw [hr, hst, committed_mempool, pending_append_commit, h]

theorem callRun_mempool {bc₀ : Blockchain} (hrun : CallRun bc₀ events bc) :
    bc.mempool = pending (bc₀.mempool.map .accept ++ events) := by
  induction hrun with
  | start => rw [List.append_nil, pending_map_accept]
  | submit tx _ ih => rw [← List.append_assoc]; exact mempool_submit ih tx
  | addBlock block disk _ ih => rw [← List.append_assoc]; exact mempool_addBlock ih block disk

/-! ## The mempool in a template -/

theorem mempoolPrefix_eq_take (bc : Blockchain) (rewards : List Transaction)
    (hsmall : bc.config.maxBlockTransactions.toNat < 2 ^ 63) (hr : rewards.length < 2 ^ 63) :
    bc.mempoolPrefix rewards = bc.mempool.take (bc.config.maxBlockTransactions.toNat - rewards.length) := by
  have hint : (bc.config.maxBlockTransactions.toBitVec - BitVec.ofNat 64 rewards.length).toInt =
      (bc.config.maxBlockTransactions.toNat : Int) - rewards.length := by
    have hM : bc.config.maxBlockTransactions.toBitVec.toNat = bc.config.maxBlockTransactions.toNat := rfl
    rw [BitVec.toInt_eq_toNat_cond, BitVec.toNat_sub, BitVec.toNat_ofNat, hM]
    split <;> omega
  unfold mempoolPrefix
  dsimp only
  rw [hint]
  split <;> split <;> rename_i h₁ h₂
  · rw [Int.toNat_ofNat, List.take_length, List.take_of_length_le (by omega)]
  · rw [List.length_eq_zero.1 (show bc.mempool.length = 0 by omega), List.take_nil]
  · congr 1
    omega
  · rw [show bc.config.maxBlockTransactions.toNat - rewards.length = 0 by omega, List.take_zero]

theorem createBlockTemplate_transactions {minerAddress : String} {clock : TemplateClock} {template : Block}
    (hsmall : bc.config.maxBlockTransactions.toNat < 2 ^ 63)
    (ht : bc.createBlockTemplate minerAddress clock = .ok template) :
    ∃ totalReward, template.transactions =
      bc.rewardTransactions minerAddress clock bc.store.getBlockCount totalReward ++
        bc.mempool.take (bc.config.maxBlockTransactions.toNat -
          (bc.rewardTransactions minerAddress clock bc.store.getBlockCount totalReward).length) := by
  obtain ⟨totalReward, bits, -, -, rfl⟩ := createBlockTemplate_eq_ok.1 ht
  refine ⟨totalReward, ?_⟩
  show bc.templateTransactions minerAddress clock bc.store.getBlockCount totalReward = _
  rw [templateTransactions, mempoolPrefix_eq_take _ _ hsmall
    ((length_rewardTransactions_le bc _ _ _ _).trans_lt (by decide))]

theorem one_le_length_rewardTransactions (minerAddress : String) (clock : TemplateClock) (height : UInt64)
    (totalReward : ℚ) : 1 ≤ (bc.rewardTransactions minerAddress clock height totalReward).length := by
  unfold rewardTransactions
  dsimp only
  split <;> simp

/-- The mempool is what was admitted and not yet mined, and a template takes from its front. -/
theorem mempool_pending_and_template_prefix :
    (∀ {bc₀ bc : Blockchain} {events : List MempoolEvent}, CallRun bc₀ events bc →
      bc.mempool = pending (bc₀.mempool.map .accept ++ events)) ∧
    ∀ {bc : Blockchain} {minerAddress : String} {clock : TemplateClock} {template : Block},
      bc.config.maxBlockTransactions.toNat < 2 ^ 63 → bc.createBlockTemplate minerAddress clock = .ok template →
      ∃ rewards : List Transaction, 1 ≤ rewards.length ∧ rewards.length ≤ 2 ∧
        (∀ tx ∈ rewards, tx.type = "coinbase" ∨ tx.type = "pos_reward") ∧
        template.transactions = rewards ++ bc.mempool.take (bc.config.maxBlockTransactions.toNat - rewards.length) :=
  ⟨callRun_mempool, fun hsmall ht => by
    obtain ⟨totalReward, htxs⟩ := createBlockTemplate_transactions hsmall ht
    exact ⟨_, one_le_length_rewardTransactions _ _ _ _, length_rewardTransactions_le _ _ _ _ _,
      fun _ h => reward_of_mem_rewardTransactions h, htxs⟩⟩

theorem mempool_pending_and_template_prefix_spends :
    CallRun afterFirst [.accept (spend "t1"), .accept (spend "t2"), .commit (spendsBlock "t1" "t2")]
        ((twoSpends "t1" "t2").committed (spendsBlock "t1" "t2")) ∧
      ((twoSpends "t1" "t2").committed (spendsBlock "t1" "t2")).mempool =
        pending (afterFirst.mempool.map .accept ++
          [.accept (spend "t1"), .accept (spend "t2"), .commit (spendsBlock "t1" "t2")]) ∧
      (twoSpends "t1" "t2").config.maxBlockTransactions.toNat < 2 ^ 63 ∧
      (twoSpends "t1" "t2").createBlockTemplate "pool" ⟨0, 0, 0⟩ =
        .ok ((twoSpends "t1" "t2").templateBlock "pool" ⟨0, 0, 0⟩ 50 0x2200FFFF) ∧
      ∃ rewards : List Transaction, 1 ≤ rewards.length ∧ rewards.length ≤ 2 ∧
        (∀ tx ∈ rewards, tx.type = "coinbase" ∨ tx.type = "pos_reward") ∧
        ((twoSpends "t1" "t2").templateBlock "pool" ⟨0, 0, 0⟩ 50 0x2200FFFF).transactions = rewards ++
          (twoSpends "t1" "t2").mempool.take
            ((twoSpends "t1" "t2").config.maxBlockTransactions.toNat - rewards.length) := by
  have h30 : 30 ≤ afterFirst.getBalance "miner" := by
    rw [getBalance_afterFirst]
    norm_num
  have hfirst : afterFirst.admitted (spend "t1") = [.accept (spend "t1")] := by
    rw [admitted, addToMempool_eq_ok.2 ⟨admissible_spend "t1" h30, rfl⟩]
  have hsecond : (afterFirst.submit (spend "t1")).admitted (spend "t2") = [.accept (spend "t2")] := by
    have h30' : 30 ≤ ({ afterFirst with mempool := afterFirst.mempool ++ [spend "t1"] } : Blockchain).getBalance
        "miner" := h30
    rw [submit_spend "t1" h30, admitted, addToMempool_eq_ok.2 ⟨admissible_spend "t2" h30', rfl⟩]
  have hadded : (twoSpends "t1" "t2").added (spendsBlock "t1" "t2") .ok = [.commit (spendsBlock "t1" "t2")] := by
    rw [added, addBlock_spendsBlock "t1" "t2" rfl rfl]
  have hspends : CallRun afterFirst ([] ++ afterFirst.admitted (spend "t1") ++
      (afterFirst.submit (spend "t1")).admitted (spend "t2")) (twoSpends "t1" "t2") :=
    (CallRun.start.submit _).submit _
  have hrun := hspends.addBlock (spendsBlock "t1" "t2") .ok
  rw [hfirst, hsecond, hadded, addBlock_spendsBlock "t1" "t2" rfl rfl] at hrun
  have ht := (permissiveNext_twoSpends "t1" "t2").createBlockTemplate "pool" ⟨0, 0, 0⟩
  have hsmall : (twoSpends "t1" "t2").config.maxBlockTransactions.toNat < 2 ^ 63 := by
    rw [(permissiveNext_twoSpends "t1" "t2").config]
    decide
  exact ⟨hrun, mempool_pending_and_template_prefix.1 hrun, hsmall, ht, mempool_pending_and_template_prefix.2 hsmall ht⟩

def zeroTransfer : Transaction :=
  { txID := "transfer-1", type := "transfer", «from» := "alice", «to» := "bob", amount := 0, fee := 0,
    timestamp := 0, signature := "", outputs := [] }

theorem template_omits_fitting_mempool :
    Reachable tightPermissive ((genesisState tightPermissive 0).submit zeroTransfer) ∧
      ((genesisState tightPermissive 0).submit zeroTransfer).mempool = [zeroTransfer] ∧
      tightPermissive.maxBlockTransactions.toNat = 1 ∧
      ∃ template, ((genesisState tightPermissive 0).submit zeroTransfer).createBlockTemplate "miner" ⟨0, 0, 0⟩ =
        .ok template ∧ zeroTransfer ∉ template.transactions := by
  have hsubmit : (genesisState tightPermissive 0).submit zeroTransfer =
      { genesisState tightPermissive 0 with mempool := [zeroTransfer] } :=
    ((submit_cases _ _).resolve_right fun hn => hn.1
      ⟨fun _ => by simp [zeroTransfer, getBalance, balanceOf, genesisState, Blockchain.fresh],
        fun h => by simp [zeroTransfer] at h, fun h => by simp [zeroTransfer] at h,
        fun h => by simp [zeroTransfer] at h⟩).2
  have hreward : ({ genesisState tightPermissive 0 with mempool := [zeroTransfer] } : Blockchain).calcBlockReward 1 =
      .ok 50 := by
    unfold calcBlockReward
    simp [genesisState, Blockchain.fresh, tightPermissive, NetworkConfig.permissive, halve, dust]
    norm_num
  have hbits : ({ genesisState tightPermissive 0 with mempool := [zeroTransfer] } : Blockchain).templateBits 1
      (({ genesisState tightPermissive 0 with mempool := [zeroTransfer] } : Blockchain).parentOf 1).2 =
      .ok 0x2200FFFF := by
    rw [parentOf_of_tip rfl (by decide), templateBits_off_interval _ (by decide) (by decide) (by decide)]
    rfl
  have hcount : ({ genesisState tightPermissive 0 with mempool := [zeroTransfer] } : Blockchain).store.getBlockCount =
      1 := getBlockCount_genesisState _ _
  refine ⟨.submit _ (.genesis 0 (fun _ => .ok) .ok (newBlockchain_empty.2 ⟨rfl, rfl⟩)), by rw [hsubmit], rfl, ?_⟩
  rw [hsubmit]
  have ht : ({ genesisState tightPermissive 0 with mempool := [zeroTransfer] } : Blockchain).createBlockTemplate
      "miner" ⟨0, 0, 0⟩ = .ok _ := createBlockTemplate_eq_ok.2 ⟨50, 0x2200FFFF, hcount ▸ hreward, hcount ▸ hbits, rfl⟩
  refine ⟨_, ht, fun hmem => ?_⟩
  obtain ⟨totalReward, htxs⟩ := createBlockTemplate_transactions (by decide) ht
  have hone : 1 ≤ (({ genesisState tightPermissive 0 with mempool := [zeroTransfer] } : Blockchain).rewardTransactions
      "miner" ⟨0, 0, 0⟩ 1 totalReward).length := one_le_length_rewardTransactions _ _ _ _
  have hmax : ({ genesisState tightPermissive 0 with mempool := [zeroTransfer] } : Blockchain).config.maxBlockTransactions.toNat =
      1 := rfl
  rw [htxs, hcount, hmax, show 1 - _ = 0 by omega, List.take_zero, List.append_nil] at hmem
  rcases reward_of_mem_rewardTransactions hmem with h | h <;> exact absurd h (by decide)

end Blockchain

end DevInsiderCoin
