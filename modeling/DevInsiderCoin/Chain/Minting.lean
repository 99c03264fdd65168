import Mathlib.Algebra.Order.BigOperators.Group.List
import Mathlib.Tactic.Linarith
import Mathlib.Tactic.Ring
import DevInsiderCoin.Chain.Acceptance

/-! Minting: what a block adds to `TotalMinted`, and the supply bound.

`AddBlock` mints the outputs of every coinbase and `pos_reward` transaction of a block it
accepts, and `validateBlock` never looks at them, so a block can mint any amount. A
template mints at most the block reward; on an honest run, where every block is a solved
template and no reward transaction is handed to the mempool, the minted total stays
within `MaxSupply`.
-/

set_option autoImplicit false

namespace DevInsiderCoin

def Transaction.minted (tx : Transaction) : ℚ :=
  if tx.type = "coinbase" ∨ tx.type = "pos_reward" then (tx.outputs.map (·.amount)).sum else 0

/-- A transaction that mints nothing: what an honest run hands to `AddToMempool`. -/
def Transaction.NonReward (tx : Transaction) : Prop := tx.type ≠ "coinbase" ∧ tx.type ≠ "pos_reward"

theorem Transaction.minted_of_nonReward {tx : Transaction} (h : tx.NonReward) : tx.minted = 0 := by
  simp [Transaction.minted, h.1, h.2]

namespace StakeManager

theorem foldl_eligible (l : List (Sigma fun _ : String => Stake)) (thr acc : ℚ) :
    l.foldl (fun total e => if e.2.amount ≥ thr then total + e.2.amount else total) acc =
      acc + (l.map fun e => if e.2.amount ≥ thr then e.2.amount else 0).sum := by
  induction l generalizing acc with
  | nil => simp
  | cons e l ih =>
    rw [List.foldl_cons, ih, List.map_cons, List.sum_cons]
    split <;> ring

theorem sum_payouts_le {reward E minThreshold : ℚ} (hpos : 0 ≤ reward / E) (hthr : 0 ≤ minThreshold) :
    ∀ l : List (Sigma fun _ : String => Stake),
      ((l.filterMap fun e => if e.2.amount < minThreshold then none else
          if reward * (e.2.amount / E) > dust then some (⟨e.1, reward * (e.2.amount / E)⟩ : TxOutput)
          else none).map (·.amount)).sum ≤
        reward / E * (l.map fun e => if e.2.amount ≥ minThreshold then e.2.amount else 0).sum
  | [] => by simp
  | e :: l => by
    have ih := sum_payouts_le hpos hthr l
    rw [List.filterMap_cons, List.map_cons, List.sum_cons, mul_add]
    by_cases ha : e.2.amount < minThreshold
    · simp only [ha, if_true, ge_iff_le, not_le.2 ha, if_false, mul_zero, zero_add]
      exact ih
    · have hshare : 0 ≤ reward / E * e.2.amount := mul_nonneg hpos (hthr.trans (not_lt.1 ha))
      have hrw : reward * (e.2.amount / E) = reward / E * e.2.amount := by ring
      by_cases hr : reward * (e.2.amount / E) > dust
      · simp only [ha, if_false, hr, if_true, ge_iff_le, not_lt.1 ha, List.map_cons, List.sum_cons]
        rw [hrw]
        exact add_le_add_left ih _
      · simp only [ha, if_false, hr, ge_iff_le, not_lt.1 ha, if_true]
        exact le_add_of_nonneg_of_le hshare ih

theorem sum_calcPOSRewards_le (sm : StakeManager) {reward minThreshold : ℚ} (hreward : 0 ≤ reward)
    (hthr : 0 ≤ minThreshold) : ((sm.calcPOSRewards reward minThreshold).map (·.amount)).sum ≤ reward := by
  unfold calcPOSRewards
  dsimp only
  rw [foldl_eligible, zero_add]
  generalize hE : (sm.stakes.entries.map fun e => if e.2.amount ≥ minThreshold then e.2.amount else 0).sum = E
  split
  · simpa using hreward
  · have hE0 : 0 < E := lt_of_le_of_ne (hE ▸ List.sum_nonneg fun x hx => by
      obtain ⟨e, -, rfl⟩ := List.mem_map.1 hx
      split
      · exact hthr.trans ‹_›
      · exact le_rfl) (Ne.symm ‹_›)
    exact (sum_payouts_le (div_nonneg hreward hE0.le) hthr sm.stakes.entries).trans
      (by rw [hE, div_mul_cancel₀ _ (ne_of_gt hE0)])

theorem eligibleStaked_eq (sm : StakeManager) (minThreshold : ℚ) :
    sm.stakes.entries.foldl (fun total e => if e.2.amount ≥ minThreshold then total + e.2.amount else total) 0 =
      (sm.stakes.entries.map fun e => if minThreshold ≤ e.2.amount then e.2.amount else 0).sum := by
  rw [foldl_eligible, zero_add]

theorem mem_calcPOSRewards (sm : StakeManager) (totalReward minThreshold : ℚ) (address : String) (reward : ℚ) :
    (⟨address, reward⟩ : TxOutput) ∈ sm.calcPOSRewards totalReward minThreshold ↔
      ∃ s, sm.stakes.lookup address = some s ∧ minThreshold ≤ s.amount ∧
        reward = totalReward * (s.amount /
          (sm.stakes.entries.map fun e => if minThreshold ≤ e.2.amount then e.2.amount else 0).sum) ∧
        dust < reward := by
  unfold calcPOSRewards
  dsimp only
  rw [eligibleStaked_eq]
  generalize (sm.stakes.entries.map fun e => if minThreshold ≤ e.2.amount then e.2.amount else 0).sum = E
  split
  · subst E
    simp only [List.not_mem_nil, false_iff, div_zero, mul_zero]
    rintro ⟨s, -, -, rfl, hdust⟩
    exact absurd hdust (by norm_num [dust])
  · simp only [List.mem_filterMap]
    constructor
    · rintro ⟨⟨a, s⟩, he, hF⟩
      split_ifs at hF with hlow hdust
      cases hF
      exact ⟨s, AList.mem_lookup_iff.2 he, not_lt.1 hlow, rfl, hdust⟩
    · rintro ⟨s, he, hthr, rfl, hdust⟩
      exact ⟨⟨address, s⟩, AList.mem_lookup_iff.1 he, by simp [not_lt.2 hthr, hdust]⟩

theorem map_address_filterMap_sublist (F : (Sigma fun _ : String => Stake) → Option TxOutput)
    (hF : ∀ e o, F e = some o → o.address = e.1) :
    ∀ l : List (Sigma fun _ : String => Stake), List.Sublist ((l.filterMap F).map (·.address)) l.keys
  | [] => by simp
  | e :: l => by
    rw [List.filterMap_cons, List.keys_cons]
    cases h : F e with
    | none => exact (map_address_filterMap_sublist F hF l).cons _
    | some o => simpa [hF e o h] using (map_address_filterMap_sublist F hF l).cons₂ e.1

theorem nodup_calcPOSRewards (sm : StakeManager) (totalReward minThreshold : ℚ) :
    ((sm.calcPOSRewards totalReward minThreshold).map (·.address)).Nodup := by
  unfold calcPOSRewards
  dsimp only
  split
  · simp
  · refine List.Nodup.sublist (map_address_filterMap_sublist _ (fun e o h => ?_) _) sm.stakes.nodupKeys
    split_ifs at h
    cases h
    rfl

/-- `CalcPOSRewards` pays each eligible staker its share once, and only when the share exceeds dust. -/
theorem calcPOSRewards_outputs (sm : StakeManager) {totalReward minThreshold : ℚ} (hreward : 0 ≤ totalReward)
    (hthr : 0 < minThreshold) :
    (∀ address reward, (⟨address, reward⟩ : TxOutput) ∈ sm.calcPOSRewards totalReward minThreshold ↔
      ∃ s, sm.stakes.lookup address = some s ∧ minThreshold ≤ s.amount ∧
        reward = totalReward * (s.amount /
          (sm.stakes.entries.map fun e => if minThreshold ≤ e.2.amount then e.2.amount else 0).sum) ∧
        dust < reward) ∧
      ((sm.calcPOSRewards totalReward minThreshold).map (·.address)).Nodup ∧
      ((sm.calcPOSRewards totalReward minThreshold).map (·.amount)).sum ≤ totalReward :=
  ⟨mem_calcPOSRewards sm totalReward minThreshold, nodup_calcPOSRewards sm totalReward minThreshold,
    sum_calcPOSRewards_le sm hreward hthr.le⟩

theorem calcPOSRewards_drops_exact_dust :
    (0 : ℚ) ≤ 1 / 10 ^ 8 ∧ (0 : ℚ) < 10 ∧
      (empty.addStake "alice" 10 0).stakes.lookup "alice" = some ⟨"alice", 10, 0⟩ ∧
      (1 / 10 ^ 8 : ℚ) * (10 / 10) = dust ∧
      (empty.addStake "alice" 10 0).calcPOSRewards (1 / 10 ^ 8) 10 = [] := by
  have hout := calcPOSRewards_outputs (empty.addStake "alice" 10 0) (by norm_num : (0 : ℚ) ≤ 1 / 10 ^ 8)
    (by norm_num : (0 : ℚ) < 10)
  have hlookup : ∀ a, (empty.addStake "alice" 10 0).stakes.lookup a =
      if a = "alice" then some ⟨"alice", 10, 0⟩ else none := fun a => by
    by_cases ha : a = "alice"
    · subst ha
      simp only [empty, addStake, AList.lookup_empty, AList.lookup_insert, if_true]
    · simp only [empty, addStake, AList.lookup_empty, AList.lookup_insert_ne ha, ha, if_false]
  refine ⟨by norm_num, by norm_num, by simp [hlookup], by norm_num [dust],
    List.eq_nil_iff_forall_not_mem.2 fun ⟨a, r⟩ hmem => ?_⟩
  obtain ⟨s, hs, -, rfl, hdust⟩ := (hout.1 a r).1 hmem
  rw [hlookup] at hs
  split_ifs at hs
  cases hs
  norm_num [empty, addStake, dust] at hdust

end StakeManager

namespace Application

theorem blockMinted_foldl_mint (outputs : List TxOutput) (app : Application) :
    (outputs.foldl mint app).blockMinted = app.blockMinted + (outputs.map (·.amount)).sum := by
  induction outputs generalizing app with
  | nil => simp
  | cons o rest ih =>
    rw [List.foldl_cons, ih]
    simp [mint, add_assoc]

theorem blockMinted_applyTransaction (height : UInt64) (app : Application) (tx : Transaction) :
    (app.applyTransaction height tx).blockMinted = app.blockMinted + tx.minted := by
  unfold applyTransaction Transaction.minted
  split_ifs <;> simp [blockMinted_foldl_mint, debit, credit, setBalance, recordStake]

end Application

namespace Blockchain

theorem blockMinted_applyBlock (bc : Blockchain) (block : Block) :
    (bc.applyBlock block).blockMinted = (block.transactions.map Transaction.minted).sum := by
  unfold applyBlock
  suffices ∀ (l : List Transaction) (app : Application),
      (l.foldl (Application.applyTransaction block.header.height) app).blockMinted =
        app.blockMinted + (l.map Transaction.minted).sum by
    simpa using this block.transactions ⟨bc.balances, bc.stakes, ∅, ∅, 0⟩
  intro l
  induction l with
  | nil => simp
  | cons tx l ih =>
    intro app
    rw [List.foldl_cons, ih, Application.blockMinted_applyTransaction, List.map_cons, List.sum_cons,
      add_assoc]

theorem calcBlockReward_bounds {bc : Blockchain} {height : UInt64} {reward : ℚ}
    (h : bc.calcBlockReward height = .ok reward) :
    0 ≤ reward ∧ (bc.totalMinted ≤ bc.config.maxSupply → bc.totalMinted + reward ≤ bc.config.maxSupply) := by
  have hdust : (0 : ℚ) < dust := by norm_num [dust]
  have hzero : 0 ≤ (0 : ℚ) ∧ (bc.totalMinted ≤ bc.config.maxSupply → bc.totalMinted + 0 ≤ bc.config.maxSupply) :=
    ⟨le_rfl, fun hT => (add_zero bc.totalMinted).symm ▸ hT⟩
  unfold calcBlockReward at h
  dsimp only at h
  split_ifs at h with hmax _ hsmall hcap <;> obtain rfl := Except.ok.inj h
  · exact hzero
  · exact hzero
  · exact ⟨sub_nonneg.2 (le_of_not_le hmax), fun _ => by rw [add_sub_cancel]⟩
  · exact ⟨hdust.le.trans (not_lt.1 hsmall), fun _ => le_sub_iff_add_le'.1 (not_lt.1 hcap)⟩

theorem minted_newCoinbaseTransaction (minerAddress : String) (reward : ℚ) (height : UInt64)
    (now : BitVec 64) : (newCoinbaseTransaction minerAddress reward height now).minted = reward := by
  simp [Transaction.minted]

theorem minted_rewardTransactions_le (bc : Blockchain) (minerAddress : String) (clock : TemplateClock)
    (height : UInt64) {reward : ℚ} (hreward : 0 ≤ reward) (hpos : 0 ≤ bc.config.posRewardShare)
    (hshares : bc.config.powRewardShare + bc.config.posRewardShare ≤ 1) (hthr : 0 ≤ bc.config.posMinThreshold) :
    ((bc.rewardTransactions minerAddress clock height reward).map Transaction.minted).sum ≤ reward := by
  unfold rewardTransactions
  dsimp only
  split
  · have hout := bc.stakes.sum_calcPOSRewards_le (mul_nonneg hreward hpos) hthr
    have hsplit := mul_le_mul_of_nonneg_left hshares hreward
    simp only [List.map_cons, List.map_nil, List.sum_cons, List.sum_nil, add_zero,
      minted_newCoinbaseTransaction]
    simp only [Transaction.minted, or_true, if_true]
    linarith
  · simp [minted_newCoinbaseTransaction]

theorem minted_of_mem_rewardTransactions {bc : Blockchain} {minerAddress : String} {clock : TemplateClock}
    {height : UInt64} {reward : ℚ} {tx : Transaction}
    (h : tx ∈ bc.rewardTransactions minerAddress clock height reward) :
    tx.minted = (tx.outputs.map (·.amount)).sum := by
  unfold rewardTransactions at h
  dsimp only at h
  split at h <;> simp only [List.mem_cons, List.mem_singleton, List.not_mem_nil, or_false] at h <;>
    rcases h with rfl | rfl <;> simp [Transaction.minted]

/-- A template never pays out more than the block reward, nor past `MaxSupply`. -/
theorem template_reward_outputs_le {bc : Blockchain} {minerAddress : String} {clock : TemplateClock}
    {template : Block} (ht : bc.createBlockTemplate minerAddress clock = .ok template)
    (hsupply : bc.totalMinted ≤ bc.config.maxSupply) (hpos : 0 ≤ bc.config.posRewardShare)
    (hshares : bc.config.powRewardShare + bc.config.posRewardShare ≤ 1) (hthr : 0 ≤ bc.config.posMinThreshold) :
    ∃ reward, bc.calcBlockReward bc.store.getBlockCount = .ok reward ∧
      bc.rewardTransactions minerAddress clock bc.store.getBlockCount reward <+: template.transactions ∧
      ((bc.rewardTransactions minerAddress clock bc.store.getBlockCount reward).map
        fun tx => (tx.outputs.map (·.amount)).sum).sum ≤ reward ∧
      reward ≤ bc.config.maxSupply - bc.totalMinted := by
  obtain ⟨reward, bits, hr, -, rfl⟩ := createBlockTemplate_eq_ok.1 ht
  obtain ⟨hnonneg, hcap⟩ := calcBlockReward_bounds hr
  refine ⟨reward, hr, List.prefix_append _ _, ?_, le_sub_iff_add_le'.2 (hcap hsupply)⟩
  rw [← List.map_congr_left fun _ htx => minted_of_mem_rewardTransactions htx]
  exact minted_rewardTransactions_le bc minerAddress clock _ hnonneg hpos hshares hthr

theorem template_reward_outputs_le_staker :
    ((genesisState tightPermissive 0).committed stakeBlock).createBlockTemplate "miner" ⟨0, 0, 0⟩ =
        .ok (((genesisState tightPermissive 0).committed stakeBlock).templateBlock "miner" ⟨0, 0, 0⟩ 50 0x2200FFFF) ∧
      ((genesisState tightPermissive 0).committed stakeBlock).totalMinted ≤ tightPermissive.maxSupply ∧
      (0 : ℚ) ≤ tightPermissive.posRewardShare ∧ tightPermissive.powRewardShare + tightPermissive.posRewardShare ≤ 1 ∧
      (0 : ℚ) ≤ tightPermissive.posMinThreshold ∧
      (((genesisState tightPermissive 0).committed stakeBlock).rewardTransactions "miner" ⟨0, 0, 0⟩ 2 50).length = 2 ∧
      ∃ reward, ((genesisState tightPermissive 0).committed stakeBlock).calcBlockReward
          ((genesisState tightPermissive 0).committed stakeBlock).store.getBlockCount = .ok reward ∧
        ((genesisState tightPermissive 0).committed stakeBlock).rewardTransactions "miner" ⟨0, 0, 0⟩
            ((genesisState tightPermissive 0).committed stakeBlock).store.getBlockCount reward <+:
          (((genesisState tightPermissive 0).committed stakeBlock).templateBlock "miner" ⟨0, 0, 0⟩ 50
            0x2200FFFF).transactions ∧
        ((((genesisState tightPermissive 0).committed stakeBlock).rewardTransactions "miner" ⟨0, 0, 0⟩
            ((genesisState tightPermissive 0).committed stakeBlock).store.getBlockCount reward).map
          fun tx => (tx.outputs.map (·.amount)).sum).sum ≤ reward ∧
        reward ≤ tightPermissive.maxSupply - ((genesisState tightPermissive 0).committed stakeBlock).totalMinted := by
  have hsupply : ((genesisState tightPermissive 0).committed stakeBlock).totalMinted ≤ tightPermissive.maxSupply := by
    rw [committed_totalMinted, applyBlock_stakeBlock]
    norm_num [totalMinted_genesisState, tightPermissive, NetworkConfig.permissive]
  have hpos : (0 : ℚ) ≤ tightPermissive.posRewardShare := by norm_num [tightPermissive, NetworkConfig.permissive]
  have hshares : tightPermissive.powRewardShare + tightPermissive.posRewardShare ≤ 1 := by
    norm_num [tightPermissive, NetworkConfig.permissive]
  have hthr : (0 : ℚ) ≤ tightPermissive.posMinThreshold := by norm_num [tightPermissive, NetworkConfig.permissive]
  exact ⟨createBlockTemplate_stakeBlock, hsupply, hpos, hshares, hthr, length_rewardTransactions_stakeBlock,
    template_reward_outputs_le createBlockTemplate_stakeBlock hsupply hpos hshares hthr⟩

theorem isPrefix_mempoolPrefix (bc : Blockchain) (rewards : List Transaction) :
    bc.mempoolPrefix rewards <+: bc.mempool := by
  unfold mempoolPrefix
  dsimp only
  split_ifs <;> simp [List.take_prefix]

theorem mem_of_mem_mempoolPrefix {bc : Blockchain} {rewards : List Transaction} {tx : Transaction}
    (h : tx ∈ bc.mempoolPrefix rewards) : tx ∈ bc.mempool :=
  (isPrefix_mempoolPrefix bc rewards).subset h

theorem blockMinted_templateBlock_le (bc : Blockchain) (minerAddress : String) (clock : TemplateClock)
    {reward : ℚ} {bits : UInt32} (nonce : UInt64) (hreward : 0 ≤ reward) (hpos : 0 ≤ bc.config.posRewardShare)
    (hshares : bc.config.powRewardShare + bc.config.posRewardShare ≤ 1) (hthr : 0 ≤ bc.config.posMinThreshold)
    (hmempool : ∀ tx ∈ bc.mempool, tx.NonReward) :
    (bc.applyBlock ((bc.templateBlock minerAddress clock reward bits).withNonce nonce)).blockMinted ≤ reward := by
  have hprefix : ∀ rewards, ((bc.mempoolPrefix rewards).map Transaction.minted).sum = 0 := fun _ =>
    List.sum_eq_zero fun x hx => by
      obtain ⟨tx, htx, rfl⟩ := List.mem_map.1 hx
      exact Transaction.minted_of_nonReward (hmempool tx (mem_of_mem_mempoolPrefix htx))
  rw [blockMinted_applyBlock, withNonce_transactions]
  simp only [templateBlock, templateTransactions, List.map_append, List.sum_append, hprefix, add_zero]
  exact minted_rewardTransactions_le bc minerAddress clock _ hreward hpos hshares hthr

/-! ## The supply bound on honest runs -/

/-- What keeps the minted total within the supply on an honest run: the total is within
it, and no transaction waiting in the mempool mints. -/
structure MintBounded (cfg : NetworkConfig) (bc : Blockchain) : Prop where
  config : bc.config = cfg
  supply : bc.totalMinted ≤ cfg.maxSupply
  mempool : ∀ tx ∈ bc.mempool, tx.NonReward

theorem MintBounded.submit {cfg : NetworkConfig} {bc : Blockchain} (h : MintBounded cfg bc)
    {tx : Transaction} (htx : tx.NonReward) : MintBounded cfg (bc.submit tx) := by
  rcases submit_cases bc tx with ⟨-, hs⟩ | ⟨-, hs⟩ <;> rw [hs]
  · refine ⟨h.config, h.supply, fun t ht => ?_⟩
    rcases List.mem_append.1 ht with ht | ht
    · exact h.mempool t ht
    · rw [List.mem_singleton.1 ht]
      exact htx
  · exact h

section Mine

variable {cfg : NetworkConfig} {bc : Blockchain} {minerAddress : String} {clock : TemplateClock}
  {template : Block}

theorem MintBounded.blockMinted_le (h : MintBounded cfg bc) (hpos : 0 ≤ cfg.posRewardShare)
    (hshares : cfg.powRewardShare + cfg.posRewardShare ≤ 1) (hthr : 0 ≤ cfg.posMinThreshold)
    (ht : bc.createBlockTemplate minerAddress clock = .ok template) {reward : ℚ}
    (hreward : bc.calcBlockReward template.header.height = .ok reward) (nonce : UInt64) :
    (bc.applyBlock (template.withNonce nonce)).blockMinted ≤ reward := by
  obtain ⟨reward', bits, hr, -, rfl⟩ := createBlockTemplate_eq_ok.1 ht
  obtain rfl : reward' = reward := Except.ok.inj (hr.symm.trans hreward)
  rw [← h.config] at hpos hshares hthr
  exact blockMinted_templateBlock_le bc minerAddress clock nonce (calcBlockReward_bounds hr).1 hpos hshares
    hthr h.mempool

theorem MintBounded.mine (h : MintBounded cfg bc) (hpos : 0 ≤ cfg.posRewardShare)
    (hshares : cfg.powRewardShare + cfg.posRewardShare ≤ 1) (hthr : 0 ≤ cfg.posMinThreshold)
    (ht : bc.createBlockTemplate minerAddress clock = .ok template) (nonce : UInt64) (disk : Disk) :
    MintBounded cfg (bc.addBlock (template.withNonce nonce) disk).2 := by
  obtain ⟨reward, bits, hr, -, htemplate⟩ := createBlockTemplate_eq_ok.1 ht
  have hminted := h.blockMinted_le hpos hshares hthr ht (by rw [htemplate]; exact hr) nonce
  have hbound := (calcBlockReward_bounds hr).2 (h.config ▸ h.supply)
  rw [h.config] at hbound
  rcases addBlock_cases bc (template.withNonce nonce) disk with ⟨-, hs, -⟩ | ⟨-, hs, -⟩ | ⟨-, -, -, hs⟩ <;>
    rw [hs]
  · exact h
  · exact ⟨h.config, by rw [applied_totalMinted]; linarith, h.mempool⟩
  · refine ⟨h.config, by rw [committed_totalMinted]; linarith, fun tx htx => ?_⟩
    rw [committed_mempool] at htx
    exact h.mempool tx (List.mem_of_mem_filter htx)

end Mine

theorem blockMinted_forgedBlock :
    ((genesisState NetworkConfig.permissive 0).applyBlock forgedBlock).blockMinted = 1000000000 := by
  rw [blockMinted_applyBlock]
  simp [forgedBlock, forgeBlock, forgedCoinbase, Transaction.minted]

end Blockchain

end DevInsiderCoin
