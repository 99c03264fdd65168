import DevInsiderCoin.Chain.Minting

/-! Balances on honest runs: when the debits `AddBlock` applies are covered, and where
coins appear from nothing.

`AddToMempool` checks a transfer or a stake against the sender's balance when it admits
it, and nothing checks it again: not the template, which takes a prefix of the mempool,
and not `AddBlock`. A debit stays covered until it is applied as long as no other debit of
the same sender waits with it and no credit is negative. An unstake is credited even when
the sender holds no stake, since `AddBlock` drops the error of `RemoveStake`.
-/

set_option autoImplicit false

namespace DevInsiderCoin

/-- A transfer or a stake: what `AddBlock` takes from the sender's balance. -/
def Transaction.IsDebit (tx : Transaction) : Prop := tx.type = "transfer" ∨ tx.type = "stake"

/-- What `AddBlock` moves for a transaction is not negative: the outputs of a reward, the
amount and fee of any other transaction. -/
def Transaction.NonNegative (tx : Transaction) : Prop :=
  if tx.type = "coinbase" ∨ tx.type = "pos_reward" then ∀ o ∈ tx.outputs, 0 ≤ o.amount
  else 0 ≤ tx.amount ∧ 0 ≤ tx.fee

/-- A debit covered by `balances`: a transfer of non-negative amount and fee within the
sender's balance, a stake within it. -/
structure Transaction.Covered (balances : Bucket String ℚ) (tx : Transaction) : Prop where
  transfer : tx.type = "transfer" → 0 ≤ tx.amount ∧ 0 ≤ tx.fee ∧ tx.amount + tx.fee ≤ balanceOf balances tx.from
  stake : tx.type = "stake" → tx.amount ≤ balanceOf balances tx.from

def DistinctDebits (txs : List Transaction) : Prop :=
  txs.Pairwise fun t t' => t.IsDebit → t'.IsDebit → t.from ≠ t'.from

namespace Transaction

theorem Covered.mono {balances balances' : Bucket String ℚ} {tx : Transaction} (h : tx.Covered balances)
    (hle : balanceOf balances tx.from ≤ balanceOf balances' tx.from) : tx.Covered balances' where
  transfer ht := let ⟨h₁, h₂, h₃⟩ := h.transfer ht; ⟨h₁, h₂, h₃.trans hle⟩
  stake hs := (h.stake hs).trans hle

theorem covered_of_not_isDebit {tx : Transaction} (h : ¬ tx.IsDebit) (balances : Bucket String ℚ) :
    tx.Covered balances :=
  ⟨fun ht => absurd (.inl ht) h, fun hs => absurd (.inr hs) h⟩

theorem not_isDebit_of_reward {tx : Transaction} (h : tx.type = "coinbase" ∨ tx.type = "pos_reward") :
    ¬ tx.IsDebit := by
  rintro (ht | ht) <;> rcases h with h | h <;> rw [h] at ht <;> exact absurd ht (by decide)

theorem nonNegative_of_nonReward {tx : Transaction} (h : tx.NonReward) (hamount : 0 ≤ tx.amount)
    (hfee : 0 ≤ tx.fee) : tx.NonNegative := by
  rw [NonNegative, if_neg (not_or.2 h)]
  exact ⟨hamount, hfee⟩

end Transaction

namespace StakeManager

def NonNeg (sm : StakeManager) : Prop := ∀ a s, sm.stakes.lookup a = some s → 0 ≤ s.amount

theorem NonNeg.getStake {sm : StakeManager} (h : sm.NonNeg) (a : String) : 0 ≤ sm.getStake a := by
  unfold StakeManager.getStake
  split
  · exact h a _ ‹_›
  · exact le_rfl

theorem NonNeg.addStake {sm : StakeManager} (h : sm.NonNeg) (a : String) {amount : ℚ} (hamount : 0 ≤ amount)
    (height : UInt64) : (sm.addStake a amount height).NonNeg := by
  intro b s hs
  by_cases hb : b = a
  · subst hb
    unfold StakeManager.addStake at hs
    split at hs <;> rw [AList.lookup_insert] at hs <;> cases hs
    · exact add_nonneg (h b _ ‹_›) hamount
    · exact hamount
  · exact h b s (by rwa [lookup_addStake_ne _ _ _ hb] at hs)

theorem NonNeg.removeStakeUnchecked {sm : StakeManager} (h : sm.NonNeg) (a : String) (amount : ℚ) :
    (sm.removeStakeUnchecked a amount).NonNeg := by
  unfold StakeManager.removeStakeUnchecked
  split
  · rename_i sm' hr
    intro b s hs
    by_cases hb : b = a
    · subst hb
      unfold StakeManager.removeStake at hr
      split at hr
      · contradiction
      · rename_i s₀ hs₀
        split_ifs at hr with hlt hdust <;> cases hr
        · simp at hs
        · rw [AList.lookup_insert] at hs
          cases hs
          exact sub_nonneg.2 (not_lt.1 hlt)
    · exact h b s (by rwa [lookup_removeStake_ne hr hb] at hs)
  · exact h

end StakeManager

namespace Application

structure NonNeg (app : Application) : Prop where
  balances : ∀ a, 0 ≤ balanceOf app.balances a
  stakes : app.stakes.NonNeg

theorem balanceOf_setBalance (app : Application) (a k : String) (v : ℚ) :
    balanceOf (app.setBalance a v).balances k = if k = a then v else balanceOf app.balances k := by
  by_cases hk : k = a
  · subst hk
    simp [setBalance, balanceOf, AList.lookup_insert]
  · simp [setBalance, balanceOf, AList.lookup_insert_ne hk, hk]

theorem balanceOf_credit_ge (app : Application) (a k : String) {amount : ℚ} (h : 0 ≤ amount) :
    balanceOf app.balances k ≤ balanceOf (app.credit a amount).balances k := by
  rw [credit, balanceOf_setBalance]
  split_ifs with hk
  · rw [hk]
    linarith
  · exact le_rfl

theorem balanceOf_debit_of_ne (app : Application) {a k : String} (amount : ℚ) (hk : k ≠ a) :
    balanceOf (app.debit a amount).balances k = balanceOf app.balances k := by
  rw [debit, balanceOf_setBalance, if_neg hk]

theorem balanceOf_foldl_mint_ge (outputs : List TxOutput) (app : Application) (k : String)
    (h : ∀ o ∈ outputs, 0 ≤ o.amount) : balanceOf app.balances k ≤ balanceOf (outputs.foldl mint app).balances k := by
  induction outputs generalizing app with
  | nil => exact le_rfl
  | cons o rest ih =>
    exact (balanceOf_credit_ge app o.address k (h o (List.mem_cons_self _ _))).trans
      (ih _ fun o' ho' => h o' (List.mem_cons_of_mem _ ho'))

theorem stakes_foldl_mint (outputs : List TxOutput) (app : Application) :
    (outputs.foldl mint app).stakes = app.stakes := by
  induction outputs generalizing app with
  | nil => rfl
  | cons o rest ih => exact ih _

theorem applyTransaction_coinbase (height : UInt64) (app : Application) {tx : Transaction}
    (htype : tx.type = "coinbase") {out : TxOutput} (houts : tx.outputs = [out]) :
    app.applyTransaction height tx = app.mint out := by
  rw [applyTransaction, if_pos (.inl htype), houts]
  rfl

theorem balanceOf_applyTransaction_ge (height : UInt64) (app : Application) {tx : Transaction} {k : String}
    (hnn : tx.NonNegative) (hk : tx.IsDebit → tx.from ≠ k) :
    balanceOf app.balances k ≤ balanceOf (app.applyTransaction height tx).balances k := by
  unfold applyTransaction
  unfold Transaction.NonNegative at hnn
  split_ifs at hnn ⊢ with h₁ h₂ h₃ h₄
  · exact balanceOf_foldl_mint_ge _ _ _ hnn
  · exact (balanceOf_debit_of_ne app _ (hk (.inl h₂)).symm).ge.trans (balanceOf_credit_ge _ _ _ hnn.1)
  · exact (balanceOf_debit_of_ne app _ (hk (.inr h₃)).symm).ge
  · exact balanceOf_credit_ge _ _ _ hnn.1
  · exact le_rfl

theorem NonNeg.applyTransaction {app : Application} (h : app.NonNeg) (height : UInt64) {tx : Transaction}
    (hnn : tx.NonNegative) (hcov : tx.Covered app.balances) : (app.applyTransaction height tx).NonNeg where
  balances k := by
    by_cases hk : tx.IsDebit ∧ tx.from = k
    · obtain ⟨hd, rfl⟩ := hk
      have hr : ¬(tx.type = "coinbase" ∨ tx.type = "pos_reward") := fun hr =>
        Transaction.not_isDebit_of_reward hr hd
      unfold Application.applyTransaction
      rw [if_neg hr]
      by_cases ht : tx.type = "transfer"
      · -- the sender pays amount and fee, and gets the amount back when it sends to itself
        obtain ⟨hamount, -, hle⟩ := hcov.transfer ht
        rw [if_pos ht]
        refine le_trans ?_ (balanceOf_credit_ge _ _ _ hamount)
        rw [debit, balanceOf_setBalance, if_pos rfl]
        linarith
      · have hs : tx.type = "stake" := hd.resolve_left ht
        rw [if_neg ht, if_pos hs]
        show 0 ≤ balanceOf (app.debit tx.from tx.amount).balances tx.from
        rw [debit, balanceOf_setBalance, if_pos rfl]
        linarith [hcov.stake hs]
    · exact (h.balances k).trans (balanceOf_applyTransaction_ge height app hnn fun hd hf => hk ⟨hd, hf⟩)
  stakes := by
    unfold Application.applyTransaction
    unfold Transaction.NonNegative at hnn
    split_ifs at hnn ⊢ with h₁ h₂ h₃ h₄
    · rw [stakes_foldl_mint]
      exact h.stakes
    · exact h.stakes
    · exact h.stakes.addStake _ hnn.1 _
    · exact h.stakes.removeStakeUnchecked _ _
    · exact h.stakes

theorem covered_applyTransaction {app : Application} {t tx : Transaction} (h : t.Covered app.balances)
    (height : UInt64) (hnn : tx.NonNegative) (hd : tx.IsDebit → t.IsDebit → tx.from ≠ t.from) :
    t.Covered (app.applyTransaction height tx).balances := by
  by_cases ht : t.IsDebit
  · exact h.mono (balanceOf_applyTransaction_ge height app hnn fun h' => hd h' ht)
  · exact Transaction.covered_of_not_isDebit ht _

def DebitsCovered (height : UInt64) : Application → List Transaction → Prop
  | _, [] => True
  | app, tx :: txs => tx.Covered app.balances ∧ DebitsCovered height (app.applyTransaction height tx) txs

theorem debitsCovered_foldl (height : UInt64) (others : List Transaction) :
    ∀ (txs : List Transaction) (app : Application), app.NonNeg → (∀ tx ∈ txs, tx.NonNegative) →
      DistinctDebits (txs ++ others) → (∀ tx ∈ txs ++ others, tx.Covered app.balances) →
      DebitsCovered height app txs ∧ (txs.foldl (applyTransaction height) app).NonNeg ∧
        ∀ t ∈ others, t.Covered (txs.foldl (applyTransaction height) app).balances
  | [], app, hnn, _, _, hcov => ⟨trivial, hnn, hcov⟩
  | tx :: txs, app, hnn, htxs, hdist, hcov => by
    have htx := htxs tx (List.mem_cons_self _ _)
    have hrest := List.pairwise_cons.1 hdist
    have ih := debitsCovered_foldl height others txs (app.applyTransaction height tx)
      (hnn.applyTransaction height htx (hcov tx (List.mem_cons_self _ _)))
      (fun t ht => htxs t (List.mem_cons_of_mem _ ht)) hrest.2
      (fun t ht => covered_applyTransaction (hcov t (List.mem_cons_of_mem _ ht)) height htx (hrest.1 t ht))
    exact ⟨⟨hcov tx (List.mem_cons_self _ _), ih.1⟩, ih.2⟩

end Application

theorem StakeManager.dust_lt_of_mem_calcPOSRewards {sm : StakeManager} {reward minThreshold : ℚ}
    {o : TxOutput} (h : o ∈ sm.calcPOSRewards reward minThreshold) : dust < o.amount := by
  obtain ⟨s, -, -, -, hdust⟩ := (mem_calcPOSRewards sm reward minThreshold o.address o.amount).1 h
  exact hdust

namespace Blockchain

/-! ## Templates -/

section Template

variable {bc : Blockchain} {minerAddress : String} {clock : TemplateClock} {height : UInt64} {reward : ℚ}
  {tx : Transaction}

theorem reward_of_mem_rewardTransactions (h : tx ∈ bc.rewardTransactions minerAddress clock height reward) :
    tx.type = "coinbase" ∨ tx.type = "pos_reward" := by
  unfold rewardTransactions at h
  dsimp only at h
  split at h
  · rcases List.mem_pair.1 h with rfl | rfl
    · exact .inl rfl
    · exact .inr rfl
  · rw [List.mem_singleton.1 h]
    exact .inl rfl

theorem nonNegative_of_mem_rewardTransactions (hreward : 0 ≤ reward) (hpow : 0 ≤ bc.config.powRewardShare)
    (h : tx ∈ bc.rewardTransactions minerAddress clock height reward) : tx.NonNegative := by
  have hdust : (0 : ℚ) < dust := by norm_num [dust]
  rw [Transaction.NonNegative, if_pos (reward_of_mem_rewardTransactions h)]
  unfold rewardTransactions at h
  dsimp only at h
  split at h
  · rcases List.mem_pair.1 h with rfl | rfl
    · simpa using mul_nonneg hreward hpow
    · exact fun o ho => hdust.le.trans (StakeManager.dust_lt_of_mem_calcPOSRewards ho).le
  · rw [List.mem_singleton.1 h]
    simpa using hreward

end Template

def DebitsCovered (bc : Blockchain) (block : Block) : Prop :=
  Application.DebitsCovered block.header.height ⟨bc.balances, bc.stakes, ∅, ∅, 0⟩ block.transactions

/-- What an honest run hands to `AddToMempool`: no reward, nothing negative, and no debit
while another debit of the same sender waits in the mempool. -/
structure SafeSubmission (bc : Blockchain) (tx : Transaction) : Prop where
  nonReward : tx.NonReward
  amount : 0 ≤ tx.amount
  fee : 0 ≤ tx.fee
  single : tx.IsDebit → ∀ t ∈ bc.mempool, t.IsDebit → t.from ≠ tx.from

def CommitsSucceed (bc : Blockchain) (block : Block) (disk : Disk) : Prop :=
  bc.Valid block → (bc.addBlock block disk).1 = .ok ()

/-- What keeps every debit covered on an honest run: nothing negative, and each waiting
debit covered by the balances now, with no two of one sender. -/
structure Solvent (cfg : NetworkConfig) (bc : Blockchain) : Prop where
  config : bc.config = cfg
  balances : ∀ a, 0 ≤ bc.getBalance a
  stakes : bc.stakes.NonNeg
  mempool : ∀ tx ∈ bc.mempool, tx.NonReward ∧ tx.NonNegative
  covered : ∀ tx ∈ bc.mempool, tx.Covered bc.balances
  distinct : DistinctDebits bc.mempool

theorem Solvent.submit {cfg : NetworkConfig} {bc : Blockchain} (h : Solvent cfg bc) {tx : Transaction}
    (hsafe : bc.SafeSubmission tx) : Solvent cfg (bc.submit tx) := by
  rcases submit_cases bc tx with ⟨hadm, hs⟩ | ⟨-, hs⟩ <;> rw [hs]
  · have hcov : tx.Covered bc.balances :=
      ⟨fun ht => ⟨hsafe.amount, hsafe.fee, hadm.transfer ht⟩, fun hs =>
        (hadm.available hs).trans (sub_le_self _ (h.stakes.getStake _))⟩
    refine ⟨h.config, h.balances, h.stakes, fun t ht => ?_, fun t ht => ?_, ?_⟩
    · rcases List.mem_append.1 ht with ht | ht
      · exact h.mempool t ht
      · rw [List.mem_singleton.1 ht]
        exact ⟨hsafe.nonReward, Transaction.nonNegative_of_nonReward hsafe.nonReward hsafe.amount hsafe.fee⟩
    · rcases List.mem_append.1 ht with ht | ht
      · exact h.covered t ht
      · rw [List.mem_singleton.1 ht]
        exact hcov
    · exact List.pairwise_append.2 ⟨h.distinct, List.pairwise_singleton _ _, fun a ha b hb hda hdb => by
        rw [List.mem_singleton.1 hb] at hdb ⊢
        exact hsafe.single hdb a ha hda⟩
  · exact h

theorem Solvent.template {cfg : NetworkConfig} {bc : Blockchain} (h : Solvent cfg bc)
    (hpow : 0 ≤ cfg.powRewardShare) {minerAddress : String} {clock : TemplateClock} {template : Block}
    (ht : bc.createBlockTemplate minerAddress clock = .ok template) (nonce : UInt64) :
    bc.DebitsCovered (template.withNonce nonce) ∧ (bc.applyBlock (template.withNonce nonce)).NonNeg ∧
      ∀ t ∈ bc.mempool, t.txID ∉ collectTxIDs (template.withNonce nonce) →
        t.Covered (bc.applyBlock (template.withNonce nonce)).balances := by
  obtain ⟨reward, bits, hr, -, rfl⟩ := createBlockTemplate_eq_ok.1 ht
  rw [← h.config] at hpow
  obtain ⟨others, hothers⟩ := isPrefix_mempoolPrefix bc
    (bc.rewardTransactions minerAddress clock bc.store.getBlockCount reward)
  have hrewards := fun t (ht : t ∈ bc.rewardTransactions minerAddress clock bc.store.getBlockCount reward) =>
    Transaction.not_isDebit_of_reward (reward_of_mem_rewardTransactions ht)
  have key := Application.debitsCovered_foldl bc.store.getBlockCount others
    (bc.templateTransactions minerAddress clock bc.store.getBlockCount reward) ⟨bc.balances, bc.stakes, ∅, ∅, 0⟩
    ⟨h.balances, h.stakes⟩
    (fun t ht => (List.mem_append.1 ht).elim
      (nonNegative_of_mem_rewardTransactions (calcBlockReward_bounds hr).1 hpow)
      fun ht => (h.mempool t (mem_of_mem_mempoolPrefix ht)).2)
    (by
      rw [templateTransactions, List.append_assoc, hothers]
      exact List.pairwise_append.2 ⟨List.pairwise_of_forall_mem_list fun a ha _ _ hda => absurd hda (hrewards a ha),
        h.distinct, fun a ha _ _ hda => absurd hda (hrewards a ha)⟩)
    (by
      rw [templateTransactions, List.append_assoc, hothers]
      intro t ht
      rcases List.mem_append.1 ht with ht | ht
      · exact Transaction.covered_of_not_isDebit (hrewards t ht) _
      · exact h.covered t ht)
  refine ⟨key.1, key.2.1, fun t ht hnot => key.2.2 t ?_⟩
  rw [← hothers] at ht
  rcases List.mem_append.1 ht with ht | ht
  · exact absurd (List.mem_map_of_mem _ (List.mem_append_right _ ht)) hnot
  · exact ht

theorem Solvent.mine {cfg : NetworkConfig} {bc : Blockchain} (h : Solvent cfg bc) (hpow : 0 ≤ cfg.powRewardShare)
    {minerAddress : String} {clock : TemplateClock} {template : Block}
    (ht : bc.createBlockTemplate minerAddress clock = .ok template) (nonce : UInt64) {disk : Disk}
    (hc : bc.CommitsSucceed (template.withNonce nonce) disk) :
    Solvent cfg (bc.addBlock (template.withNonce nonce) disk).2 := by
  obtain ⟨-, hnn, hcov⟩ := h.template hpow ht nonce
  rcases addBlock_cases bc (template.withNonce nonce) disk with ⟨-, hs, -⟩ | ⟨hv, -, hne⟩ | ⟨-, -, -, hs⟩
  · rw [hs]
    exact h
  · exact absurd (hc hv) hne
  · rw [hs]
    refine ⟨h.config, hnn.balances, hnn.stakes, fun t ht => ?_, fun t ht => ?_, h.distinct.filter _⟩ <;>
      rw [committed_mempool, List.mem_filter, decide_eq_true_iff] at ht
    · exact h.mempool t ht.1
    · exact hcov t ht.1 ht.2

def firstBlock : Block :=
  ((genesisState NetworkConfig.permissive 0).templateBlock "miner" ⟨0, 0, 0⟩ 50 0x2200FFFF).withNonce 0

def spend (txID : String) : Transaction :=
  { txID, type := "transfer", «from» := "miner", «to» := "bob", amount := 30, fee := 0, timestamp := 0,
    signature := "", outputs := [] }

theorem firstTemplate_transactions :
    ((genesisState NetworkConfig.permissive 0).templateBlock "miner" ⟨0, 0, 0⟩ 50 0x2200FFFF).transactions =
      [newCoinbaseTransaction "miner" 50 1 0] := by
  rw [templateBlock_transactions_of_no_stakes rfl (by decide) (by decide), getBlockCount_genesisState]
  rfl

theorem addBlock_firstBlock :
    (genesisState NetworkConfig.permissive 0).addBlock firstBlock .ok =
      (.ok (), (genesisState NetworkConfig.permissive 0).committed firstBlock) :=
  permissiveNext_genesis.addBlock "miner" ⟨0, 0, 0⟩ (by
    rw [firstTemplate_transactions]
    simp only [List.mem_singleton, forall_eq]
    exact ⟨Store.checkKey_computeTxID _, by simp [Transaction.touched]; rfl⟩)


theorem applyBlock_of_coinbase (bc : Blockchain) {block : Block} {cb : Transaction} {rest : List Transaction}
    (htxs : block.transactions = cb :: rest) (htype : cb.type = "coinbase") {out : TxOutput}
    (houts : cb.outputs = [out]) :
    bc.applyBlock block = rest.foldl (Application.applyTransaction block.header.height)
      ((⟨bc.balances, bc.stakes, ∅, ∅, 0⟩ : Application).mint out) := by
  rw [applyBlock, htxs, List.foldl_cons, Application.applyTransaction_coinbase _ _ htype houts]

theorem firstBlock_transactions : firstBlock.transactions = [newCoinbaseTransaction "miner" 50 1 0] :=
  firstTemplate_transactions

theorem applyBlock_firstBlock :
    (genesisState NetworkConfig.permissive 0).applyBlock firstBlock =
      (⟨∅, StakeManager.empty, ∅, ∅, 0⟩ : Application).mint ⟨"miner", 50⟩ :=
  applyBlock_of_coinbase _ firstBlock_transactions (newCoinbaseTransaction_type ..)
    (newCoinbaseTransaction_outputs ..)

theorem firstBlock_header_height : firstBlock.header.height = 1 := by
  rw [firstBlock, withNonce_header_height, templateBlock_header_height, getBlockCount_genesisState]

def afterFirst : Blockchain := (genesisState NetworkConfig.permissive 0).committed firstBlock

theorem balances_afterFirst : afterFirst.balances = (∅ : Bucket String ℚ).insert "miner" 50 := by
  rw [afterFirst, committed_balances, applyBlock_firstBlock]
  simp [Application.mint, Application.credit, Application.setBalance, balanceOf]

theorem stakes_afterFirst : afterFirst.stakes.stakes.entries = [] := by
  rw [afterFirst, committed_stakes, applyBlock_firstBlock]
  rfl

theorem getBlockCount_afterFirst : afterFirst.store.getBlockCount = 2 := by
  rw [afterFirst, getBlockCount_committed _ (by rw [firstBlock_header_height]; decide), firstBlock_header_height]
  rfl

theorem permissiveNext_afterFirst : afterFirst.PermissiveNext := by
  have hcount := getBlockCount_afterFirst
  refine ⟨rfl, ⟨firstBlock, rfl, rfl⟩, ?_, ?_, ?_, ?_⟩
  · rw [hcount]; decide
  · rw [hcount]; decide
  · rw [hcount]; decide
  · rw [afterFirst, committed_totalMinted, totalMinted_genesisState, applyBlock_firstBlock]
    norm_num [Application.mint]

theorem admissible_spend {bc : Blockchain} (txID : String) (h : 30 ≤ bc.getBalance "miner") :
    bc.Admissible (spend txID) :=
  ⟨fun _ => by simpa [spend] using h, fun hs => by simp [spend] at hs, fun hs => by simp [spend] at hs,
    fun hs => by simp [spend] at hs⟩

theorem submit_spend {bc : Blockchain} (txID : String) (h : 30 ≤ bc.getBalance "miner") :
    bc.submit (spend txID) = { bc with mempool := bc.mempool ++ [spend txID] } :=
  ((submit_cases bc _).resolve_right fun hn => hn.1 (admissible_spend txID h)).2

def twoSpends (first second : String) : Blockchain := (afterFirst.submit (spend first)).submit (spend second)

def spendsBlock (first second : String) : Block :=
  ((twoSpends first second).templateBlock "pool" ⟨0, 0, 0⟩ 50 0x2200FFFF).withNonce 0

theorem getBalance_afterFirst : afterFirst.getBalance "miner" = 50 := by
  simp [getBalance, balances_afterFirst, balanceOf, AList.singleton_entries, AList.lookup]

theorem twoSpends_eq (first second : String) :
    twoSpends first second = { afterFirst with mempool := [spend first, spend second] } := by
  have h : 30 ≤ afterFirst.getBalance "miner" := by
    rw [getBalance_afterFirst]
    norm_num
  rw [twoSpends, @submit_spend afterFirst first h,
    @submit_spend { afterFirst with mempool := afterFirst.mempool ++ [spend first] } second h]
  rfl

theorem permissiveNext_twoSpends (first second : String) : (twoSpends first second).PermissiveNext :=
  (permissiveNext_afterFirst.submit _).submit _

theorem spendsBlock_transactions (first second : String) :
    (spendsBlock first second).transactions = [newCoinbaseTransaction "pool" 50 2 0, spend first, spend second] := by
  show ((twoSpends first second).templateBlock "pool" ⟨0, 0, 0⟩ 50 0x2200FFFF).transactions = _
  rw [templateBlock_transactions_of_no_stakes (by rw [twoSpends_eq]; exact stakes_afterFirst)
    (by rw [twoSpends_eq]; exact (by decide : 1 + 2 ≤ 10000))
    (by rw [twoSpends_eq]; exact (by decide : 10000 < 2 ^ 63)), twoSpends_eq]
  show newCoinbaseTransaction "pool" 50 afterFirst.store.getBlockCount 0 :: _ = _
  rw [getBlockCount_afterFirst]

theorem addBlock_spendsBlock (first second : String) (hfirst : checkKey first = .ok ())
    (hsecond : checkKey second = .ok ()) :
    (twoSpends first second).addBlock (spendsBlock first second) .ok =
      (.ok (), (twoSpends first second).committed (spendsBlock first second)) :=
  (permissiveNext_twoSpends first second).addBlock "pool" ⟨0, 0, 0⟩ (by
    show ∀ tx ∈ (spendsBlock first second).transactions, _
    have htouched : ∀ txID, ∀ a ∈ (spend txID).touched, checkKey a = .ok () := fun txID => by
      simp [Transaction.touched, spend]
      exact ⟨rfl, rfl⟩
    rw [spendsBlock_transactions]
    simp only [List.mem_cons, List.not_mem_nil, or_false, forall_eq_or_imp, forall_eq]
    exact ⟨⟨Store.checkKey_computeTxID _, by simp [Transaction.touched]; rfl⟩, ⟨hfirst, htouched first⟩,
      ⟨hsecond, htouched second⟩⟩)

theorem applyBlock_spendsBlock (first second : String) :
    (twoSpends first second).applyBlock (spendsBlock first second) = [spend first, spend second].foldl
      (Application.applyTransaction (spendsBlock first second).header.height)
      ((⟨afterFirst.balances, afterFirst.stakes, ∅, ∅, 0⟩ : Application).mint ⟨"pool", 50⟩) := by
  rw [applyBlock_of_coinbase _ (spendsBlock_transactions first second) (newCoinbaseTransaction_type ..)
    (newCoinbaseTransaction_outputs ..), twoSpends_eq]

theorem getBalance_spendsBlock (first second : String) :
    ((twoSpends first second).committed (spendsBlock first second)).getBalance "miner" = -10 := by
  rw [getBalance, committed_balances, applyBlock_spendsBlock]
  simp [balances_afterFirst, Application.applyTransaction, spend, Application.mint,
    Application.credit, Application.debit, Application.setBalance, balanceOf, AList.singleton_entries, AList.lookup]
  norm_num

theorem honestReachable_spendsBlock (first second : String) :
    HonestReachable NetworkConfig.permissive
      ((twoSpends first second).addBlock (spendsBlock first second) .ok).2 := by
  have hfirst : HonestReachable NetworkConfig.permissive
      ((genesisState NetworkConfig.permissive 0).addBlock firstBlock .ok).2 :=
    .mine "miner" ⟨0, 0, 0⟩ _ 0 .ok (createBlockTemplate_genesis_permissive _ _) trivial
      (.genesis 0 (fun _ => .ok) .ok (newBlockchain_empty.2 ⟨rfl, rfl⟩))
  rw [addBlock_firstBlock] at hfirst
  exact .mine "pool" ⟨0, 0, 0⟩ _ 0 .ok ((permissiveNext_twoSpends first second).createBlockTemplate _ _) trivial
    (.submit _ trivial (.submit _ trivial hfirst))

theorem reachable_spendsBlock :
    Reachable NetworkConfig.permissive ((twoSpends "t1" "t2").committed (spendsBlock "t1" "t2")) := by
  have h := (honestReachable_spendsBlock "t1" "t2").reachable
  rwa [addBlock_spendsBlock "t1" "t2" rfl rfl] at h

theorem storedChain_spendsBlock :
    Reachable NetworkConfig.permissive ((twoSpends "t1" "t2").committed (spendsBlock "t1" "t2")) ∧
      ∃ best, ((twoSpends "t1" "t2").committed (spendsBlock "t1" "t2")).StoredChain best :=
  ⟨reachable_spendsBlock, reachable_storedChain reachable_spendsBlock⟩

def unstakeTx : Transaction :=
  { txID := "unstake-1", type := "unstake", «from» := "attacker", «to» := "", amount := 1000, fee := 0,
    timestamp := 0, signature := "", outputs := [] }

def holdings (bc : Blockchain) : ℚ :=
  (bc.balances.entries.map (·.2)).sum + (bc.stakes.stakes.entries.map (·.2.amount)).sum

def unstakeBlock : Block :=
  (((genesisState NetworkConfig.permissive 0).submit unstakeTx).templateBlock "miner" ⟨0, 0, 0⟩ 50
    0x2200FFFF).withNonce 0

theorem submit_unstakeTx :
    (genesisState NetworkConfig.permissive 0).submit unstakeTx =
      { genesisState NetworkConfig.permissive 0 with mempool := [unstakeTx] } :=
  ((submit_cases _ _).resolve_right fun hn => hn.1
    ⟨fun h => by simp [unstakeTx] at h, fun h => by simp [unstakeTx] at h, fun h => by simp [unstakeTx] at h,
      fun h => by simp [unstakeTx] at h⟩).2

theorem unstakeBlock_transactions :
    unstakeBlock.transactions = [newCoinbaseTransaction "miner" 50 1 0, unstakeTx] := by
  show (((genesisState NetworkConfig.permissive 0).submit unstakeTx).templateBlock "miner" ⟨0, 0, 0⟩ 50
    0x2200FFFF).transactions = _
  rw [submit_unstakeTx, templateBlock_transactions_of_no_stakes rfl (by decide) (by decide)]
  show newCoinbaseTransaction "miner" 50 (genesisState NetworkConfig.permissive 0).store.getBlockCount 0 :: _ = _
  rw [getBlockCount_genesisState]

theorem addBlock_unstakeBlock :
    ((genesisState NetworkConfig.permissive 0).submit unstakeTx).addBlock unstakeBlock .ok =
      (.ok (), ((genesisState NetworkConfig.permissive 0).submit unstakeTx).committed unstakeBlock) :=
  (permissiveNext_genesis.submit unstakeTx).addBlock "miner" ⟨0, 0, 0⟩ (by
    show ∀ tx ∈ unstakeBlock.transactions, _
    rw [unstakeBlock_transactions]
    simp only [List.mem_cons, List.not_mem_nil, or_false, forall_eq_or_imp, forall_eq]
    exact ⟨⟨Store.checkKey_computeTxID _, by simp [Transaction.touched]; rfl⟩,
      rfl, by simp [Transaction.touched, unstakeTx]; rfl⟩)

theorem holdings_unstakeBlock :
    (((genesisState NetworkConfig.permissive 0).submit unstakeTx).committed unstakeBlock).holdings = 1050 := by
  rw [holdings, committed_balances, committed_stakes, applyBlock_of_coinbase _ unstakeBlock_transactions
    (newCoinbaseTransaction_type ..) (newCoinbaseTransaction_outputs ..), submit_unstakeTx]
  simp [Application.applyTransaction, unstakeTx, Application.mint,
    Application.credit, Application.setBalance, Application.recordStake, balanceOf, genesisState, Blockchain.fresh,
    StakeManager.removeStakeUnchecked, StakeManager.removeStake, StakeManager.empty, AList.singleton_entries, AList.lookup]
  norm_num

/-- `AddBlock` credits an unstake though `RemoveStake` fails for want of a stake. -/
theorem unstake_without_stake_mints :
    HonestReachable NetworkConfig.permissive
        (((genesisState NetworkConfig.permissive 0).submit unstakeTx).addBlock unstakeBlock .ok).2 ∧
      ((genesisState NetworkConfig.permissive 0).submit unstakeTx).stakes.removeStake "attacker" 1000 =
        .error (.noStake "attacker") ∧
      (((genesisState NetworkConfig.permissive 0).submit unstakeTx).addBlock unstakeBlock .ok).1 = .ok () ∧
      (((genesisState NetworkConfig.permissive 0).submit unstakeTx).addBlock unstakeBlock .ok).2.totalMinted = 50 ∧
      (((genesisState NetworkConfig.permissive 0).submit unstakeTx).addBlock unstakeBlock .ok).2.holdings = 1050 := by
  refine ⟨.mine "miner" ⟨0, 0, 0⟩ _ 0 .ok ((permissiveNext_genesis.submit unstakeTx).createBlockTemplate _ _) trivial
    (.submit unstakeTx trivial (.genesis 0 (fun _ => .ok) .ok (newBlockchain_empty.2 ⟨rfl, rfl⟩))),
    by rw [submit_stakes]; rfl, by rw [addBlock_unstakeBlock], ?_, by rw [addBlock_unstakeBlock, holdings_unstakeBlock]⟩
  rw [addBlock_unstakeBlock, committed_totalMinted, submit_totalMinted, totalMinted_genesisState,
    blockMinted_applyBlock, unstakeBlock_transactions]
  simp [Transaction.minted, unstakeTx]

end Blockchain

end DevInsiderCoin
