import DevInsiderCoin.Chain.Supply

/-! The wallet history against the balances. `GetTransactions` walks the stored blocks from
height 0 up to the block count and lists each transaction that names the address as sender,
receiver or output; the wallet's `transactions` endpoint returns that list. What those
transactions did to the address under `AddBlock`'s rules adds up to the balance in memory on
every run whose commits all go through below `2 ^ 63`: a transaction that does not name the
address leaves its balance alone, and every committed block lands on a height of its own. A failed
commit breaks the account: it leaves the block applied in memory and still valid, and the same
block coming again is applied a second time (`addBlock_retry_applies_twice`).
-/

set_option autoImplicit false

namespace DevInsiderCoin

/-- What `applyTransaction` adds to the balance of `address`: the outputs to it of a coinbase
or `pos_reward`, the two legs of a transfer, what a stake locks and what an unstake credits. -/
def Transaction.balanceDelta (address : String) (tx : Transaction) : ℚ :=
  if tx.type = "coinbase" ∨ tx.type = "pos_reward" then
    ((tx.outputs.filter (·.address = address)).map (·.amount)).sum
  else if tx.type = "transfer" then
    (if tx.from = address then -(tx.amount + tx.fee) else 0) + (if tx.to = address then tx.amount else 0)
  else if tx.type = "stake" then (if tx.from = address then -tx.amount else 0)
  else if tx.type = "unstake" then (if tx.from = address then tx.amount else 0)
  else 0

/-- The test of `GetTransactions`' loop: the address is the sender, the receiver, or the
address of an output. -/
def Transaction.names (address : String) (tx : Transaction) : Bool :=
  tx.from == address || tx.to == address || tx.outputs.any (·.address == address)

theorem Transaction.balanceDelta_of_names_false {address : String} {tx : Transaction}
    (h : tx.names address = false) : tx.balanceDelta address = 0 := by
  simp only [names, Bool.or_eq_false_iff, beq_eq_false_iff_ne, List.any_eq_false, beq_iff_eq] at h
  obtain ⟨⟨hfrom, hto⟩, hout⟩ := h
  have hnil : tx.outputs.filter (·.address = address) = [] := List.filter_eq_nil_iff.2 fun o ho => by simpa using hout o ho
  simp [balanceDelta, hfrom, hto, hnil]

theorem sum_balanceDelta_filter_names (address : String) (txs : List Transaction) :
    ((txs.filter (Transaction.names address)).map (Transaction.balanceDelta address)).sum =
      (txs.map (Transaction.balanceDelta address)).sum := by
  induction txs with
  | nil => rfl
  | cons tx txs ih =>
    cases h : tx.names address
    · rw [List.filter_cons_of_neg (by simp [h]), ih, List.map_cons, List.sum_cons,
        Transaction.balanceDelta_of_names_false h, zero_add]
    · rw [List.filter_cons_of_pos h, List.map_cons, List.sum_cons, ih, List.map_cons, List.sum_cons]

namespace Application

theorem balanceOf_credit (app : Application) (a k : String) (amount : ℚ) :
    balanceOf (app.credit a amount).balances k = balanceOf app.balances k + if a = k then amount else 0 := by
  rw [credit, balanceOf_setBalance]
  by_cases hk : a = k
  · subst hk
    simp
  · rw [if_neg (Ne.symm hk), if_neg hk, add_zero]

theorem balanceOf_debit (app : Application) (a k : String) (amount : ℚ) :
    balanceOf (app.debit a amount).balances k = balanceOf app.balances k + if a = k then -amount else 0 := by
  rw [debit, balanceOf_setBalance]
  by_cases hk : a = k
  · subst hk
    simp [sub_eq_add_neg]
  · rw [if_neg (Ne.symm hk), if_neg hk, add_zero]

theorem balanceOf_foldl_mint (outputs : List TxOutput) (app : Application) (k : String) :
    balanceOf (outputs.foldl mint app).balances k =
      balanceOf app.balances k + ((outputs.filter (·.address = k)).map (·.amount)).sum := by
  induction outputs generalizing app with
  | nil => simp
  | cons o rest ih =>
    rw [List.foldl_cons, ih, show (app.mint o).balances = (app.credit o.address o.amount).balances from rfl,
      balanceOf_credit]
    by_cases hk : o.address = k
    · rw [if_pos hk, List.filter_cons_of_pos (by simpa using hk), List.map_cons, List.sum_cons, add_assoc]
    · rw [if_neg hk, List.filter_cons_of_neg (by simpa using hk), add_zero]

theorem balanceOf_applyTransaction (height : UInt64) (app : Application) (tx : Transaction) (k : String) :
    balanceOf (applyTransaction height app tx).balances k = balanceOf app.balances k + tx.balanceDelta k := by
  unfold applyTransaction Transaction.balanceDelta
  by_cases hr : tx.type = "coinbase" ∨ tx.type = "pos_reward"
  · simp only [if_pos hr]
    exact balanceOf_foldl_mint _ _ _
  by_cases ht : tx.type = "transfer"
  · simp only [if_neg hr, if_pos ht]
    rw [balanceOf_credit, balanceOf_debit, add_assoc]
  by_cases hs : tx.type = "stake"
  · simp only [if_neg hr, if_neg ht, if_pos hs]
    exact balanceOf_debit app tx.from k tx.amount
  by_cases hu : tx.type = "unstake"
  · simp only [if_neg hr, if_neg ht, if_neg hs, if_pos hu]
    exact balanceOf_credit _ tx.from k tx.amount
  · simp only [if_neg hr, if_neg ht, if_neg hs, if_neg hu, add_zero]

theorem balanceOf_foldl_applyTransaction (height : UInt64) (txs : List Transaction) (app : Application) (k : String) :
    balanceOf (txs.foldl (applyTransaction height) app).balances k =
      balanceOf app.balances k + (txs.map (Transaction.balanceDelta k)).sum := by
  induction txs generalizing app with
  | nil => simp
  | cons tx txs ih => rw [List.foldl_cons, ih, balanceOf_applyTransaction, List.map_cons, List.sum_cons, add_assoc]

end Application

namespace Blockchain

def heightTransactions (s : Store) (address : String) (h : Nat) : List Transaction :=
  match s.getBlockByHeight (UInt64.ofNat h) with
  | none => []
  | some block => block.transactions.filter (Transaction.names address)

/-- `GetTransactions`: the stored blocks' transactions that name the address, height by height
from 0 below `GetBlockCount`. -/
def getTransactions (bc : Blockchain) (address : String) : List Transaction :=
  (List.range bc.store.getBlockCount.toNat).flatMap (heightTransactions bc.store address)

def historyDelta (s : Store) (address : String) (n : Nat) : ℚ :=
  (((List.range (n + 1)).flatMap (heightTransactions s address)).map (Transaction.balanceDelta address)).sum

theorem historyDelta_genesisState (cfg : NetworkConfig) (now : BitVec 64) (address : String) :
    historyDelta (genesisState cfg now).store address 0 = 0 := by
  have hblock : (genesisState cfg now).store.getBlockByHeight (UInt64.ofNat 0) = some (createGenesisBlock cfg now) :=
    (storedChain_genesisState cfg now).tip.symm
  rw [historyDelta, show List.range (0 + 1) = [0] from rfl]
  simp only [List.flatMap_cons, List.flatMap_nil, List.append_nil, heightTransactions, hblock,
    sum_balanceDelta_filter_names]
  simp only [createGenesisBlock, Transaction.balanceDelta, List.map_cons, List.map_nil, List.sum_cons, List.sum_nil,
    add_zero, true_or, if_true, List.filter_cons]
  split <;> simp

theorem historyDelta_committed (bc : Blockchain) {block : Block} {n : Nat} (hn : n + 1 < 2 ^ 64)
    (hheight : block.header.height = UInt64.ofNat (n + 1)) (address : String) :
    historyDelta (bc.committed block).store address (n + 1) =
      historyDelta bc.store address n + (block.transactions.map (Transaction.balanceDelta address)).sum := by
  have hold : ∀ h ∈ List.range (n + 1), heightTransactions (bc.committed block).store address h =
      heightTransactions bc.store address h := fun h hh => by
    have hh : h < n + 1 := List.mem_range.1 hh
    rw [heightTransactions, getBlockByHeight_committed_of_ne, heightTransactions]
    rw [hheight, ne_eq, UInt64.eq_iff_toNat_eq', UInt64.toNat_ofNat', UInt64.toNat_ofNat']
    show ¬ h % 2 ^ 64 = (n + 1) % 2 ^ 64
    omega
  have hnew : heightTransactions (bc.committed block).store address (n + 1) =
      block.transactions.filter (Transaction.names address) := by
    rw [heightTransactions, ← hheight, getBlockByHeight_committed_self]
  rw [historyDelta, List.range_succ, List.flatMap_append, List.flatMap_congr hold, List.flatMap_singleton, hnew,
    List.map_append, List.sum_append, sum_balanceDelta_filter_names]
  rfl

theorem committedRun_balance_history {cfg : NetworkConfig} {n : Nat} {bc : Blockchain} (h : CommittedRun cfg n bc)
    (hn : n < 2 ^ 63) (address : String) : bc.getBalance address = historyDelta bc.store address n := by
  induction h with
  | genesis now _ _ hnew =>
    obtain ⟨-, rfl⟩ := newBlockchain_empty.1 hnew
    rw [historyDelta_genesisState]
    rfl
  | submit tx _ ih => rw [getBalance, submit_balances, submit_store, ← ih hn]; rfl
  | @reject n bc block disk hinv _ ih =>
    rcases addBlock_cases bc block disk with ⟨-, hs, -⟩ | ⟨hv, -⟩ | ⟨hv, -⟩
    · rw [hs]
      exact ih hn
    · exact absurd hv hinv
    · exact absurd hv hinv
  | @commit n bc block disk hok hrun ih =>
    rcases addBlock_cases bc block disk with ⟨-, -, hne⟩ | ⟨-, -, hne⟩ | ⟨hv, -, -, hs⟩
    · exact absurd hok hne
    · exact absurd hok hne
    · have hheight : block.header.height = UInt64.ofNat (n + 1) :=
        hv.height.trans ((committedRun_persisted hrun (by omega)).getBlockCount (by omega))
      rw [hs, historyDelta_committed bc (by omega) hheight, ← ih (by omega), getBalance, committed_balances,
        applyBlock, Application.balanceOf_foldl_applyTransaction]
      rfl

/-- The wallet history accounts for every balance. -/
theorem committedRun_history_balance {cfg : NetworkConfig} {n : Nat} {bc : Blockchain} (h : CommittedRun cfg n bc)
    (hn : n < 2 ^ 63) (address : String) :
    bc.getBalance address = ((bc.getTransactions address).map (Transaction.balanceDelta address)).sum := by
  rw [committedRun_balance_history h hn, getTransactions, (committedRun_persisted h hn.le).getBlockCount hn,
    UInt64.toNat_ofNat', Nat.mod_eq_of_lt (by omega)]
  rfl

theorem committedRun_history_balance_spendsBlock :
    CommittedRun NetworkConfig.permissive 2 ((twoSpends "t1" "t2").committed (spendsBlock "t1" "t2")) ∧
      ((twoSpends "t1" "t2").committed (spendsBlock "t1" "t2")).getBalance "miner" =
        ((((twoSpends "t1" "t2").committed (spendsBlock "t1" "t2")).getTransactions "miner").map
          (Transaction.balanceDelta "miner")).sum :=
  ⟨committedRun_spendsBlock, committedRun_history_balance committedRun_spendsBlock (by decide) "miner"⟩

/-! ## A failed commit retried

`AddBlock` changes the balances, the stakes and the minted total before `CommitBlock`, and a
failed commit leaves those changes in memory with the store and the tip as they were. The block
stays valid, and when it comes again, relayed by another peer or submitted again, `AddBlock`
applies it a second time. -/

theorem Valid.applied {bc : Blockchain} {b b' : Block} (hv : bc.Valid b) : (bc.applied b').Valid b :=
  ⟨hv.height, hv.prevHash, hv.hash, hv.pow, hv.count, hv.size, hv.floor⟩

theorem addBlock_fault {bc : Blockchain} {b : Block} (hv : bc.Valid b) : (bc.addBlock b .fault).2 = bc.applied b := by
  rcases addBlock_cases bc b .fault with ⟨hnv, -⟩ | ⟨-, hs, -⟩ | ⟨-, hd, -⟩
  · exact absurd hv hnv
  · exact hs
  · exact absurd hd (by decide)

theorem addBlock_of_valid_applies {bc : Blockchain} {b : Block} (hv : bc.Valid b) (disk : Disk) :
    (bc.addBlock b disk).2.balances = (bc.applyBlock b).balances ∧
      (bc.addBlock b disk).2.totalMinted = bc.totalMinted + b.minted := by
  rcases addBlock_cases bc b disk with ⟨hnv, -⟩ | ⟨-, hs, -⟩ | ⟨-, -, -, hs⟩
  · exact absurd hv hnv
  · rw [hs]
    exact ⟨rfl, by rw [applied_totalMinted, blockMinted_applyBlock]; rfl⟩
  · rw [hs]
    exact ⟨rfl, by rw [committed_totalMinted, blockMinted_applyBlock]; rfl⟩

theorem balanceOf_applyBlock (bc : Blockchain) (b : Block) (address : String) :
    balanceOf (bc.applyBlock b).balances address =
      bc.getBalance address + (b.transactions.map (Transaction.balanceDelta address)).sum :=
  Application.balanceOf_foldl_applyTransaction _ _ _ _

/-- `AddBlock` is not idempotent: retrying a block whose commit failed applies it a second time. -/
theorem addBlock_retry_applies_twice {bc : Blockchain} {b : Block} (hv : bc.Valid b) (disk : Disk)
    (address : String) :
    (bc.addBlock b .fault).2.Valid b ∧
      ((bc.addBlock b .fault).2.addBlock b disk).2.getBalance address =
        bc.getBalance address + 2 * (b.transactions.map (Transaction.balanceDelta address)).sum ∧
      ((bc.addBlock b .fault).2.addBlock b disk).2.totalMinted = bc.totalMinted + 2 * b.minted := by
  rw [addBlock_fault hv]
  have hv' : (bc.applied b).Valid b := hv.applied
  obtain ⟨hbal, hmint⟩ := addBlock_of_valid_applies hv' disk
  refine ⟨hv', ?_, ?_⟩
  · rw [getBalance, hbal, balanceOf_applyBlock, getBalance, applied_balances, balanceOf_applyBlock]
    ring
  · rw [hmint, applied_totalMinted, blockMinted_applyBlock]
    unfold Block.minted
    ring

theorem addBlock_retry_applies_twice_forged :
    (genesisState NetworkConfig.permissive 0).Valid forgedBlock ∧
      ((genesisState NetworkConfig.permissive 0).addBlock forgedBlock .fault).2.Valid forgedBlock ∧
      (((genesisState NetworkConfig.permissive 0).addBlock forgedBlock .fault).2.addBlock forgedBlock .ok).2.getBalance
          "attacker" = (genesisState NetworkConfig.permissive 0).getBalance "attacker" +
        2 * (forgedBlock.transactions.map (Transaction.balanceDelta "attacker")).sum ∧
      (((genesisState NetworkConfig.permissive 0).addBlock forgedBlock .fault).2.addBlock forgedBlock .ok).2.totalMinted =
        (genesisState NetworkConfig.permissive 0).totalMinted + 2 * forgedBlock.minted :=
  ⟨valid_forgedBlock, addBlock_retry_applies_twice valid_forgedBlock .ok "attacker"⟩

end Blockchain

end DevInsiderCoin
