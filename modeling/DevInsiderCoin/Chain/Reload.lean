import DevInsiderCoin.Chain.TxIndex

/-! What `NewBlockchain` reads back from the store after a run whose commits all
succeeded. `AddBlock` commits, for every address its transactions touch, the balance and
the stake the address ends the block with (a stake gone is a delete); written over the
store as it was before the block, that is exactly the state in memory after it.

The reload reads the best height as an `int64`. Once a run has committed `2 ^ 63` blocks
after the genesis block that reads as negative: `NewBlockchain` finds no data and commits
a new genesis block.
-/

set_option autoImplicit false

namespace DevInsiderCoin

namespace Store

theorem lookup_balances_applyCommit (s : Store) (c : BlockCommit) (a : String) :
    (s.applyCommit c).balances.lookup a =
      ((c.balances.lookup a).map fun v => bytesToFloat (floatToBytes v)).or (s.balances.lookup a) := by
  show (c.balances.entries.foldl (fun b e => b.insert e.1 (bytesToFloat (floatToBytes e.2))) s.balances).lookup a =
    ((c.balances.entries.dlookup a).map _).or (s.balances.lookup a)
  have hnd := c.balances.nodupKeys
  generalize c.balances.entries = l, s.balances = m at hnd ⊢
  induction l generalizing m with
  | nil => simp
  | cons e l ih =>
    obtain ⟨k, v⟩ := e
    obtain ⟨hk, hnd⟩ := List.nodupKeys_cons.1 hnd
    refine (ih _ hnd).trans ?_
    by_cases ha : a = k
    · subst ha
      rw [List.dlookup_eq_none.2 hk, List.dlookup_cons_eq]
      exact AList.lookup_insert _
    · rw [List.dlookup_cons_ne _ _ ha]
      exact congrArg _ (AList.lookup_insert_ne ha)

theorem lookup_stakes_applyCommit (s : Store) (c : BlockCommit) (a : String) :
    (s.applyCommit c).stakes.lookup a = (c.stakes.lookup a).getD (s.stakes.lookup a) := by
  show (c.stakes.entries.foldl
      (fun b e => match e.2 with | none => b.erase e.1 | some st => b.insert e.1 st) s.stakes).lookup a =
    (c.stakes.entries.dlookup a).getD (s.stakes.lookup a)
  have hnd := c.stakes.nodupKeys
  generalize c.stakes.entries = l, s.stakes = m at hnd ⊢
  induction l generalizing m with
  | nil => simp
  | cons e l ih =>
    obtain ⟨k, v⟩ := e
    obtain ⟨hk, hnd⟩ := List.nodupKeys_cons.1 hnd
    refine (ih _ hnd).trans ?_
    by_cases ha : a = k
    · subst ha
      rw [List.dlookup_eq_none.2 hk, List.dlookup_cons_eq]
      cases v
      · exact AList.lookup_erase _ _
      · exact AList.lookup_insert _
    · rw [List.dlookup_cons_ne _ _ ha]
      cases v
      · exact congrArg _ (AList.lookup_erase_ne ha)
      · exact congrArg _ (AList.lookup_insert_ne ha)

theorem hasData_of {s : Store} {b : UInt64} (h : s.bestHeight = some (heightKey b)) :
    s.hasData = decide (b.toNat < 2 ^ 63) := by
  simp only [hasData, getBestHeight, h, keyToHeight_heightKey, int64OfUInt64_nonneg_iff]

end Store

namespace Blockchain

/-- Runs from a fresh data directory in which every `AddBlock` call either fails validation
or commits; `n` counts the blocks committed after the genesis block. -/
inductive CommittedRun (cfg : NetworkConfig) : Nat → Blockchain → Prop
  | genesis {bc : Blockchain} (now : BitVec 64) (migrationDisk : Nat → Disk) (genesisDisk : Disk) :
      newBlockchain cfg Store.empty none now migrationDisk genesisDisk = some bc → CommittedRun cfg 0 bc
  | submit {n : Nat} {bc : Blockchain} (tx : Transaction) : CommittedRun cfg n bc → CommittedRun cfg n (bc.submit tx)
  | reject {n : Nat} {bc : Blockchain} (block : Block) (disk : Disk) : ¬ bc.Valid block →
      CommittedRun cfg n bc → CommittedRun cfg n (bc.addBlock block disk).2
  | commit {n : Nat} {bc : Blockchain} (block : Block) (disk : Disk) : (bc.addBlock block disk).1 = .ok () →
      CommittedRun cfg n bc → CommittedRun cfg (n + 1) (bc.addBlock block disk).2

/-- The store holds what is in memory after `n` blocks: the best height `n`, the tip stored
there, and the balances, the stakes and the minted total as they read back. -/
structure Persisted (n : Nat) (bc : Blockchain) : Prop where
  bestHeight : bc.store.bestHeight = some (Store.heightKey (UInt64.ofNat n))
  tip : bc.lastBlock = bc.store.getBlockByHeight (UInt64.ofNat n)
  balances : ∀ a, bc.store.balances.lookup a = (bc.balances.lookup a).map fun v => bytesToFloat (floatToBytes v)
  stakes : ∀ a, bc.store.stakes.lookup a = (bc.stakes.stakes.lookup a).bind stakeJSON
  totalMinted : bc.store.getTotalMinted = bytesToFloat (floatToBytes bc.totalMinted)

/-- Every amount in memory is a finite `float64`: the balances, the stake amounts and the
minted total. -/
structure FiniteAmounts (bc : Blockchain) : Prop where
  balances : ∀ a v, bc.balances.lookup a = some v → Finite64 v
  stakes : ∀ a s, bc.stakes.stakes.lookup a = some s → Finite64 s.amount
  totalMinted : Finite64 bc.totalMinted

theorem persisted_genesisState (cfg : NetworkConfig) (now : BitVec 64) : Persisted 0 (genesisState cfg now) where
  bestHeight := rfl
  tip := by
    rw [show (genesisState cfg now).store = Store.empty.applyCommit (genesisCommit (createGenesisBlock cfg now))
      from rfl, Store.getBlockByHeight_applyCommit, if_pos] <;> rfl
  balances _ := rfl
  stakes _ := rfl
  totalMinted := Store.getTotalMinted_applyCommit _ _

theorem Persisted.submit {n : Nat} {bc : Blockchain} (h : Persisted n bc) (tx : Transaction) :
    Persisted n (bc.submit tx) := by
  rw [submit_eq_with_mempool]
  exact ⟨h.bestHeight, h.tip, h.balances, h.stakes, h.totalMinted⟩

theorem Persisted.getBlockCount {n : Nat} {bc : Blockchain} (h : Persisted n bc) (hn : n < 2 ^ 63) :
    bc.store.getBlockCount = UInt64.ofNat (n + 1) := by
  rw [Store.getBlockCount_of h.bestHeight, if_pos (by rw [UInt64.toNat_ofNat']; omega), UInt64.eq_iff_toNat_eq',
    UInt64.toNat_add', UInt64.toNat_ofNat', UInt64.toNat_ofNat']
  show (n % 2 ^ 64 + 1) % 2 ^ 64 = (n + 1) % 2 ^ 64
  omega

theorem Persisted.committed {n : Nat} {bc : Blockchain} {block : Block} (h : Persisted n bc) (hn : n < 2 ^ 63)
    (hv : bc.Valid block) : Persisted (n + 1) (bc.committed block) := by
  have hheight : block.header.height = UInt64.ofNat (n + 1) := hv.height.trans (h.getBlockCount hn)
  have htracks := tracks_applyBlock bc block
  refine ⟨by rw [← hheight]; rfl, by rw [← hheight, committed_lastBlock, getBlockByHeight_committed_self],
    fun a => ?_, fun a => ?_, ?_⟩
  · rw [committed_store, Store.lookup_balances_applyCommit, h.balances, committed_balances, htracks.balances]
    exact (Option.map_or' ..).symm
  · rw [committed_store, Store.lookup_stakes_applyCommit, h.stakes, committed_stakes, htracks.stakes]
    rfl
  · exact Store.getTotalMinted_applyCommit _ _

theorem Persisted.exact {n : Nat} {bc : Blockchain} (h : Persisted n bc) (hfin : bc.FiniteAmounts) :
    (∀ a, bc.store.balances.lookup a = bc.balances.lookup a) ∧
      (∀ a, bc.store.stakes.lookup a = bc.stakes.stakes.lookup a) ∧ bc.store.getTotalMinted = bc.totalMinted := by
  refine ⟨fun a => ?_, fun a => ?_, h.totalMinted.trans (bytesToFloat_floatToBytes hfin.totalMinted)⟩
  · rw [h.balances]
    cases hv : bc.balances.lookup a
    · rfl
    · exact congrArg some (bytesToFloat_floatToBytes (hfin.balances a _ hv))
  · rw [h.stakes]
    cases hs : bc.stakes.stakes.lookup a
    · rfl
    · exact stakeJSON_of_finite (hfin.stakes a _ hs)

theorem committedRun_persisted {cfg : NetworkConfig} {n : Nat} {bc : Blockchain} (h : CommittedRun cfg n bc)
    (hn : n ≤ 2 ^ 63) : Persisted n bc := by
  induction h with
  | genesis now _ _ hnew =>
    obtain ⟨-, rfl⟩ := newBlockchain_empty.1 hnew
    exact persisted_genesisState cfg now
  | submit tx _ ih => exact (ih hn).submit tx
  | @reject n bc block disk hinv _ ih =>
    rcases addBlock_cases bc block disk with ⟨-, hs, -⟩ | ⟨hv, -⟩ | ⟨hv, -⟩
    · rw [hs]
      exact ih hn
    · exact absurd hv hinv
    · exact absurd hv hinv
  | @commit n bc block disk hok _ ih =>
    rcases addBlock_cases bc block disk with ⟨-, -, hne⟩ | ⟨-, -, hne⟩ | ⟨hv, -, -, hs⟩
    · exact absurd hok hne
    · exact absurd hok hne
    · rw [hs]
      exact (ih (by omega)).committed (by omega) hv

theorem CommittedRun.reachable {cfg : NetworkConfig} {n : Nat} {bc : Blockchain} (h : CommittedRun cfg n bc) :
    Reachable cfg bc := by
  induction h with
  | genesis now migrationDisk genesisDisk hnew => exact .genesis now migrationDisk genesisDisk hnew
  | submit tx _ ih => exact .submit tx ih
  | reject block disk _ _ ih => exact .addBlock block disk ih
  | commit block disk _ _ ih => exact .addBlock block disk ih

theorem Persisted.getBestHeight {n : Nat} {bc : Blockchain} (h : Persisted n bc) (hn : n < 2 ^ 63) :
    bc.getBestHeight = UInt64.ofNat n := by
  have hlt : (UInt64.ofNat n).toNat < 2 ^ 63 := by rw [UInt64.toNat_ofNat']; omega
  simp only [Blockchain.getBestHeight, Store.getBestHeight, h.bestHeight, Store.keyToHeight_heightKey,
    int64OfUInt64_eq, if_pos hlt, UInt64.toNat_ofNat', Nat.mod_eq_of_lt (show n < 2 ^ 64 by omega), if_pos hn,
    if_neg (Int.natCast_nonneg n).not_lt, Int.toNat_natCast]

theorem newBlockchain_of_persisted {n : Nat} {bc : Blockchain} (h : Persisted n bc) (hn : n < 2 ^ 63)
    (cfg : NetworkConfig) (legacy : Option LegacyChain) (now : BitVec 64) (migrationDisk : Nat → Disk)
    (genesisDisk : Disk) :
    newBlockchain cfg bc.store legacy now migrationDisk genesisDisk = some (Blockchain.load cfg bc.store) := by
  rw [newBlockchain, Store.hasData_of h.bestHeight, UInt64.toNat_ofNat', if_pos (by simp; omega)]

/-- A restart reloads the state the node had in memory, while every amount is a finite `float64`. -/
theorem committedRun_reload {cfg : NetworkConfig} {n : Nat} {bc : Blockchain} (h : CommittedRun cfg n bc)
    (hn : n < 2 ^ 63) (hfin : bc.FiniteAmounts) (legacy : Option LegacyChain) (now : BitVec 64)
    (migrationDisk : Nat → Disk) (genesisDisk : Disk) :
    ∃ bc', newBlockchain cfg bc.store legacy now migrationDisk genesisDisk = some bc' ∧
      (∀ a, bc'.balances.lookup a = bc.balances.lookup a) ∧
      (∀ a, bc'.stakes.stakes.lookup a = bc.stakes.stakes.lookup a) ∧
      bc'.totalMinted = bc.totalMinted ∧ bc.store.getBestHeight + 1 = n + 1 ∧ bc'.lastBlock = bc.lastBlock := by
  have hp := committedRun_persisted h hn.le
  have hbest : bc.store.getBestHeight = n := by
    have hmod : n % 2 ^ 64 = n := Nat.mod_eq_of_lt (by omega)
    simp only [Store.getBestHeight, hp.bestHeight, Store.keyToHeight_heightKey, int64OfUInt64_eq,
      UInt64.toNat_ofNat', hmod, hn, if_true]
  obtain ⟨hbal, hstakes, htotal⟩ := hp.exact hfin
  refine ⟨_, newBlockchain_of_persisted hp hn cfg legacy now migrationDisk genesisDisk, hbal, hstakes, htotal,
    by rw [hbest], ?_⟩
  rw [hp.tip]
  show bc.store.getBlockByHeight (UInt64.ofNat bc.store.getBestHeight.toNat) = _
  rw [hbest]
  rfl

theorem committedRun_afterFirst : CommittedRun NetworkConfig.permissive 1 afterFirst := by
  have h := (CommittedRun.genesis 0 (fun _ => .ok) .ok (newBlockchain_empty.2 ⟨rfl, rfl⟩)).commit firstBlock .ok
    (by rw [addBlock_firstBlock])
  rwa [addBlock_firstBlock] at h

theorem committedRun_spendsBlock :
    CommittedRun NetworkConfig.permissive 2 ((twoSpends "t1" "t2").committed (spendsBlock "t1" "t2")) := by
  have h : CommittedRun NetworkConfig.permissive 1 (twoSpends "t1" "t2") :=
    (committedRun_afterFirst.submit _).submit _
  have h2 := h.commit (spendsBlock "t1" "t2") .ok (by rw [addBlock_spendsBlock "t1" "t2" rfl rfl])
  rwa [addBlock_spendsBlock "t1" "t2" rfl rfl] at h2

theorem finiteAmounts_afterFirst : afterFirst.FiniteAmounts where
  balances a v h := by
    rw [balances_afterFirst] at h
    by_cases ha : a = "miner"
    · subst ha
      rw [AList.lookup_insert, Option.some_inj] at h
      subst h
      unfold Finite64 maxFloat64
      norm_num
    · rw [AList.lookup_insert_ne ha] at h
      cases h
  stakes a s h := by
    rw [show afterFirst.stakes.stakes.lookup a = none from List.dlookup_eq_none.2 (by
      rw [stakes_afterFirst]; exact List.not_mem_nil _)] at h
    cases h
  totalMinted := by
    rw [afterFirst, committed_totalMinted, totalMinted_genesisState, applyBlock_firstBlock]
    unfold Finite64 maxFloat64 Application.mint
    norm_num

theorem committedRun_reload_afterFirst :
    CommittedRun NetworkConfig.permissive 1 afterFirst ∧ 1 < 2 ^ 63 ∧ afterFirst.FiniteAmounts ∧
      ∃ bc', newBlockchain NetworkConfig.permissive afterFirst.store none 0 (fun _ => .ok) .ok = some bc' ∧
        (∀ a, bc'.balances.lookup a = afterFirst.balances.lookup a) ∧
        (∀ a, bc'.stakes.stakes.lookup a = afterFirst.stakes.stakes.lookup a) ∧
        bc'.totalMinted = afterFirst.totalMinted ∧ afterFirst.store.getBestHeight + 1 = (1 : Nat) + 1 ∧
        bc'.lastBlock = afterFirst.lastBlock :=
  ⟨committedRun_afterFirst, by decide, finiteAmounts_afterFirst,
    committedRun_reload committedRun_afterFirst (by decide) finiteAmounts_afterFirst none 0 (fun _ => .ok) .ok⟩

/-! ## An amount past every `float64`

A peer block may pay any amounts. Two outputs of `10 ^ 308` to one address are each a finite
`float64`; the balance and the minted total they make are not, `floatToBytes` writes nil for
them, and the reload reads 0. -/

def overflowCoinbase : Transaction :=
  { txID := "overflow", type := "coinbase", «from» := "", «to» := "whale", amount := 10 ^ 308, fee := 0,
    timestamp := 0, signature := "", outputs := [⟨"whale", 10 ^ 308⟩, ⟨"whale", 10 ^ 308⟩] }

def overflowBlock : Block :=
  forgeBlock (createGenesisBlock NetworkConfig.permissive 0) 1 0x2200FFFF (computeMerkleRoot [overflowCoinbase])
    [overflowCoinbase]

def overflowChain : Blockchain := (genesisState NetworkConfig.permissive 0).committed overflowBlock

theorem addBlock_overflowBlock :
    (genesisState NetworkConfig.permissive 0).addBlock overflowBlock .ok = (.ok (), overflowChain) :=
  addBlock_of_commit_ok (valid_forgeBlock (getBlockCount_genesisState _ _) rfl (by decide) (by decide) (by decide) rfl)
    (Store.commitBlock_of_keysValid _ (keysValid_commitOf (Store.checkKey_computeHash _) (by
      simp only [overflowBlock, forgeBlock, List.mem_singleton, forall_eq]
      exact ⟨rfl, by simp [Transaction.touched, overflowCoinbase]; rfl⟩)))

theorem applyBlock_overflowBlock :
    ((genesisState NetworkConfig.permissive 0).applyBlock overflowBlock).balances.lookup "whale" =
        some (2 * 10 ^ 308) ∧
      ((genesisState NetworkConfig.permissive 0).applyBlock overflowBlock).blockMinted = 2 * 10 ^ 308 := by
  simp [applyBlock, overflowBlock, forgeBlock, Application.applyTransaction, overflowCoinbase, Application.mint,
    Application.credit, Application.setBalance, balanceOf, genesisState, Blockchain.fresh,
    AList.singleton_entries, AList.lookup]
  norm_num

theorem not_finite64_overflow : ¬ Finite64 (2 * 10 ^ 308) := by
  unfold Finite64 maxFloat64
  norm_num

theorem reload_zeroes_overflow :
    CommittedRun NetworkConfig.permissive 1 overflowChain ∧
      overflowChain.getBalance "whale" = 2 * 10 ^ 308 ∧ overflowChain.totalMinted = 2 * 10 ^ 308 ∧
      ∃ bc', newBlockchain NetworkConfig.permissive overflowChain.store none 0 (fun _ => .ok) .ok = some bc' ∧
        bc'.getBalance "whale" = 0 ∧ bc'.totalMinted = 0 := by
  have hrun : CommittedRun NetworkConfig.permissive 1 overflowChain := by
    have h := (CommittedRun.genesis 0 (fun _ => .ok) .ok (newBlockchain_empty.2 ⟨rfl, rfl⟩)).commit overflowBlock
      .ok (by rw [addBlock_overflowBlock])
    rwa [addBlock_overflowBlock] at h
  have hp := committedRun_persisted hrun (by decide)
  obtain ⟨hbal, hminted⟩ := applyBlock_overflowBlock
  have htotal : overflowChain.totalMinted = 2 * 10 ^ 308 := by
    rw [overflowChain, committed_totalMinted, totalMinted_genesisState, hminted, zero_add]
  refine ⟨hrun, by rw [getBalance, overflowChain, committed_balances, balanceOf, hbal]; rfl, htotal, _,
    newBlockchain_of_persisted hp (by decide) _ _ _ _ _, ?_, ?_⟩
  · show balanceOf overflowChain.store.balances "whale" = 0
    rw [balanceOf, hp.balances, overflowChain, committed_balances, hbal]
    exact bytesToFloat_floatToBytes_of_not not_finite64_overflow
  · show overflowChain.store.getTotalMinted = 0
    rw [hp.totalMinted, htotal]
    exact bytesToFloat_floatToBytes_of_not not_finite64_overflow

/-! ## Past `2 ^ 63` commits

Empty blocks on the permissive network, each on the last one at the next height, commit
one after the other; after `2 ^ 63` of them the best height reads as negative. -/

def emptyTip : Nat → Block
  | 0 => createGenesisBlock NetworkConfig.permissive 0
  | k + 1 => forgeBlock (emptyTip k) (UInt64.ofNat (k + 1)) 0x2200FFFF "" []

def emptyChain : Nat → Blockchain
  | 0 => genesisState NetworkConfig.permissive 0
  | k + 1 => (emptyChain k).committed (emptyTip (k + 1))

theorem emptyTip_height (k : Nat) : (emptyTip k).header.height = UInt64.ofNat k := by
  cases k <;> rfl

theorem addBlock_emptyTip {k : Nat} (hk : k < 2 ^ 63) (hrun : CommittedRun NetworkConfig.permissive k (emptyChain k))
    (htip : (emptyChain k).lastBlock = some (emptyTip k)) (hcfg : (emptyChain k).config = NetworkConfig.permissive) :
    (emptyChain k).addBlock (emptyTip (k + 1)) .ok = (.ok (), emptyChain (k + 1)) := by
  have hfloor : (UInt64.ofNat (k + 1)).toNat < NetworkConfig.permissive.difficultyEpochBlocks.toNat := by
    rw [UInt64.toNat_ofNat']
    show (k + 1) % 2 ^ 64 < 18446744073709551615
    omega
  have hv : (emptyChain k).Valid (forgeBlock (emptyTip k) (UInt64.ofNat (k + 1)) 0x2200FFFF "" []) :=
    valid_forgeBlock ((committedRun_persisted hrun hk.le).getBlockCount hk) htip
      (show 2 ^ 256 ≤ bitsToTarget 0x2200FFFF by decide)
      (by rw [hcfg, progressiveDifficultyFloor_of_lt _ hfloor]; exact le_rfl)
      (by rw [hcfg]; decide) (by rw [hcfg]; rfl)
  exact addBlock_of_commit_ok hv (Store.commitBlock_of_keysValid _
    (keysValid_commitOf (Store.checkKey_computeHash _) fun _ h => absurd h (List.not_mem_nil _)))

theorem emptyChain_committedRun (k : Nat) (hk : k ≤ 2 ^ 63) :
    CommittedRun NetworkConfig.permissive k (emptyChain k) ∧ (emptyChain k).lastBlock = some (emptyTip k) ∧
      (emptyChain k).config = NetworkConfig.permissive := by
  induction k with
  | zero => exact ⟨.genesis 0 (fun _ => .ok) .ok (newBlockchain_empty.2 ⟨rfl, rfl⟩), rfl, rfl⟩
  | succ k ih =>
    obtain ⟨hrun, htip, hcfg⟩ := ih (by omega)
    have hadd := addBlock_emptyTip (by omega) hrun htip hcfg
    have hrun' := hrun.commit (emptyTip (k + 1)) .ok (by rw [hadd])
    rw [hadd] at hrun'
    exact ⟨hrun', rfl, hcfg⟩

theorem getBlockByHeight_emptyChain {k j : Nat} (hk : k < 2 ^ 64) (hj : j < 2 ^ 64) (h0 : 0 < j) :
    (emptyChain k).store.getBlockByHeight (UInt64.ofNat j) = if j ≤ k then some (emptyTip j) else none := by
  induction k with
  | zero =>
    rw [if_neg (by omega)]
    refine getBlockByHeight_genesisState_of_ne _ _ fun h => ?_
    have := congrArg UInt64.toNat h
    rw [UInt64.toNat_ofNat'] at this
    exact absurd this (by show j % 2 ^ 64 ≠ 0; omega)
  | succ k ih =>
    show ((emptyChain k).committed (emptyTip (k + 1))).store.getBlockByHeight _ = _
    by_cases hjk : j = k + 1
    · rw [hjk, if_pos le_rfl, ← emptyTip_height]
      exact getBlockByHeight_committed_self _ _
    · have hne : UInt64.ofNat j ≠ (emptyTip (k + 1)).header.height := by
        rw [emptyTip_height, Ne, UInt64.eq_iff_toNat_eq', UInt64.toNat_ofNat', UInt64.toNat_ofNat']
        omega
      rw [getBlockByHeight_committed_of_ne hne, ih (by omega)]
      by_cases h : j ≤ k
      · rw [if_pos h, if_pos (by omega)]
      · rw [if_neg h, if_neg (by omega)]

theorem reload_rebootstraps_at_int64_wrap :
    CommittedRun NetworkConfig.permissive (2 ^ 63) (emptyChain (2 ^ 63)) ∧
      ∃ bc', newBlockchain NetworkConfig.permissive (emptyChain (2 ^ 63)).store none 0 (fun _ => .ok) .ok = some bc' ∧
        bc'.lastBlock ≠ (emptyChain (2 ^ 63)).lastBlock := by
  obtain ⟨hrun, htip, -⟩ := emptyChain_committedRun (2 ^ 63) le_rfl
  have hdata : (emptyChain (2 ^ 63)).store.hasData = false := by
    rw [Store.hasData_of (committedRun_persisted hrun le_rfl).bestHeight]
    decide
  let genesis := createGenesisBlock NetworkConfig.permissive 0
  refine ⟨hrun, { Blockchain.fresh NetworkConfig.permissive
    ((emptyChain (2 ^ 63)).store.applyCommit (genesisCommit genesis)) with lastBlock := some genesis }, ?_, fun h => ?_⟩
  · rw [newBlockchain, hdata, if_neg Bool.false_ne_true]
    show bootstrapGenesis _ _ _ _ = _
    rw [bootstrapGenesis, Store.commitBlock_of_keysValid _ (keysValid_genesisCommit _ _)]
  · rw [htip] at h
    have hheight : genesis.header.height = (emptyTip (2 ^ 63)).header.height :=
      congrArg (fun b : Block => b.header.height) (Option.some.inj h)
    rw [emptyTip_height] at hheight
    exact absurd hheight (by decide)

theorem reload_differs_from_memory :
    (CommittedRun NetworkConfig.permissive (2 ^ 63) (emptyChain (2 ^ 63)) ∧
      ∃ bc', newBlockchain NetworkConfig.permissive (emptyChain (2 ^ 63)).store none 0 (fun _ => .ok) .ok = some bc' ∧
        bc'.lastBlock ≠ (emptyChain (2 ^ 63)).lastBlock) ∧
    (CommittedRun NetworkConfig.permissive 1 overflowChain ∧
      overflowChain.getBalance "whale" = 2 * 10 ^ 308 ∧ overflowChain.totalMinted = 2 * 10 ^ 308 ∧
      ∃ bc', newBlockchain NetworkConfig.permissive overflowChain.store none 0 (fun _ => .ok) .ok = some bc' ∧
        bc'.getBalance "whale" = 0 ∧ bc'.totalMinted = 0) :=
  ⟨reload_rebootstraps_at_int64_wrap, reload_zeroes_overflow⟩

end Blockchain

end DevInsiderCoin

