import Mathlib.Tactic.Linarith
import Mathlib.Tactic.NormNum
import DevInsiderCoin.Chain.StoredChain
import DevInsiderCoin.Chain.Delta

/-! What `validateBlock` accepts, against what `CreateBlockTemplate` builds.

A solved template passes every check of `validateBlock` in the state that built it but
two that the template does not ensure: its serialized size, which nothing bounds, and
its transaction count, when `MaxBlockTransactions` is below its reward transactions.
The other way round, `validateBlock` checks less than a template guarantees: it reads the
transactions only through their count and size, never against the Merkle root, and the
bits only against the progressive floor, never against the retarget.
-/

set_option autoImplicit false

namespace DevInsiderCoin

theorem progressiveDifficultyFloor_of_lt {height epochBlocks : UInt64} (minBits : UInt32)
    (h : height.toNat < epochBlocks.toNat) : progressiveDifficultyFloor height epochBlocks minBits = minBits := by
  unfold progressiveDifficultyFloor
  have hdiv : height / epochBlocks = 0 := UInt64.eq_iff_toNat_eq'.2 (Nat.div_eq_of_lt h)
  simp [hdiv]

namespace Blockchain

/-! ## Templates -/

theorem length_rewardTransactions_le (bc : Blockchain) (minerAddress : String) (clock : TemplateClock)
    (height : UInt64) (totalReward : ℚ) : (bc.rewardTransactions minerAddress clock height totalReward).length ≤ 2 := by
  unfold rewardTransactions
  dsimp only
  split <;> simp

/-- The mempool prefix keeps a template within `MaxBlockTransactions` once its rewards fit:
Go computes `int(MaxBlockTransactions) - len(rewards)` in 64 bits, which is at most the
true difference, and negative past `2 ^ 63`. -/
theorem toNat_maxTxs (bc : Blockchain) {n : Nat} (h : n ≤ bc.config.maxBlockTransactions.toNat) :
    (bc.config.maxBlockTransactions.toBitVec - BitVec.ofNat 64 n).toNat = bc.config.maxBlockTransactions.toNat - n := by
  have hM := bc.config.maxBlockTransactions.toNat_lt_size
  rw [BitVec.toNat_sub, BitVec.toNat_ofNat]
  change (2 ^ 64 - n % 2 ^ 64 + bc.config.maxBlockTransactions.toNat) % 2 ^ 64 = _
  simp only [UInt64.size] at hM
  omega

theorem length_mempoolPrefix_le (bc : Blockchain) (rewards : List Transaction)
    (h : rewards.length ≤ bc.config.maxBlockTransactions.toNat) :
    rewards.length + (bc.mempoolPrefix rewards).length ≤ bc.config.maxBlockTransactions.toNat := by
  have hsub := toNat_maxTxs bc h
  have hle : (bc.config.maxBlockTransactions.toBitVec - BitVec.ofNat 64 rewards.length).toInt ≤
      ((bc.config.maxBlockTransactions.toNat - rewards.length : Nat) : Int) := by
    rw [BitVec.toInt_eq_toNat_cond, hsub]
    split <;> omega
  unfold mempoolPrefix
  dsimp only
  split <;> split <;> simp only [List.length_take, List.length_nil] <;> omega

theorem mempoolPrefix_of_fits {bc : Blockchain} {rewards : List Transaction}
    (h : rewards.length + bc.mempool.length ≤ bc.config.maxBlockTransactions.toNat)
    (hsmall : bc.config.maxBlockTransactions.toNat < 2 ^ 63) : bc.mempoolPrefix rewards = bc.mempool := by
  have hsub := toNat_maxTxs bc (n := rewards.length) (by omega)
  have hint : (bc.config.maxBlockTransactions.toBitVec - BitVec.ofNat 64 rewards.length).toInt =
      ((bc.config.maxBlockTransactions.toNat - rewards.length : Nat) : Int) := by
    rw [BitVec.toInt_eq_toNat_cond, hsub, if_pos (by omega)]
  have hval : (if ((bc.config.maxBlockTransactions.toNat - rewards.length : Nat) : Int) > bc.mempool.length
      then (bc.mempool.length : Int) else ((bc.config.maxBlockTransactions.toNat - rewards.length : Nat) : Int)) =
      bc.mempool.length := by
    split <;> omega
  unfold mempoolPrefix
  simp only [hint, hval, Int.toNat_ofNat, List.take_length]
  split_ifs
  · rfl
  · exact (List.length_eq_zero.1 (by omega)).symm

theorem templateBlock_transactions_of_no_stakes {bc : Blockchain} (hstakes : bc.stakes.stakes.entries = [])
    (hfit : 1 + bc.mempool.length ≤ bc.config.maxBlockTransactions.toNat)
    (hsmall : bc.config.maxBlockTransactions.toNat < 2 ^ 63) (minerAddress : String) (clock : TemplateClock)
    (reward : ℚ) (bits : UInt32) :
    (bc.templateBlock minerAddress clock reward bits).transactions =
      newCoinbaseTransaction minerAddress reward bc.store.getBlockCount clock.coinbase :: bc.mempool := by
  have hrewards : bc.rewardTransactions minerAddress clock bc.store.getBlockCount reward =
      [newCoinbaseTransaction minerAddress reward bc.store.getBlockCount clock.coinbase] := by
    simp [rewardTransactions, StakeManager.calcPOSRewards, hstakes]
  show bc.templateTransactions minerAddress clock bc.store.getBlockCount reward = _
  rw [templateTransactions, hrewards, mempoolPrefix_of_fits (by simpa using hfit) hsmall]
  rfl

theorem length_templateTransactions_le (bc : Blockchain) (minerAddress : String) (clock : TemplateClock)
    (height : UInt64) (totalReward : ℚ)
    (h : (bc.rewardTransactions minerAddress clock height totalReward).length ≤ bc.config.maxBlockTransactions.toNat) :
    (bc.templateTransactions minerAddress clock height totalReward).length ≤
      bc.config.maxBlockTransactions.toNat := by
  rw [templateTransactions, List.length_append]
  exact length_mempoolPrefix_le bc _ h

theorem rewardTransactions_fit {bc : Blockchain} (h : 2 ≤ bc.config.maxBlockTransactions) (minerAddress : String)
    (clock : TemplateClock) (height : UInt64) (totalReward : ℚ) :
    (bc.rewardTransactions minerAddress clock height totalReward).length ≤ bc.config.maxBlockTransactions.toNat :=
  (length_rewardTransactions_le ..).trans h

theorem parentOf_linked (bc : Blockchain) {height : UInt64} (hpos : 0 < height) :
    bc.lastBlock.all ((bc.parentOf height).1 == ·.hash) := by
  unfold parentOf
  cases bc.lastBlock <;> simp [hpos]

theorem bitsToTarget_templateBits_le {bc : Blockchain} {height : UInt64} {prevBits bits : UInt32}
    (h : bc.templateBits height prevBits = .ok bits) :
    bitsToTarget bits ≤ bitsToTarget
      (progressiveDifficultyFloor height bc.config.difficultyEpochBlocks bc.config.minDifficultyBits) := by
  obtain ⟨raw, rfl⟩ := templateBits_eq_ok h
  exact bitsToTarget_applyProgressiveDifficulty_le ..

@[simp] theorem withNonce_header_height (b : Block) (nonce : UInt64) :
    (b.withNonce nonce).header.height = b.header.height := rfl

@[simp] theorem withNonce_header_bits (b : Block) (nonce : UInt64) :
    (b.withNonce nonce).header.bits = b.header.bits := rfl

@[simp] theorem withNonce_header_prevHash (b : Block) (nonce : UInt64) :
    (b.withNonce nonce).header.prevHash = b.header.prevHash := rfl

@[simp] theorem withNonce_transactions (b : Block) (nonce : UInt64) :
    (b.withNonce nonce).transactions = b.transactions := rfl

@[simp] theorem withNonce_hash (b : Block) (nonce : UInt64) :
    (b.withNonce nonce).hash = (b.withNonce nonce).header.computeHash := rfl

/-! ## Blocks on a network every digest solves

The runs below are on `NetworkConfig.permissive`, where any header hash meets the minimum
difficulty, so that a block needs no search for a nonce. -/

/-- A block a peer can submit on top of `parent` at `height`: any bits, Merkle root field
and transactions, with the header hash filled in. -/
def forgeBlock (parent : Block) (height : UInt64) (bits : UInt32) (merkleRoot : String)
    (txs : List Transaction) : Block :=
  let header : BlockHeader :=
    { version := 1, prevHash := parent.hash, merkleRoot, timestamp := 0, bits, nonce := 0, height }
  { header, transactions := txs, hash := header.computeHash }

theorem valid_forgeBlock {bc : Blockchain} {parent : Block} {height : UInt64} {bits : UInt32}
    {merkleRoot : String} {txs : List Transaction} (hheight : bc.store.getBlockCount = height)
    (htip : bc.lastBlock = some parent) (hpow : 2 ^ 256 ≤ bitsToTarget bits)
    (hfloor : bitsToTarget bits ≤ bitsToTarget (progressiveDifficultyFloor height
      bc.config.difficultyEpochBlocks bc.config.minDifficultyBits))
    (hcount : UInt64.ofNat txs.length ≤ bc.config.maxBlockTransactions)
    (hsize : bc.config.maxBlockSize = 18446744073709551615) :
    bc.Valid (forgeBlock parent height bits merkleRoot txs) where
  height := hheight.symm
  prevHash _ := by simp [htip, forgeBlock]
  hash := rfl
  pow := checkProofOfWork_computeHash hpow
  count := hcount
  size := hsize ▸ UInt64.le_max' _
  floor := hfloor

def forgedCoinbase : Transaction :=
  { txID := "forged", type := "coinbase", «from» := "", «to» := "attacker", amount := 1000000000,
    fee := 0, timestamp := 0, signature := "", outputs := [⟨"attacker", 1000000000⟩] }

/-- A block on the permissive genesis with the forged coinbase, a Merkle root field that
is no root, and bits other than the template's. -/
def forgedBlock : Block :=
  forgeBlock (createGenesisBlock NetworkConfig.permissive 0) 1 0x2200FFFE "x" [forgedCoinbase]

theorem reachable_genesis_permissive :
    Reachable NetworkConfig.permissive (genesisState NetworkConfig.permissive 0) :=
  .genesis 0 (fun _ => .ok) .ok (newBlockchain_empty.2 ⟨rfl, rfl⟩)

theorem valid_forgedBlock : (genesisState NetworkConfig.permissive 0).Valid forgedBlock :=
  valid_forgeBlock (getBlockCount_genesisState _ _) rfl (by decide) (by decide) (by decide) rfl

theorem keysValid_forgedBlock :
    Store.KeysValid ((genesisState NetworkConfig.permissive 0).commitOf forgedBlock) :=
  keysValid_commitOf (Store.checkKey_computeHash _) (by
    simp only [forgedBlock, forgeBlock, List.mem_singleton, forall_eq]
    exact ⟨rfl, by simp [Transaction.touched, forgedCoinbase]; rfl⟩)

theorem addBlock_forgedBlock :
    (genesisState NetworkConfig.permissive 0).addBlock forgedBlock .ok =
      (.ok (), (genesisState NetworkConfig.permissive 0).committed forgedBlock) :=
  addBlock_of_commit_ok valid_forgedBlock (Store.commitBlock_of_keysValid _ keysValid_forgedBlock)

theorem applyProgressiveDifficulty_min_of_lt {height epochBlocks : UInt64} (minBits : UInt32)
    (h : height.toNat < epochBlocks.toNat) : applyProgressiveDifficulty minBits height epochBlocks minBits = minBits := by
  simp [applyProgressiveDifficulty, progressiveDifficultyFloor_of_lt minBits h]

theorem valid_solvedTemplate {bc : Blockchain} {minerAddress : String} {clock : TemplateClock}
    {template : Block} {nonce : UInt64} (ht : bc.createBlockTemplate minerAddress clock = .ok template)
    (hpow : checkProofOfWork (template.withNonce nonce).header.computeHash
      (template.withNonce nonce).header.bits = true)
    (hcount : ∀ totalReward, bc.calcBlockReward bc.store.getBlockCount = .ok totalReward →
      (bc.rewardTransactions minerAddress clock bc.store.getBlockCount totalReward).length ≤
        bc.config.maxBlockTransactions.toNat)
    (hsize : UInt64.ofNat (template.withNonce nonce).marshal.utf8ByteSize ≤ bc.config.maxBlockSize) :
    bc.Valid (template.withNonce nonce) := by
  obtain ⟨totalReward, bits, hr, hbits, rfl⟩ := createBlockTemplate_eq_ok.1 ht
  have hlen := length_templateTransactions_le bc minerAddress clock bc.store.getBlockCount totalReward
    (hcount totalReward hr)
  have hlt := bc.config.maxBlockTransactions.toNat_lt_size
  refine ⟨rfl, parentOf_linked bc, rfl, hpow, ?_, hsize, bitsToTarget_templateBits_le hbits⟩
  rw [UInt64.le_iff_toNat_le', UInt64.toNat_ofNat']
  simp only [UInt64.size] at hlt
  exact (Nat.mod_le _ _).trans hlen

/-- The node's own templates, once solved, pass its validation. -/
theorem validateBlock_solvedTemplate {bc : Blockchain} {minerAddress : String} {clock : TemplateClock}
    {template : Block} {nonce : UInt64} (ht : bc.createBlockTemplate minerAddress clock = .ok template)
    (hpow : checkProofOfWork (template.withNonce nonce).header.computeHash
      (template.withNonce nonce).header.bits = true)
    (hcount : ∀ totalReward, bc.calcBlockReward bc.store.getBlockCount = .ok totalReward →
      (bc.rewardTransactions minerAddress clock bc.store.getBlockCount totalReward).length ≤
        bc.config.maxBlockTransactions.toNat)
    (hsize : UInt64.ofNat (template.withNonce nonce).marshal.utf8ByteSize ≤ bc.config.maxBlockSize) :
    bc.validateBlock (template.withNonce nonce) = .ok () :=
  validateBlock_eq_ok.2 (valid_solvedTemplate ht hpow hcount hsize)

/-- A state of the permissive network whose next template takes the full reward of 50 at
the minimum bits: over a tip at the minimum bits, below the first halving, off the
retarget heights, with room for the reward in the supply. -/
structure PermissiveNext (bc : Blockchain) : Prop where
  config : bc.config = NetworkConfig.permissive
  tip : ∃ tip, bc.lastBlock = some tip ∧ tip.header.bits = 0x2200FFFF
  pos : 0 < bc.store.getBlockCount
  retarget : bc.store.getBlockCount % 10 ≠ 0
  halving : bc.store.getBlockCount.toNat < 210000
  minted : bc.totalMinted + 50 ≤ 21000000

namespace PermissiveNext

variable {bc : Blockchain} (h : bc.PermissiveNext)
include h

theorem createBlockTemplate (minerAddress : String) (clock : TemplateClock) :
    bc.createBlockTemplate minerAddress clock = .ok (bc.templateBlock minerAddress clock 50 0x2200FFFF) := by
  obtain ⟨tip, htip, hbits⟩ := h.tip
  refine createBlockTemplate_eq_ok.2 ⟨50, 0x2200FFFF, ?_, ?_, rfl⟩
  · have hdiv : (bc.store.getBlockCount / 210000).toNat = 0 := Nat.div_eq_of_lt h.halving
    have hminted := h.minted
    unfold calcBlockReward
    simp only [h.config, NetworkConfig.permissive, hdiv, halve, dust]
    rw [if_neg (by linarith), if_neg (by decide), if_neg (by norm_num), if_neg (by linarith)]
  · rw [parentOf_of_tip htip h.pos, templateBits_off_interval _ (fun h0 => absurd (h0 ▸ h.pos) (by decide))
      (by rw [h.config]; decide) (by rw [h.config]; exact h.retarget), hbits, h.config]
    exact congrArg _ (applyProgressiveDifficulty_min_of_lt _ (lt_trans h.halving (by decide)))

theorem addBlock (minerAddress : String) (clock : TemplateClock)
    (hkeys : ∀ tx ∈ (bc.templateBlock minerAddress clock 50 0x2200FFFF).transactions,
      checkKey tx.txID = .ok () ∧ ∀ a ∈ tx.touched, checkKey a = .ok ()) :
    bc.addBlock ((bc.templateBlock minerAddress clock 50 0x2200FFFF).withNonce 0) .ok =
      (.ok (), bc.committed ((bc.templateBlock minerAddress clock 50 0x2200FFFF).withNonce 0)) :=
  addBlock_of_commit_ok
    (valid_solvedTemplate (h.createBlockTemplate minerAddress clock)
      (checkProofOfWork_computeHash (show 2 ^ 256 ≤ bitsToTarget 0x2200FFFF by decide))
      (fun _ _ => rewardTransactions_fit (by rw [h.config]; decide) ..) (by rw [h.config]; exact UInt64.le_max' _))
    (Store.commitBlock_of_keysValid _ (keysValid_commitOf (Store.checkKey_computeHash _) hkeys))

theorem submit (tx : Transaction) : (bc.submit tx).PermissiveNext := by
  obtain ⟨h₁, h₂, h₃, h₄, h₅, h₆⟩ := h
  exact ⟨by rwa [submit_config], by rwa [submit_lastBlock], by rwa [submit_store], by rwa [submit_store],
    by rwa [submit_store], by rwa [submit_totalMinted]⟩

end PermissiveNext

theorem permissiveNext_genesis : (genesisState NetworkConfig.permissive 0).PermissiveNext where
  config := rfl
  tip := ⟨_, rfl, rfl⟩
  pos := by rw [getBlockCount_genesisState]; decide
  retarget := by rw [getBlockCount_genesisState]; decide
  halving := by rw [getBlockCount_genesisState]; decide
  minted := by norm_num [totalMinted_genesisState]

theorem createBlockTemplate_genesis_permissive (minerAddress : String) (clock : TemplateClock) :
    (genesisState NetworkConfig.permissive 0).createBlockTemplate minerAddress clock =
      .ok ((genesisState NetworkConfig.permissive 0).templateBlock minerAddress clock 50 0x2200FFFF) :=
  permissiveNext_genesis.createBlockTemplate minerAddress clock

theorem validateBlock_solvedTemplate_genesis :
    (genesisState NetworkConfig.permissive 0).validateBlock
      (((genesisState NetworkConfig.permissive 0).templateBlock "miner" ⟨0, 0, 0⟩ 50 0x2200FFFF).withNonce 0) =
      .ok () :=
  validateBlock_solvedTemplate (createBlockTemplate_genesis_permissive _ _)
    (checkProofOfWork_computeHash (by decide)) (fun _ _ => rewardTransactions_fit (by decide) ..) (UInt64.le_max' _)

def tightPermissive : NetworkConfig := { NetworkConfig.permissive with maxBlockTransactions := 1 }

def stakeTx : Transaction :=
  { txID := "stake-1", type := "stake", «from» := "staker", «to» := "", amount := 20, fee := 0,
    timestamp := 0, signature := "", outputs := [] }

/-- A block that stakes 20 for "staker", which no template of a one-transaction network
carries, since a template's reward comes first. -/
def stakeBlock : Block := forgeBlock (createGenesisBlock tightPermissive 0) 1 0x2200FFFF "x" [stakeTx]

theorem addBlock_stakeBlock :
    (genesisState tightPermissive 0).addBlock stakeBlock .ok =
      (.ok (), (genesisState tightPermissive 0).committed stakeBlock) :=
  addBlock_of_commit_ok
    (valid_forgeBlock (getBlockCount_genesisState _ _) rfl (by decide) (by decide) (by decide) rfl)
    (Store.commitBlock_of_keysValid _ (keysValid_commitOf (Store.checkKey_computeHash _) (by
      simp only [stakeBlock, forgeBlock, List.mem_singleton, forall_eq]
      exact ⟨rfl, by simp [Transaction.touched, stakeTx]; rfl⟩)))

theorem StakeManager.calcPOSRewards_singleton (address : String) (st : Stake) {reward threshold : ℚ}
    (hthr : threshold ≤ st.amount) (hpos : 0 < st.amount) (hdust : dust < reward) :
    StakeManager.calcPOSRewards ⟨(∅ : Bucket String Stake).insert address st⟩ reward threshold =
      [⟨address, reward⟩] := by
  have hne : st.amount ≠ 0 := hpos.ne'
  simp [StakeManager.calcPOSRewards, AList.singleton_entries, hthr, not_lt.2 hthr, hne, hdust]

theorem applyBlock_stakeBlock :
    (genesisState tightPermissive 0).applyBlock stakeBlock =
      ⟨(∅ : Bucket String ℚ).insert "staker" (-20), ⟨(∅ : Bucket String Stake).insert "staker" ⟨"staker", 20, 1⟩⟩,
        (∅ : Bucket String ℚ).insert "staker" (-20),
        (∅ : Bucket String (Option Stake)).insert "staker" (some ⟨"staker", 20, 1⟩), 0⟩ := by
  have hjson : stakeJSON ⟨"staker", 20, 1⟩ = some ⟨"staker", 20, 1⟩ :=
    stakeJSON_of_finite (by unfold Finite64 maxFloat64; norm_num)
  simp [applyBlock, stakeBlock, forgeBlock, Application.applyTransaction, stakeTx, Application.debit,
    Application.setBalance, Application.recordStake, StakeManager.addStake, genesisState, Blockchain.fresh,
    StakeManager.empty, balanceOf, AList.lookup, hjson]

theorem createBlockTemplate_stakeBlock :
    ((genesisState tightPermissive 0).committed stakeBlock).createBlockTemplate "miner" ⟨0, 0, 0⟩ =
      .ok (((genesisState tightPermissive 0).committed stakeBlock).templateBlock "miner" ⟨0, 0, 0⟩ 50 0x2200FFFF) := by
  have hcount : ((genesisState tightPermissive 0).committed stakeBlock).store.getBlockCount = 2 :=
    getBlockCount_committed _ (by decide)
  have hreward : ((genesisState tightPermissive 0).committed stakeBlock).calcBlockReward 2 = .ok 50 := by
    unfold calcBlockReward
    rw [committed_totalMinted, committed_config, applyBlock_stakeBlock]
    simp [genesisState, Blockchain.fresh, tightPermissive, NetworkConfig.permissive, halve, dust]
    norm_num
  have hbits : ((genesisState tightPermissive 0).committed stakeBlock).templateBits 2
      (((genesisState tightPermissive 0).committed stakeBlock).parentOf 2).2 = .ok 0x2200FFFF := by
    rw [parentOf_of_tip (committed_lastBlock _ _) (by decide),
      templateBits_off_interval _ (by decide) (by decide) (by decide)]
    rfl
  exact createBlockTemplate_eq_ok.2 ⟨50, 0x2200FFFF, hcount ▸ hreward, hcount ▸ hbits, rfl⟩

theorem length_rewardTransactions_stakeBlock :
    (((genesisState tightPermissive 0).committed stakeBlock).rewardTransactions "miner" ⟨0, 0, 0⟩ 2 50).length = 2 := by
  simp only [rewardTransactions, committed_stakes, committed_config, applyBlock_stakeBlock]
  have hcfg : (genesisState tightPermissive 0).config = tightPermissive := rfl
  rw [hcfg, StakeManager.calcPOSRewards_singleton _ _ (show tightPermissive.posMinThreshold ≤ 20 by
    norm_num [tightPermissive, NetworkConfig.permissive]) (by norm_num)
    (show dust < 50 * tightPermissive.posRewardShare by norm_num [dust, tightPermissive, NetworkConfig.permissive])]
  rfl

theorem solvedTemplate_rejected :
    Reachable tightPermissive ((genesisState tightPermissive 0).addBlock stakeBlock .ok).2 ∧
    ∃ template, ((genesisState tightPermissive 0).addBlock stakeBlock .ok).2.createBlockTemplate "miner"
        ⟨0, 0, 0⟩ = .ok template ∧
      checkProofOfWork (template.withNonce 0).header.computeHash (template.withNonce 0).header.bits = true ∧
      ((genesisState tightPermissive 0).addBlock stakeBlock .ok).2.validateBlock (template.withNonce 0) ≠
        .ok () := by
  refine ⟨.addBlock _ _ (.genesis 0 (fun _ => .ok) .ok (newBlockchain_empty.2 ⟨rfl, rfl⟩)), ?_⟩
  rw [addBlock_stakeBlock]
  refine ⟨_, createBlockTemplate_stakeBlock, checkProofOfWork_computeHash (by decide), fun hv => ?_⟩
  have hc := (validateBlock_eq_ok.1 hv).count
  have hcount : ((genesisState tightPermissive 0).committed stakeBlock).store.getBlockCount = 2 :=
    getBlockCount_committed _ (by decide)
  have hlen : ((((genesisState tightPermissive 0).committed stakeBlock).templateBlock "miner" ⟨0, 0, 0⟩ 50
      0x2200FFFF).withNonce 0).transactions.length = 2 := by
    simp only [withNonce_transactions, templateBlock, templateTransactions, hcount]
    rw [mempoolPrefix_of_nil (by simp [genesisState, Blockchain.fresh]), List.append_nil]
    exact length_rewardTransactions_stakeBlock
  rw [hlen] at hc
  exact absurd hc (by decide)

/-- The bits of every template satisfy the progressive floor at its height, the only check
`validateBlock` makes of a block's bits. -/
theorem bitsToTarget_createBlockTemplate_le {bc : Blockchain} {minerAddress : String}
    {clock : TemplateClock} {template : Block} (ht : bc.createBlockTemplate minerAddress clock = .ok template) :
    bitsToTarget template.header.bits ≤ bitsToTarget (progressiveDifficultyFloor template.header.height
      bc.config.difficultyEpochBlocks bc.config.minDifficultyBits) := by
  obtain ⟨totalReward, bits, -, hbits, rfl⟩ := createBlockTemplate_eq_ok.1 ht
  exact bitsToTarget_templateBits_le hbits

/-- The progressive floor is all `AddBlock` checks of a block's bits. -/
theorem addBlock_bits_within_floor {bc : Blockchain} {block : Block} {disk : Disk}
    (h : (bc.addBlock block disk).1 = .ok ()) :
    bitsToTarget block.header.bits ≤ bitsToTarget (progressiveDifficultyFloor block.header.height
      bc.config.difficultyEpochBlocks bc.config.minDifficultyBits) ∧
    ∀ minerAddress clock template, bc.createBlockTemplate minerAddress clock = .ok template →
      template.header.height = block.header.height ∧
      bitsToTarget template.header.bits ≤ bitsToTarget (progressiveDifficultyFloor block.header.height
        bc.config.difficultyEpochBlocks bc.config.minDifficultyBits) := by
  have hv := valid_of_addBlock_ok h
  refine ⟨hv.floor, fun minerAddress clock template ht => ?_⟩
  have hheight : template.header.height = block.header.height := by
    obtain ⟨_, _, -, -, rfl⟩ := createBlockTemplate_eq_ok.1 ht
    exact hv.height.symm
  exact ⟨hheight, hheight ▸ bitsToTarget_createBlockTemplate_le ht⟩

theorem addBlock_bits_within_floor_forged :
    bitsToTarget forgedBlock.header.bits ≤ bitsToTarget (progressiveDifficultyFloor forgedBlock.header.height
      (genesisState NetworkConfig.permissive 0).config.difficultyEpochBlocks
      (genesisState NetworkConfig.permissive 0).config.minDifficultyBits) ∧
    ∀ minerAddress clock template,
      (genesisState NetworkConfig.permissive 0).createBlockTemplate minerAddress clock = .ok template →
      template.header.height = forgedBlock.header.height ∧
      bitsToTarget template.header.bits ≤ bitsToTarget (progressiveDifficultyFloor forgedBlock.header.height
        (genesisState NetworkConfig.permissive 0).config.difficultyEpochBlocks
        (genesisState NetworkConfig.permissive 0).config.minDifficultyBits) :=
  addBlock_bits_within_floor
    (show ((genesisState NetworkConfig.permissive 0).addBlock forgedBlock .ok).1 = .ok () by
      rw [addBlock_forgedBlock])

theorem addBlock_accepts_other_bits :
    Reachable NetworkConfig.permissive (genesisState NetworkConfig.permissive 0) ∧
    ((genesisState NetworkConfig.permissive 0).addBlock forgedBlock .ok).1 = .ok () ∧
    (genesisState NetworkConfig.permissive 0).createBlockTemplate "miner" ⟨0, 0, 0⟩ =
      .ok ((genesisState NetworkConfig.permissive 0).templateBlock "miner" ⟨0, 0, 0⟩ 50 0x2200FFFF) ∧
    forgedBlock.header.height = 1 ∧ forgedBlock.header.bits ≠ 0x2200FFFF :=
  ⟨reachable_genesis_permissive, by rw [addBlock_forgedBlock], createBlockTemplate_genesis_permissive _ _,
    rfl, by decide⟩

/-! ## What validation does not read -/

/-- `validateBlock` reads a block's transactions only through their count and size, so the Merkle root field commits to nothing. -/
theorem validateBlock_with_transactions {bc : Blockchain} {block : Block} {txs : List Transaction}
    (hv : bc.validateBlock block = .ok ())
    (hcount : UInt64.ofNat txs.length ≤ bc.config.maxBlockTransactions)
    (hsize : UInt64.ofNat { block with transactions := txs }.marshal.utf8ByteSize ≤ bc.config.maxBlockSize) :
    bc.validateBlock { block with transactions := txs } = .ok () := by
  obtain ⟨h₁, h₂, h₃, h₄, -, -, h₇⟩ := validateBlock_eq_ok.1 hv
  exact validateBlock_eq_ok.2 ⟨h₁, h₂, h₃, h₄, hcount, hsize, h₇⟩

theorem validateBlock_forgedBlock_without_transactions :
    (genesisState NetworkConfig.permissive 0).validateBlock { forgedBlock with transactions := [] } = .ok () :=
  validateBlock_with_transactions (validateBlock_eq_ok.2 valid_forgedBlock) (by decide) (UInt64.le_max' _)

theorem addBlock_accepts_unmatched_root :
    Reachable NetworkConfig.permissive (genesisState NetworkConfig.permissive 0) ∧
    ((genesisState NetworkConfig.permissive 0).addBlock forgedBlock .ok).1 = .ok () ∧
    forgedBlock.header.merkleRoot ≠ computeMerkleRoot forgedBlock.transactions := by
  refine ⟨reachable_genesis_permissive, by rw [addBlock_forgedBlock], fun h => ?_⟩
  have := length_computeMerkleRoot_even forgedBlock.transactions
  rw [← h] at this
  exact absurd this (by decide)

end Blockchain

end DevInsiderCoin
