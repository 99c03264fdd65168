import DevInsiderCoin.Chain.Basic

/-! Block templates (`CreateBlockTemplate`): reward transactions, a prefix of the mempool,
retargeted and floor-clamped bits, and the Merkle root of exactly those transactions.
-/

set_option autoImplicit false

namespace DevInsiderCoin

/-- The three clock readings `CreateBlockTemplate` makes: for the coinbase, for the
proof-of-stake transaction, and for the header. -/
structure TemplateClock where
  coinbase : BitVec 64
  posReward : BitVec 64
  header : BitVec 64

namespace Blockchain

/-- `calcNextBitsFromDB`: retarget over the stored blocks of the last interval, or keep
the tip's bits while fewer are stored. -/
def calcNextBitsFromDB (bc : Blockchain) : Except Panic UInt32 :=
  let interval := bc.config.difficultyAdjustInterval
  let blocks := bc.store.getRecentBlocks interval
  if blocks.length < interval.toNat then
    .ok (match bc.lastBlock with
      | some last => last.header.bits
      | none => bc.config.minDifficultyBits)
  else calcNextBits blocks interval bc.config.blockTimeSeconds bc.config.minDifficultyBits

/-- The reward transactions of a template: a coinbase of the PoW share followed by a
`pos_reward` of the stakers' shares, or one coinbase of the whole reward when no staker
gets a share. -/
def rewardTransactions (bc : Blockchain) (minerAddress : String) (clock : TemplateClock)
    (height : UInt64) (totalReward : ℚ) : List Transaction :=
  let powReward := totalReward * bc.config.powRewardShare
  let posReward := totalReward * bc.config.posRewardShare
  let posOutputs := bc.stakes.calcPOSRewards posReward bc.config.posMinThreshold
  if posOutputs ≠ [] then
    let posTx₀ : Transaction :=
      { txID := "", type := "pos_reward", «from» := "", «to» := "", amount := posReward, fee := 0,
        timestamp := clock.posReward, signature := "", outputs := posOutputs }
    [newCoinbaseTransaction minerAddress powReward height clock.coinbase,
      { posTx₀ with txID := posTx₀.computeTxID }]
  else [newCoinbaseTransaction minerAddress totalReward height clock.coinbase]

/-- The mempool transactions a template takes after `rewards`: at most
`int(MaxBlockTransactions) - len(rewards)`, computed in 64-bit `int`. -/
def mempoolPrefix (bc : Blockchain) (rewards : List Transaction) : List Transaction :=
  let maxTxs := (bc.config.maxBlockTransactions.toBitVec - BitVec.ofNat 64 rewards.length).toInt
  let maxTxs := if maxTxs > bc.mempool.length then (bc.mempool.length : Int) else maxTxs
  if maxTxs > 0 then bc.mempool.take maxTxs.toNat else []

/-- The bits of a template at `height`: the previous bits, retargeted on interval
heights, then clamped to the progressive floor. -/
def templateBits (bc : Blockchain) (height : UInt64) (prevBits : UInt32) : Except Panic UInt32 := do
  let bits ← if height = 0 then pure prevBits
    else if bc.config.difficultyAdjustInterval = 0 then throw ⟨"runtime error: integer divide by zero"⟩
    else if height % bc.config.difficultyAdjustInterval = 0 then bc.calcNextBitsFromDB
    else pure prevBits
  pure (applyProgressiveDifficulty bits height bc.config.difficultyEpochBlocks bc.config.minDifficultyBits)

/-- The hash and bits a template at `height` builds on: the tip's, or the zero hash and
the minimum bits at height 0 or without a tip. -/
def parentOf (bc : Blockchain) (height : UInt64) : String × UInt32 :=
  match bc.lastBlock with
  | some last => if 0 < height then (last.hash, last.header.bits) else (zeroHash, bc.config.minDifficultyBits)
  | none => (zeroHash, bc.config.minDifficultyBits)

def templateTransactions (bc : Blockchain) (minerAddress : String) (clock : TemplateClock)
    (height : UInt64) (totalReward : ℚ) : List Transaction :=
  let rewards := bc.rewardTransactions minerAddress clock height totalReward
  rewards ++ bc.mempoolPrefix rewards

def templateBlock (bc : Blockchain) (minerAddress : String) (clock : TemplateClock) (totalReward : ℚ)
    (bits : UInt32) : Block :=
  let height := bc.store.getBlockCount
  let txs := bc.templateTransactions minerAddress clock height totalReward
  { header :=
      { version := 2, prevHash := (bc.parentOf height).1, merkleRoot := computeMerkleRoot txs,
        timestamp := clock.header, bits, nonce := 0, height }
    transactions := txs
    hash := "" }

@[simp] theorem templateBlock_header_height (bc : Blockchain) (minerAddress : String) (clock : TemplateClock)
    (totalReward : ℚ) (bits : UInt32) :
    (bc.templateBlock minerAddress clock totalReward bits).header.height = bc.store.getBlockCount := rfl

@[simp] theorem templateBlock_header_bits (bc : Blockchain) (minerAddress : String) (clock : TemplateClock)
    (totalReward : ℚ) (bits : UInt32) : (bc.templateBlock minerAddress clock totalReward bits).header.bits = bits :=
  rfl

/-- `CreateBlockTemplate`: an unsolved block (nonce 0, no hash) on top of the tip. -/
def createBlockTemplate (bc : Blockchain) (minerAddress : String) (clock : TemplateClock) :
    Except Panic Block := do
  let height := bc.store.getBlockCount
  let totalReward ← bc.calcBlockReward height
  let bits ← bc.templateBits height (bc.parentOf height).2
  pure (bc.templateBlock minerAddress clock totalReward bits)

theorem createBlockTemplate_eq_ok {bc : Blockchain} {minerAddress : String} {clock : TemplateClock}
    {template : Block} :
    bc.createBlockTemplate minerAddress clock = .ok template ↔
      ∃ totalReward bits, bc.calcBlockReward bc.store.getBlockCount = .ok totalReward ∧
        bc.templateBits bc.store.getBlockCount (bc.parentOf bc.store.getBlockCount).2 = .ok bits ∧
        template = bc.templateBlock minerAddress clock totalReward bits := by
  unfold createBlockTemplate
  cases h₁ : bc.calcBlockReward bc.store.getBlockCount <;>
    cases h₂ : bc.templateBits bc.store.getBlockCount (bc.parentOf bc.store.getBlockCount).2 <;>
    simp [h₁, h₂, bind, Except.bind, pure, Except.pure, eq_comm]

theorem parentOf_of_tip {bc : Blockchain} {last : Block} {height : UInt64} (h : bc.lastBlock = some last)
    (hpos : 0 < height) : bc.parentOf height = (last.hash, last.header.bits) := by
  simp [parentOf, h, hpos]

theorem templateBits_off_interval {bc : Blockchain} {height : UInt64} (prevBits : UInt32) (h0 : height ≠ 0)
    (hi : bc.config.difficultyAdjustInterval ≠ 0) (hm : height % bc.config.difficultyAdjustInterval ≠ 0) :
    bc.templateBits height prevBits = .ok (applyProgressiveDifficulty prevBits height
      bc.config.difficultyEpochBlocks bc.config.minDifficultyBits) := by
  simp [templateBits, h0, hi, hm, bind, Except.bind, pure, Except.pure]

theorem mempoolPrefix_of_nil {bc : Blockchain} (h : bc.mempool = []) (rewards : List Transaction) :
    bc.mempoolPrefix rewards = [] := by
  unfold mempoolPrefix
  simp [h]

theorem templateBits_eq_ok {bc : Blockchain} {height : UInt64} {prevBits bits : UInt32}
    (h : bc.templateBits height prevBits = .ok bits) :
    ∃ raw, bits = applyProgressiveDifficulty raw height bc.config.difficultyEpochBlocks
      bc.config.minDifficultyBits := by
  unfold templateBits at h
  split at h
  · exact ⟨prevBits, (Except.ok.inj h).symm⟩
  · split at h
    · contradiction
    · split at h
      · cases hnext : bc.calcNextBitsFromDB <;> simp only [hnext, bind, Except.bind] at h
        · contradiction
        · exact ⟨_, (Except.ok.inj h).symm⟩
      · exact ⟨prevBits, (Except.ok.inj h).symm⟩

end Blockchain

/-- The miner's solved block: the template with its nonce set and the header hash filled in. -/
def Block.withNonce (b : Block) (nonce : UInt64) : Block :=
  { b with header := { b.header with nonce }, hash := { b.header with nonce }.computeHash }

end DevInsiderCoin
