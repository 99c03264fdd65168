import DevInsiderCoin.Config
import DevInsiderCoin.Difficulty
import DevInsiderCoin.Store

/-! The chain state (`chain.go`): balances, stakes, mempool and minted total in memory,
the store, and the tip. This module holds its reads, the block reward, mempool
admission, the genesis block and `NewBlockchain`.
-/

set_option autoImplicit false

namespace DevInsiderCoin

structure Blockchain where
  config : NetworkConfig
  store : Store
  balances : Bucket String ℚ
  stakes : StakeManager
  mempool : List Transaction
  totalMinted : ℚ
  lastBlock : Option Block

def zeroHash : String := String.mk (List.replicate 64 '0')

def collectTxIDs (block : Block) : List String := block.transactions.map (·.txID)

/-- `Balances[address]`: zero for an address never credited. -/
def balanceOf (balances : Bucket String ℚ) (address : String) : ℚ :=
  (balances.lookup address).getD 0

namespace Blockchain

def getBalance (bc : Blockchain) (address : String) : ℚ := balanceOf bc.balances address

def getBestHeight (bc : Blockchain) : UInt64 :=
  let h := bc.store.getBestHeight
  if h < 0 then 0 else UInt64.ofNat h.toNat

def getBlockCount (bc : Blockchain) : UInt64 := bc.store.getBlockCount

def getBlocks (bc : Blockchain) (startHeight : UInt64) : List Block :=
  bc.store.getBlocksFrom startHeight

/-- The loop `for i < halvings { reward /= 2 }`. -/
def halve : Nat → ℚ → ℚ
  | 0, reward => reward
  | k + 1, reward => halve k (reward / 2)

/-- `CalcBlockReward`: the initial reward halved once per `HalvingInterval` blocks, zero
below dust or once the supply is minted, and at most what remains of it. -/
def calcBlockReward (bc : Blockchain) (height : UInt64) : Except Panic ℚ :=
  if bc.totalMinted ≥ bc.config.maxSupply then .ok 0
  else if bc.config.halvingInterval = 0 then .error ⟨"runtime error: integer divide by zero"⟩
  else
    let reward := halve (height / bc.config.halvingInterval).toNat bc.config.initialReward
    if reward < dust then .ok 0
    else
      let remaining := bc.config.maxSupply - bc.totalMinted
      .ok (if reward > remaining then remaining else reward)

end Blockchain

inductive MempoolError where
  | insufficientBalance (held need : ℚ)
  | insufficientAvailable
  | minimumStake (minimum : ℚ) (ticker : String)
  | posThreshold (minimum : ℚ) (ticker : String)
  deriving DecidableEq

def MempoolError.message : MempoolError → String
  | .insufficientBalance held need =>
    "insufficient balance: have " ++ formatFixed 8 held ++ ", need " ++ formatFixed 8 need
  | .insufficientAvailable => "insufficient available balance for staking"
  | .minimumStake minimum ticker => "minimum stake is " ++ formatFixed 2 minimum ++ " " ++ ticker
  | .posThreshold minimum ticker =>
    "total stake must be at least " ++ formatFixed 2 minimum ++ " " ++ ticker ++ " to participate in PoS"

namespace Blockchain

/-- `AddToMempool`: a transfer needs the sender's balance to cover amount and fee; a stake
needs the unstaked balance, the minimum stake and the PoS threshold; any other kind is
appended as it is. -/
def addToMempool (bc : Blockchain) (tx : Transaction) : Except MempoolError Blockchain :=
  if tx.type = "transfer" ∧ bc.getBalance tx.from < tx.amount + tx.fee then
    .error (.insufficientBalance (bc.getBalance tx.from) (tx.amount + tx.fee))
  else if tx.type = "stake" ∧ bc.getBalance tx.from - bc.stakes.getStake tx.from < tx.amount then
    .error .insufficientAvailable
  else if tx.type = "stake" ∧ tx.amount < bc.config.minStakeAmount then
    .error (.minimumStake bc.config.minStakeAmount bc.config.ticker)
  else if tx.type = "stake" ∧ bc.stakes.getStake tx.from + tx.amount < bc.config.posMinThreshold then
    .error (.posThreshold bc.config.posMinThreshold bc.config.ticker)
  else .ok { bc with mempool := bc.mempool ++ [tx] }

end Blockchain

/-- `CreateGenesisBlock`: a zero coinbase to "genesis" under the minimum difficulty, at
the configured time (the clock when it does not parse). -/
def createGenesisBlock (cfg : NetworkConfig) (now : BitVec 64) : Block :=
  let ts := cfg.genesisTimestamp.getD now
  let coinbase₀ : Transaction :=
    { txID := "", type := "coinbase", «from» := "", «to» := "genesis", amount := 0, fee := 0,
      timestamp := ts, signature := "", outputs := [⟨"genesis", 0⟩] }
  let coinbase := { coinbase₀ with txID := coinbase₀.computeTxID }
  let header : BlockHeader :=
    { version := 1, prevHash := zeroHash, merkleRoot := computeMerkleRoot [coinbase],
      timestamp := ts, bits := cfg.minDifficultyBits, nonce := 0, height := 0 }
  { header, transactions := [coinbase], hash := header.computeHash }

/-- The decoded legacy `blockchain.json` (`oldChainData`); a map missing from the file
(JSON null) is `none`. `json.Unmarshal` fails on a number no `float64` holds, and the
migration then does not start, so every amount of a decoded file is finite. -/
structure LegacyChain where
  blocks : List Block
  balances : Option (Bucket String ℚ)
  stakes : Option (Bucket String Stake)
  totalMinted : ℚ
  balances_finite : ∀ bs ∈ balances, ∀ a v, bs.lookup a = some v → Finite64 v
  stakes_finite : ∀ ss ∈ stakes, ∀ a s, ss.lookup a = some s → Finite64 s.amount
  totalMinted_finite : Finite64 totalMinted

/-- The commit `migrateFromJSON` makes for one legacy block; only the last carries the
balances, stakes and minted total. -/
def LegacyChain.commitFor (data : LegacyChain) (block : Block) (last : Bool) : BlockCommit :=
  { height := block.header.height, hash := block.hash, block, txIDs := collectTxIDs block,
    balances := if last then data.balances.getD ∅ else ∅
    stakes := if last then ((data.stakes.getD ∅).entries.map fun e =>
        (⟨e.1, stakeJSON e.2⟩ : Sigma fun _ : String => Option Stake)).toAList
      else ∅
    totalMinted := if last then data.totalMinted else 0 }

/-- The per-block commits of `migrateFromJSON`, from the `i`-th on, each in its own write
transaction: the store after those that succeeded, and whether all did. -/
def migrateCommits (disk : Nat → Disk) (data : LegacyChain) : Nat → List Block → Store → Store × Bool
  | _, [], s => (s, true)
  | i, b :: rest, s =>
    match s.commitBlock (disk i) (data.commitFor b (rest = [])) with
    | .error _ => (s, false)
    | .ok s' => migrateCommits disk data (i + 1) rest s'

def genesisCommit (genesis : Block) : BlockCommit :=
  { height := 0, hash := genesis.hash, block := genesis, balances := ∅, stakes := ∅,
    txIDs := collectTxIDs genesis, totalMinted := 0 }

namespace Blockchain

/-- The state `NewBlockchain` starts from: empty maps, an empty mempool and no tip. -/
def fresh (cfg : NetworkConfig) (store : Store) : Blockchain :=
  ⟨cfg, store, ∅, StakeManager.empty, [], 0, none⟩

/-- The load path of `NewBlockchain`: balances, minted total, stakes and the tip read back
from a store that has data. -/
def load (cfg : NetworkConfig) (store : Store) : Blockchain :=
  { fresh cfg store with
    balances := store.balances, totalMinted := store.getTotalMinted, stakes := ⟨store.stakes⟩,
    lastBlock := store.getBlockByHeight (UInt64.ofNat store.getBestHeight.toNat) }

end Blockchain

/-- `migrateFromJSON` on a store without data: the migrated state when a legacy file
decodes with blocks and every commit succeeds (`.inl`), and otherwise the store, with
the commits that did succeed, to bootstrap a genesis block on (`.inr`). -/
def migrateFromJSON (cfg : NetworkConfig) (store : Store) (legacy : Option LegacyChain)
    (disk : Nat → Disk) : Blockchain ⊕ Store :=
  match legacy with
  | some data =>
    match data.blocks.getLast? with
    | some tip =>
      let (store', ok) := migrateCommits disk data 0 data.blocks store
      if ok then
        .inl { Blockchain.fresh cfg store' with
          balances := data.balances.getD ∅, stakes := ⟨data.stakes.getD ∅⟩,
          totalMinted := data.totalMinted, lastBlock := some tip }
      else .inr store'
    | none => .inr store
  | none => .inr store

/-- The genesis path of `NewBlockchain`: commit the genesis block, or end the process
(`none`) when that commit fails. -/
def bootstrapGenesis (cfg : NetworkConfig) (store : Store) (genesis : Block) (disk : Disk) :
    Option Blockchain :=
  match store.commitBlock disk (genesisCommit genesis) with
  | .error _ => none
  | .ok store' => some { Blockchain.fresh cfg store' with lastBlock := some genesis }

/-- `NewBlockchain` on an opened store: load it when it has data; otherwise migrate the
legacy file, or commit a genesis block when there is nothing to migrate. -/
def newBlockchain (cfg : NetworkConfig) (store : Store) (legacy : Option LegacyChain)
    (now : BitVec 64) (migrationDisk : Nat → Disk) (genesisDisk : Disk) : Option Blockchain :=
  if store.hasData then some (Blockchain.load cfg store)
  else
    match migrateFromJSON cfg store legacy migrationDisk with
    | .inl bc => some bc
    | .inr store' => bootstrapGenesis cfg store' (createGenesisBlock cfg now) genesisDisk

end DevInsiderCoin
