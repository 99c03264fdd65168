import Mathlib.Algebra.Order.Field.Rat
import DevInsiderCoin.Chain.AddBlock

/-! Runs of a node from a fresh data directory: the genesis bootstrap of `NewBlockchain`,
then `AddToMempool` and `AddBlock` calls in any order. A run either takes any block
(`Reachable`), or only solved templates of the state it is in (`HonestRun`).
-/

set_option autoImplicit false

namespace DevInsiderCoin

namespace Blockchain

/-! ## Mempool admission -/

/-- The checks of `AddToMempool`; a transaction of any other kind passes them. -/
structure Admissible (bc : Blockchain) (tx : Transaction) : Prop where
  transfer : tx.type = "transfer" → tx.amount + tx.fee ≤ bc.getBalance tx.from
  available : tx.type = "stake" → tx.amount ≤ bc.getBalance tx.from - bc.stakes.getStake tx.from
  minimum : tx.type = "stake" → bc.config.minStakeAmount ≤ tx.amount
  threshold : tx.type = "stake" → bc.config.posMinThreshold ≤ bc.stakes.getStake tx.from + tx.amount

theorem addToMempool_eq_ok {bc bc' : Blockchain} {tx : Transaction} :
    bc.addToMempool tx = .ok bc' ↔ bc.Admissible tx ∧ bc' = { bc with mempool := bc.mempool ++ [tx] } := by
  unfold addToMempool
  split_ifs with h₁ h₂ h₃ h₄
  · exact iff_of_false (by simp) fun ⟨h, _⟩ => absurd (h.transfer h₁.1) h₁.2.not_le
  · exact iff_of_false (by simp) fun ⟨h, _⟩ => absurd (h.available h₂.1) h₂.2.not_le
  · exact iff_of_false (by simp) fun ⟨h, _⟩ => absurd (h.minimum h₃.1) h₃.2.not_le
  · exact iff_of_false (by simp) fun ⟨h, _⟩ => absurd (h.threshold h₄.1) h₄.2.not_le
  · simp only [not_and, not_lt] at h₁ h₂ h₃ h₄
    simp only [Except.ok.injEq, eq_comm, iff_and_self]
    exact fun _ => ⟨h₁, h₂, h₃, h₄⟩

/-- `AddToMempool` as a step of a run: a rejected transaction leaves the state as it was. -/
def submit (bc : Blockchain) (tx : Transaction) : Blockchain :=
  match bc.addToMempool tx with
  | .ok bc' => bc'
  | .error _ => bc

theorem submit_cases (bc : Blockchain) (tx : Transaction) :
    (bc.Admissible tx ∧ bc.submit tx = { bc with mempool := bc.mempool ++ [tx] }) ∨
    (¬ bc.Admissible tx ∧ bc.submit tx = bc) := by
  unfold submit
  cases h : bc.addToMempool tx with
  | ok bc' => exact .inl ((addToMempool_eq_ok.1 h).imp_right id)
  | error e => exact .inr ⟨fun hadm => by simp [addToMempool_eq_ok.2 ⟨hadm, rfl⟩] at h, rfl⟩

theorem submit_eq_with_mempool (bc : Blockchain) (tx : Transaction) :
    bc.submit tx = { bc with mempool := (bc.submit tx).mempool } := by
  rcases submit_cases bc tx with ⟨-, h⟩ | ⟨-, h⟩ <;> rw [h]

@[simp] theorem submit_store (bc : Blockchain) (tx : Transaction) : (bc.submit tx).store = bc.store := by
  rw [submit_eq_with_mempool]

@[simp] theorem submit_lastBlock (bc : Blockchain) (tx : Transaction) :
    (bc.submit tx).lastBlock = bc.lastBlock := by
  rw [submit_eq_with_mempool]

@[simp] theorem submit_config (bc : Blockchain) (tx : Transaction) : (bc.submit tx).config = bc.config := by
  rw [submit_eq_with_mempool]

@[simp] theorem submit_balances (bc : Blockchain) (tx : Transaction) :
    (bc.submit tx).balances = bc.balances := by
  rw [submit_eq_with_mempool]

@[simp] theorem submit_stakes (bc : Blockchain) (tx : Transaction) : (bc.submit tx).stakes = bc.stakes := by
  rw [submit_eq_with_mempool]

@[simp] theorem submit_totalMinted (bc : Blockchain) (tx : Transaction) :
    (bc.submit tx).totalMinted = bc.totalMinted := by
  rw [submit_eq_with_mempool]

end Blockchain

/-! ## The genesis bootstrap -/

/-- The state `NewBlockchain` returns on a fresh data directory: the genesis block
committed and nothing else. -/
def genesisState (cfg : NetworkConfig) (now : BitVec 64) : Blockchain :=
  { Blockchain.fresh cfg (Store.empty.applyCommit (genesisCommit (createGenesisBlock cfg now))) with
    lastBlock := some (createGenesisBlock cfg now) }

theorem getBlockCount_genesisState (cfg : NetworkConfig) (now : BitVec 64) :
    (genesisState cfg now).store.getBlockCount = 1 := by
  rw [Store.getBlockCount_of rfl]
  rfl

theorem totalMinted_genesisState (cfg : NetworkConfig) (now : BitVec 64) :
    (genesisState cfg now).totalMinted = 0 := rfl

theorem getBlockByHeight_genesisState_of_ne (cfg : NetworkConfig) (now : BitVec 64) {k : UInt64} (hk : k ≠ 0) :
    (genesisState cfg now).store.getBlockByHeight k = none := by
  rw [show (genesisState cfg now).store = Store.empty.applyCommit (genesisCommit (createGenesisBlock cfg now))
    from rfl, Store.getBlockByHeight_applyCommit, if_neg (show k ≠ (genesisCommit _).height from hk)]
  rfl

theorem keysValid_genesisCommit (cfg : NetworkConfig) (now : BitVec 64) :
    Store.KeysValid (genesisCommit (createGenesisBlock cfg now)) where
  hash := Store.checkKey_computeHash _
  balances := by simp [genesisCommit]
  stakes := by simp [genesisCommit]
  txIDs := by simp [genesisCommit, collectTxIDs, createGenesisBlock, Store.checkKey_computeTxID]

theorem bootstrapGenesis_eq_some {cfg : NetworkConfig} {store : Store} {genesis : Block}
    {disk : Disk} {bc : Blockchain} :
    bootstrapGenesis cfg store genesis disk = some bc ↔
      ∃ store', store.commitBlock disk (genesisCommit genesis) = .ok store' ∧
        bc = { Blockchain.fresh cfg store' with lastBlock := some genesis } := by
  unfold bootstrapGenesis
  cases store.commitBlock disk (genesisCommit genesis) <;> simp [eq_comm]

theorem newBlockchain_empty {cfg : NetworkConfig} {now : BitVec 64} {migrationDisk : Nat → Disk}
    {genesisDisk : Disk} {bc : Blockchain} :
    newBlockchain cfg Store.empty none now migrationDisk genesisDisk = some bc ↔
      genesisDisk = .ok ∧ bc = genesisState cfg now := by
  have hmigrate : migrateFromJSON cfg Store.empty none migrationDisk = .inr Store.empty := rfl
  rw [newBlockchain, if_neg (by decide), hmigrate]
  dsimp only
  rw [bootstrapGenesis_eq_some]
  constructor
  · rintro ⟨store', hc, rfl⟩
    obtain ⟨rfl, rfl⟩ := Store.commitBlock_ok hc
    exact ⟨rfl, rfl⟩
  · rintro ⟨rfl, rfl⟩
    exact ⟨_, Store.commitBlock_of_keysValid _ (keysValid_genesisCommit cfg now), rfl⟩

/-! ## Runs -/

/-- The states a node reaches from a fresh data directory: the genesis bootstrap, then
`AddToMempool` with any transaction and `AddBlock` with any block, whatever the disk does
with each commit. -/
inductive Reachable (cfg : NetworkConfig) : Blockchain → Prop
  | genesis {bc : Blockchain} (now : BitVec 64) (migrationDisk : Nat → Disk) (genesisDisk : Disk) :
      newBlockchain cfg Store.empty none now migrationDisk genesisDisk = some bc → Reachable cfg bc
  | submit {bc : Blockchain} (tx : Transaction) : Reachable cfg bc → Reachable cfg (bc.submit tx)
  | addBlock {bc : Blockchain} (block : Block) (disk : Disk) :
      Reachable cfg bc → Reachable cfg (bc.addBlock block disk).2

/-- Honest runs: every block is a template that `CreateBlockTemplate` returned in the
state the block is added to, with some nonce. `submits` says which transactions are handed
to `AddToMempool` in a state, and `commits` which `AddBlock` calls happen, with the
block and what the disk does. -/
inductive HonestRun (cfg : NetworkConfig) (submits : Blockchain → Transaction → Prop)
    (commits : Blockchain → Block → Disk → Prop) : Blockchain → Prop
  | genesis {bc : Blockchain} (now : BitVec 64) (migrationDisk : Nat → Disk) (genesisDisk : Disk) :
      newBlockchain cfg Store.empty none now migrationDisk genesisDisk = some bc →
      HonestRun cfg submits commits bc
  | submit {bc : Blockchain} (tx : Transaction) : submits bc tx →
      HonestRun cfg submits commits bc → HonestRun cfg submits commits (bc.submit tx)
  | mine {bc : Blockchain} (minerAddress : String) (clock : TemplateClock) (template : Block)
      (nonce : UInt64) (disk : Disk) : bc.createBlockTemplate minerAddress clock = .ok template →
      commits bc (template.withNonce nonce) disk →
      HonestRun cfg submits commits bc →
      HonestRun cfg submits commits (bc.addBlock (template.withNonce nonce) disk).2

def HonestReachable (cfg : NetworkConfig) : Blockchain → Prop :=
  HonestRun cfg (fun _ _ => True) (fun _ _ _ => True)

theorem HonestRun.reachable {cfg : NetworkConfig} {submits : Blockchain → Transaction → Prop}
    {commits : Blockchain → Block → Disk → Prop} {bc : Blockchain}
    (h : HonestRun cfg submits commits bc) : Reachable cfg bc := by
  induction h with
  | genesis now dm d hnew => exact .genesis now dm d hnew
  | submit tx _ _ ih => exact .submit tx ih
  | mine _ _ _ _ disk _ _ _ ih => exact .addBlock _ disk ih

end DevInsiderCoin
