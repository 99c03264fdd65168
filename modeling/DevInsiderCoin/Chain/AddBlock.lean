import DevInsiderCoin.Chain.Template

/-! Block validation and application (`validateBlock`, `AddBlock`).

`AddBlock` applies the transactions to the in-memory state before it commits, and
returns on a failed commit without undoing them; the model keeps that order.
-/

set_option autoImplicit false

namespace DevInsiderCoin

inductive ValidationError where
  | badHeight (expected got : UInt64)
  | badPrevHash
  | badHash (computed got : String)
  | insufficientProofOfWork
  | tooManyTransactions (count : Nat) (max : UInt64)
  | blockTooLarge (size : Nat) (max : UInt64)
  | belowFloor (height : UInt64)
  deriving DecidableEq

def ValidationError.message : ValidationError → String
  | .badHeight expected got => "bad height: expected " ++ toString expected ++ ", got " ++ toString got
  | .badPrevHash => "bad prev hash"
  | .badHash computed got => "bad hash: computed " ++ computed ++ ", got " ++ got
  | .insufficientProofOfWork => "insufficient proof of work"
  | .tooManyTransactions count max => "too many transactions: " ++ toString count ++ " > " ++ toString max
  | .blockTooLarge size max => "block too large: " ++ toString size ++ " bytes > " ++ toString max
  | .belowFloor height => "difficulty below progressive floor at height " ++ toString height

inductive AddBlockError where
  | validation (e : ValidationError)
  | commit (e : StoreError)
  deriving DecidableEq

def AddBlockError.message : AddBlockError → String
  | .validation e => "validation failed: " ++ e.message
  | .commit e => "db commit failed: " ++ e.message

def ensure (ok : Prop) [Decidable ok] (err : ValidationError) : Except ValidationError Unit :=
  if ok then .ok () else .error err

theorem ensure_bind_eq_ok {ok : Prop} [Decidable ok] {err : ValidationError}
    {k : Unit → Except ValidationError Unit} : (ensure ok err >>= k) = .ok () ↔ ok ∧ k () = .ok () := by
  unfold ensure
  split <;> simp_all [bind, Except.bind]

theorem ensure_eq_ok {ok : Prop} [Decidable ok] {err : ValidationError} :
    ensure ok err = .ok () ↔ ok := by
  unfold ensure
  split <;> simp_all

namespace Blockchain

/-- `validateBlock`: height, link to the tip, header hash, proof of work, transaction
count, serialized size and progressive floor, in that order. -/
def validateBlock (bc : Blockchain) (block : Block) : Except ValidationError Unit := do
  let expectedHeight := bc.store.getBlockCount
  ensure (block.header.height = expectedHeight) (.badHeight expectedHeight block.header.height)
  ensure (0 < expectedHeight → bc.lastBlock.all (block.header.prevHash == ·.hash)) .badPrevHash
  let computed := block.header.computeHash
  ensure (block.hash = computed) (.badHash computed block.hash)
  ensure (checkProofOfWork block.hash block.header.bits) .insufficientProofOfWork
  ensure (UInt64.ofNat block.transactions.length ≤ bc.config.maxBlockTransactions)
    (.tooManyTransactions block.transactions.length bc.config.maxBlockTransactions)
  let size := block.marshal.utf8ByteSize
  ensure (UInt64.ofNat size ≤ bc.config.maxBlockSize) (.blockTooLarge size bc.config.maxBlockSize)
  let floorBits := progressiveDifficultyFloor block.header.height bc.config.difficultyEpochBlocks
    bc.config.minDifficultyBits
  ensure (bitsToTarget block.header.bits ≤ bitsToTarget floorBits) (.belowFloor block.header.height)

/-- The seven checks of `validateBlock`. -/
structure Valid (bc : Blockchain) (block : Block) : Prop where
  height : block.header.height = bc.store.getBlockCount
  prevHash : 0 < bc.store.getBlockCount → bc.lastBlock.all (block.header.prevHash == ·.hash)
  hash : block.hash = block.header.computeHash
  pow : checkProofOfWork block.hash block.header.bits
  count : UInt64.ofNat block.transactions.length ≤ bc.config.maxBlockTransactions
  size : UInt64.ofNat block.marshal.utf8ByteSize ≤ bc.config.maxBlockSize
  floor : bitsToTarget block.header.bits ≤
    bitsToTarget (progressiveDifficultyFloor block.header.height bc.config.difficultyEpochBlocks
      bc.config.minDifficultyBits)

theorem validateBlock_eq_ok {bc : Blockchain} {block : Block} :
    bc.validateBlock block = .ok () ↔ bc.Valid block := by
  simp only [validateBlock, ensure_bind_eq_ok, ensure_eq_ok]
  exact ⟨fun ⟨a, b, c, d, e, f, g⟩ => ⟨a, b, c, d, e, f, g⟩,
    fun ⟨a, b, c, d, e, f, g⟩ => ⟨a, b, c, d, e, f, g⟩⟩

end Blockchain

/-- `bc.Stakes.RemoveStake(from, amount)` in `AddBlock`, whose error is dropped: the stakes
it leaves, or the stakes as they were when it fails. -/
def StakeManager.removeStakeUnchecked (sm : StakeManager) (address : String) (amount : ℚ) : StakeManager :=
  match sm.removeStake address amount with
  | .ok sm' => sm'
  | .error _ => sm

/-- The state `AddBlock` threads through a block's transactions: balances and stakes as
mutated so far, the delta it will commit, and the amount minted. -/
structure Application where
  balances : Bucket String ℚ
  stakes : StakeManager
  changedBalances : Bucket String ℚ
  changedStakes : Bucket String (Option Stake)
  blockMinted : ℚ

namespace Application

/-- `Balances[address] = value` followed by `changedBalances[address] = Balances[address]`. -/
def setBalance (app : Application) (address : String) (value : ℚ) : Application :=
  { app with
    balances := app.balances.insert address value
    changedBalances := app.changedBalances.insert address value }

/-- `Balances[address] += amount`, recorded in the delta. -/
def credit (app : Application) (address : String) (amount : ℚ) : Application :=
  app.setBalance address (balanceOf app.balances address + amount)

/-- `Balances[address] -= amount`, recorded in the delta. -/
def debit (app : Application) (address : String) (amount : ℚ) : Application :=
  app.setBalance address (balanceOf app.balances address - amount)

/-- The JSON of the stake now held for `address` recorded in the delta (`nil`, a delete,
when there is none or `json.Marshal` refuses it). -/
def recordStake (app : Application) (address : String) : Application :=
  { app with changedStakes := app.changedStakes.insert address ((app.stakes.stakes.lookup address).bind stakeJSON) }

/-- One output of a coinbase or `pos_reward` transaction: credited and counted as minted. -/
def mint (app : Application) (out : TxOutput) : Application :=
  { app.credit out.address out.amount with blockMinted := app.blockMinted + out.amount }

/-- One transaction of `AddBlock`'s loop. An unstake credits its amount even when
`RemoveStake` fails: the error is dropped. -/
def applyTransaction (height : UInt64) (app : Application) (tx : Transaction) : Application :=
  if tx.type = "coinbase" ∨ tx.type = "pos_reward" then tx.outputs.foldl mint app
  else if tx.type = "transfer" then (app.debit tx.from (tx.amount + tx.fee)).credit tx.to tx.amount
  else if tx.type = "stake" then
    { app.debit tx.from tx.amount with stakes := app.stakes.addStake tx.from tx.amount height }.recordStake tx.from
  else if tx.type = "unstake" then
    ({ app with stakes := app.stakes.removeStakeUnchecked tx.from tx.amount }.credit tx.from
      tx.amount).recordStake tx.from
  else app

end Application

namespace Blockchain

def applyBlock (bc : Blockchain) (block : Block) : Application :=
  block.transactions.foldl (Application.applyTransaction block.header.height)
    ⟨bc.balances, bc.stakes, ∅, ∅, 0⟩

def applied (bc : Blockchain) (block : Block) : Blockchain :=
  { bc with
    balances := (bc.applyBlock block).balances, stakes := (bc.applyBlock block).stakes,
    totalMinted := bc.totalMinted + (bc.applyBlock block).blockMinted }

def commitOf (bc : Blockchain) (block : Block) : BlockCommit :=
  { height := block.header.height, hash := block.hash, block,
    balances := (bc.applyBlock block).changedBalances, stakes := (bc.applyBlock block).changedStakes,
    txIDs := collectTxIDs block, totalMinted := (bc.applied block).totalMinted }

/-- `AddBlock`, with what the disk does with its commit: the result and the state after
the call. A validation failure changes nothing; a failed commit leaves the applied
balances, stakes and minted total in place. -/
def addBlock (bc : Blockchain) (block : Block) (disk : Disk) : Except AddBlockError Unit × Blockchain :=
  match bc.validateBlock block with
  | .error e => (.error (.validation e), bc)
  | .ok () =>
    match bc.store.commitBlock disk (bc.commitOf block) with
    | .error e => (.error (.commit e), bc.applied block)
    | .ok store =>
      (.ok (),
        { bc.applied block with
          store, mempool := bc.mempool.filter (fun tx => tx.txID ∉ collectTxIDs block),
          lastBlock := some block })

@[simp] theorem applied_store (bc : Blockchain) (block : Block) :
    (bc.applied block).store = bc.store := rfl

@[simp] theorem applied_mempool (bc : Blockchain) (block : Block) :
    (bc.applied block).mempool = bc.mempool := rfl

@[simp] theorem applied_config (bc : Blockchain) (block : Block) :
    (bc.applied block).config = bc.config := rfl

@[simp] theorem applied_balances (bc : Blockchain) (block : Block) :
    (bc.applied block).balances = (bc.applyBlock block).balances := rfl

@[simp] theorem applied_stakes (bc : Blockchain) (block : Block) :
    (bc.applied block).stakes = (bc.applyBlock block).stakes := rfl

@[simp] theorem applied_totalMinted (bc : Blockchain) (block : Block) :
    (bc.applied block).totalMinted = bc.totalMinted + (bc.applyBlock block).blockMinted := rfl

def committed (bc : Blockchain) (block : Block) : Blockchain :=
  { bc.applied block with
    store := bc.store.applyCommit (bc.commitOf block),
    mempool := bc.mempool.filter (fun tx => tx.txID ∉ collectTxIDs block),
    lastBlock := some block }

@[simp] theorem committed_store (bc : Blockchain) (block : Block) :
    (bc.committed block).store = bc.store.applyCommit (bc.commitOf block) := rfl

@[simp] theorem committed_lastBlock (bc : Blockchain) (block : Block) :
    (bc.committed block).lastBlock = some block := rfl

@[simp] theorem committed_config (bc : Blockchain) (block : Block) :
    (bc.committed block).config = bc.config := rfl

@[simp] theorem committed_balances (bc : Blockchain) (block : Block) :
    (bc.committed block).balances = (bc.applyBlock block).balances := rfl

@[simp] theorem committed_stakes (bc : Blockchain) (block : Block) :
    (bc.committed block).stakes = (bc.applyBlock block).stakes := rfl

@[simp] theorem committed_totalMinted (bc : Blockchain) (block : Block) :
    (bc.committed block).totalMinted = bc.totalMinted + (bc.applyBlock block).blockMinted := rfl

@[simp] theorem committed_mempool (bc : Blockchain) (block : Block) :
    (bc.committed block).mempool = bc.mempool.filter (fun tx => tx.txID ∉ collectTxIDs block) := rfl

theorem getBlockCount_committed (bc : Blockchain) {block : Block} (h : block.header.height.toNat < 2 ^ 63) :
    (bc.committed block).store.getBlockCount = block.header.height + 1 := by
  rw [Store.getBlockCount_of rfl]
  exact if_pos h

/-- What one `AddBlock` call does to the state: nothing when the block is invalid; the
applied delta alone when the commit fails; the delta, the commit, the mempool filter and
the new tip when it succeeds. -/
theorem addBlock_cases (bc : Blockchain) (block : Block) (disk : Disk) :
    (¬ bc.Valid block ∧ (bc.addBlock block disk).2 = bc ∧ (bc.addBlock block disk).1 ≠ .ok ()) ∨
    (bc.Valid block ∧ (bc.addBlock block disk).2 = bc.applied block ∧ (bc.addBlock block disk).1 ≠ .ok ()) ∨
    (bc.Valid block ∧ disk = .ok ∧ (bc.addBlock block disk).1 = .ok () ∧
      (bc.addBlock block disk).2 = bc.committed block) := by
  unfold addBlock
  cases hv : bc.validateBlock block with
  | error e => exact .inl ⟨fun h => by simp [validateBlock_eq_ok.2 h] at hv, rfl, by simp⟩
  | ok u =>
    have hvalid := validateBlock_eq_ok.1 hv
    cases hc : bc.store.commitBlock disk (bc.commitOf block) with
    | error e => exact .inr (.inl ⟨hvalid, rfl, by simp⟩)
    | ok store =>
      obtain ⟨hdisk, rfl⟩ := Store.commitBlock_ok hc
      exact .inr (.inr ⟨hvalid, hdisk, rfl, rfl⟩)

theorem valid_of_addBlock_ok {bc : Blockchain} {block : Block} {disk : Disk}
    (h : (bc.addBlock block disk).1 = .ok ()) : bc.Valid block := by
  rcases addBlock_cases bc block disk with ⟨-, -, hne⟩ | ⟨hv, -⟩ | ⟨hv, -⟩
  · exact absurd h hne
  · exact hv
  · exact hv

theorem commitBlock_of_addBlock_ok {bc : Blockchain} {block : Block} {disk : Disk}
    (h : (bc.addBlock block disk).1 = .ok ()) : ∃ store, bc.store.commitBlock disk (bc.commitOf block) = .ok store := by
  unfold addBlock at h
  split at h
  · exact Except.noConfusion h
  · split at h
    · exact Except.noConfusion h
    · exact ⟨_, ‹_›⟩

theorem addBlock_of_commit_ok {bc : Blockchain} {block : Block} {disk : Disk} {store : Store}
    (hv : bc.Valid block) (hc : bc.store.commitBlock disk (bc.commitOf block) = .ok store) :
    bc.addBlock block disk = (.ok (), bc.committed block) := by
  obtain ⟨-, rfl⟩ := Store.commitBlock_ok hc
  unfold addBlock
  rw [validateBlock_eq_ok.2 hv, hc]
  rfl

theorem addBlock_of_commit_error {bc : Blockchain} {block : Block} {disk : Disk} {e : StoreError}
    (hv : bc.Valid block) (hc : bc.store.commitBlock disk (bc.commitOf block) = .error e) :
    bc.addBlock block disk = (.error (.commit e), bc.applied block) := by
  unfold addBlock
  rw [validateBlock_eq_ok.2 hv, hc]

end Blockchain

end DevInsiderCoin
