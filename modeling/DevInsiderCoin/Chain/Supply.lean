import DevInsiderCoin.Chain.HashIndex

/-! The minted total against the blocks that minted it. `AddBlock` adds what a block mints
(the outputs of its coinbase and `pos_reward` transactions) to `TotalMinted` in memory,
and commits that total with the block. While every commit succeeds and the best height
stays below `2 ^ 63`, each block lands on a height key of its own, so the total in memory,
the `total_minted` of the meta bucket and the sum over the blocks bucket stay equal.

Two histories break the equation. A commit the disk fails leaves the block's mint in
memory with no block stored. A migration copies `total_minted` from the legacy file
instead of summing the legacy blocks, and the legacy `saveToDisk` writes no
`total_minted`, which decodes as 0.
-/

set_option autoImplicit false

namespace DevInsiderCoin

def Block.minted (block : Block) : ℚ := (block.transactions.map Transaction.minted).sum

def Store.blocksMinted (s : Store) : ℚ := (s.blocks.entries.map fun e => e.2.minted).sum

theorem Store.blocksMinted_applyCommit (s : Store) {c : BlockCommit} (hfresh : heightKey c.height ∉ s.blocks) :
    (s.applyCommit c).blocksMinted = s.blocksMinted + c.block.minted := by
  show ((s.blocks.insert _ c.block).entries.map fun e => e.2.minted).sum = _
  rw [AList.insert_entries_of_neg hfresh, List.map_cons, List.sum_cons, add_comm]
  rfl

namespace Blockchain

theorem blocksMinted_genesisState (cfg : NetworkConfig) (now : BitVec 64) :
    (genesisState cfg now).store.blocksMinted = 0 := by
  simp [Store.blocksMinted, genesisState, Blockchain.fresh, Store.applyCommit, Store.empty, genesisCommit,
    createGenesisBlock, Block.minted, Transaction.minted, AList.insert_entries]

theorem committedRun_blocksMinted {cfg : NetworkConfig} {n : Nat} {bc : Blockchain} (h : CommittedRun cfg n bc)
    (hn : n < 2 ^ 63) : bc.HashIndexSound ∧ bc.totalMinted = bc.store.blocksMinted := by
  induction h with
  | genesis now _ _ hnew =>
    obtain ⟨-, rfl⟩ := newBlockchain_empty.1 hnew
    exact ⟨hashIndexSound_genesisState cfg now, (blocksMinted_genesisState cfg now).symm⟩
  | submit tx _ ih =>
    obtain ⟨hs, hsum⟩ := ih hn
    exact ⟨hs.of_store_eq (submit_store _ tx), by rw [submit_totalMinted, submit_store, hsum]⟩
  | @reject n bc block disk hinv _ ih =>
    rcases addBlock_cases bc block disk with ⟨-, hs, -⟩ | ⟨hv, -⟩ | ⟨hv, -⟩
    · rw [hs]
      exact ih hn
    · exact absurd hv hinv
    · exact absurd hv hinv
  | @commit n bc block disk hok hrun ih =>
    rcases addBlock_cases bc block disk with ⟨-, -, hne⟩ | ⟨-, -, hne⟩ | ⟨hv, -, -, hs⟩
    · exact absurd hok hne
    · exact absurd hok hne
    · obtain ⟨hidx, hsum⟩ := ih (by omega)
      have hheight : block.header.height = UInt64.ofNat (n + 1) :=
        hv.height.trans ((committedRun_persisted hrun (by omega)).getBlockCount (by omega))
      obtain ⟨-, -, -, -, hfresh⟩ := hidx.fresh hv
      rw [hs]
      refine ⟨hidx.committed_of_lt hv (by rw [hheight, UInt64.toNat_ofNat']; omega), ?_⟩
      have hstore := @Store.blocksMinted_applyCommit bc.store (bc.commitOf block) hfresh
      rw [committed_totalMinted, committed_store, hstore, hsum, blockMinted_applyBlock]
      rfl

/-- `TotalMinted` is what the stored blocks mint. -/
theorem committedRun_totalMinted {cfg : NetworkConfig} {n : Nat} {bc : Blockchain} (h : CommittedRun cfg n bc)
    (hn : n < 2 ^ 63) :
    bc.totalMinted = bc.store.blocksMinted ∧
      bc.store.getTotalMinted = bytesToFloat (floatToBytes bc.store.blocksMinted) := by
  have hsum := (committedRun_blocksMinted h hn).2
  exact ⟨hsum, (committedRun_persisted h hn.le).totalMinted.trans (congrArg (fun v => bytesToFloat (floatToBytes v)) hsum)⟩

theorem committedRun_totalMinted_spendsBlock :
    CommittedRun NetworkConfig.permissive 2 ((twoSpends "t1" "t2").committed (spendsBlock "t1" "t2")) ∧
      ((twoSpends "t1" "t2").committed (spendsBlock "t1" "t2")).totalMinted =
        ((twoSpends "t1" "t2").committed (spendsBlock "t1" "t2")).store.blocksMinted ∧
      ((twoSpends "t1" "t2").committed (spendsBlock "t1" "t2")).store.getTotalMinted =
        bytesToFloat (floatToBytes ((twoSpends "t1" "t2").committed (spendsBlock "t1" "t2")).store.blocksMinted) :=
  ⟨committedRun_spendsBlock, committedRun_totalMinted committedRun_spendsBlock (by decide)⟩

end Blockchain

theorem minted_legacyBlock (height : UInt64) (hash txID : String) : (legacyBlock height hash txID).minted = 50 := by
  simp [Block.minted, legacyBlock, Transaction.minted]

theorem totalMinted_off_blocks :
    (∃ bc, newBlockchain NetworkConfig.permissive Store.empty (some legacyChain) 0 (fun _ => .ok) .ok = some bc ∧
      bc.totalMinted = 0 ∧ bc.store.getTotalMinted = 0 ∧ bc.store.blocksMinted = 150) ∧
    ((genesisState NetworkConfig.permissive 0).addBlock Blockchain.forgedBlock .fault).2.totalMinted = 1000000000 ∧
      ((genesisState NetworkConfig.permissive 0).addBlock Blockchain.forgedBlock .fault).2.store.blocksMinted = 0 := by
  have hblocks : legacyChain.blocks = [legacyBlock 0 "legacy-0" "cb-0", legacyBlock 1 "legacy-1" "cb-1"] ++
      [legacyBlock 2 "legacy-2" "cb-2"] := rfl
  have hfault := Blockchain.addBlock_of_commit_error Blockchain.valid_forgedBlock
    (Store.commitBlock_fault_of_keysValid _ Blockchain.keysValid_forgedBlock)
  refine ⟨⟨_, newBlockchain_migration_complete hblocks keysValid_legacyChain (fun _ => rfl) 0 .ok, rfl,
    (Store.getTotalMinted_applyCommit (legacyChain.commitPrefix [legacyBlock 0 "legacy-0" "cb-0",
      legacyBlock 1 "legacy-1" "cb-1"] Store.empty) _).trans (bytesToFloat_floatToBytes finite64_zero), ?_⟩, ?_, ?_⟩
  · have hstore : legacyChain.commitPrefix [legacyBlock 0 "legacy-0" "cb-0", legacyBlock 1 "legacy-1" "cb-1"]
        Store.empty = (Store.empty.applyCommit (legacyChain.commitFor (legacyBlock 0 "legacy-0" "cb-0") false)).applyCommit
          (legacyChain.commitFor (legacyBlock 1 "legacy-1" "cb-1") false) := rfl
    rw [hstore, Store.blocksMinted_applyCommit, Store.blocksMinted_applyCommit, Store.blocksMinted_applyCommit]
    · show (0 : ℚ) + (legacyBlock 0 "legacy-0" "cb-0").minted + (legacyBlock 1 "legacy-1" "cb-1").minted +
        (legacyBlock 2 "legacy-2" "cb-2").minted = 150
      rw [minted_legacyBlock, minted_legacyBlock, minted_legacyBlock]
      norm_num
    all_goals decide
  · rw [hfault, Blockchain.applied_totalMinted, totalMinted_genesisState, Blockchain.blockMinted_forgedBlock]
    norm_num
  · rw [hfault, Blockchain.applied_store]
    exact Blockchain.blocksMinted_genesisState _ _

end DevInsiderCoin
