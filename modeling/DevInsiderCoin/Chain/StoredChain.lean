import DevInsiderCoin.Chain.Run

/-! The chain the store holds: a block at every height up to the best one, each above the
first linked to the block below and carrying what `validateBlock` checked of it, with the
in-memory tip the block stored at the best height.

`validateBlock` reads the expected height from the store and the previous hash from the
in-memory tip, so the two must stay in step; they do, on every path of `AddBlock`,
because a failed commit moves neither. Past a best height of `2 ^ 63` Go reads the
stored height as a negative `int64`, the block count drops to zero, and the chain is
rebuilt from height 0 over the old blocks; the invariant holds there too.
-/

set_option autoImplicit false

namespace DevInsiderCoin

structure Linked (cfg : NetworkConfig) (prev block : Block) : Prop where
  prevHash : block.header.prevHash = prev.hash
  hash : block.hash = block.header.computeHash
  pow : checkProofOfWork block.hash block.header.bits = true
  floor : bitsToTarget block.header.bits ≤
    bitsToTarget (progressiveDifficultyFloor block.header.height cfg.difficultyEpochBlocks
      cfg.minDifficultyBits)
  count : UInt64.ofNat block.transactions.length ≤ cfg.maxBlockTransactions

namespace Blockchain

/-- The store holds a chain up to the best height `best`, and the tip is its last block. -/
structure StoredChain (bc : Blockchain) (best : UInt64) : Prop where
  bestHeight : bc.store.bestHeight = some (Store.heightKey best)
  tip : bc.lastBlock = bc.store.getBlockByHeight best
  stored : ∀ h ≤ best, ∃ b, bc.store.getBlockByHeight h = some b ∧ b.header.height = h
  linked : ∀ h ≤ best, 0 < h → ∀ prev b, bc.store.getBlockByHeight (h - 1) = some prev →
    bc.store.getBlockByHeight h = some b → Linked bc.config prev b

@[simp] theorem commitOf_height (bc : Blockchain) (block : Block) :
    (bc.commitOf block).height = block.header.height := rfl

@[simp] theorem commitOf_block (bc : Blockchain) (block : Block) : (bc.commitOf block).block = block := rfl

theorem Valid.linked {bc : Blockchain} {block prev : Block} (hv : bc.Valid block)
    (htip : bc.lastBlock = some prev) (hpos : 0 < bc.store.getBlockCount) : Linked bc.config prev block where
  prevHash := by simpa [htip] using hv.prevHash hpos
  hash := hv.hash
  pow := hv.pow
  floor := hv.floor
  count := hv.count

theorem storedChain_genesisState (cfg : NetworkConfig) (now : BitVec 64) :
    (genesisState cfg now).StoredChain 0 where
  bestHeight := rfl
  tip := by simp [genesisState, Blockchain.fresh, Store.getBlockByHeight_applyCommit, genesisCommit]
  stored h hh := by
    obtain rfl : h = 0 := UInt64.eq_iff_toNat_eq'.2 (Nat.le_zero.1 hh)
    exact ⟨createGenesisBlock cfg now,
      by simp [genesisState, Blockchain.fresh, Store.getBlockByHeight_applyCommit, genesisCommit], rfl⟩
  linked h hh hpos := absurd (lt_of_lt_of_le hpos hh) (lt_irrefl 0)

theorem StoredChain.of_eq {bc bc' : Blockchain} {best : UInt64} (h : bc.StoredChain best)
    (hstore : bc'.store = bc.store) (htip : bc'.lastBlock = bc.lastBlock) (hcfg : bc'.config = bc.config) :
    bc'.StoredChain best := by
  obtain ⟨h₁, h₂, h₃, h₄⟩ := h
  exact ⟨hstore ▸ h₁, hstore ▸ htip ▸ h₂, hstore ▸ h₃, hstore ▸ hcfg ▸ h₄⟩

theorem StoredChain.committed_of_lt {bc : Blockchain} {block : Block} {best : UInt64}
    (h : bc.StoredChain best) (hv : bc.Valid block) (hlt : best.toNat < 2 ^ 63) :
    (bc.committed block).StoredChain block.header.height := by
  have hlookup := Store.getBlockByHeight_applyCommit bc.store (bc.commitOf block)
  simp only [commitOf_height, commitOf_block] at hlookup
  have hone : (1 : UInt64).toNat = 1 := rfl
  have hnew : block.header.height.toNat = best.toNat + 1 := by
    rw [hv.height, Store.toNat_getBlockCount_of h.bestHeight hlt]
  have below : ∀ k : UInt64, k ≤ block.header.height → k ≠ block.header.height → k ≤ best := by
    intro k hk hkc
    simp only [UInt64.le_iff_toNat_le', ne_eq, UInt64.eq_iff_toNat_eq'] at hk hkc ⊢
    omega
  refine ⟨rfl, by simp [hlookup], fun k hk => ?_, fun k hk hpos prev b hprev hb => ?_⟩
  · by_cases hkc : k = block.header.height
    · exact ⟨block, by simp [hlookup, hkc], hkc.symm⟩
    · simpa [hlookup, hkc] using h.stored k (below k hk hkc)
  · have hpos' : 0 < k.toNat := hpos
    have hsub : (k - 1).toNat = k.toNat - 1 :=
      UInt64.toNat_sub_of_le k 1 (UInt64.le_iff_toNat_le'.2 (by rw [hone]; omega))
    have hk1 : k - 1 ≠ block.header.height := by
      rw [ne_eq, UInt64.eq_iff_toNat_eq', hsub]
      rw [UInt64.le_iff_toNat_le'] at hk
      omega
    rw [committed_store, hlookup, if_neg hk1] at hprev
    rw [committed_store, hlookup] at hb
    rw [committed_config]
    by_cases hkc : k = block.header.height
    · -- the new block sits on the old tip
      rw [if_pos hkc] at hb
      obtain rfl := Option.some.inj hb
      have hbest : k - 1 = best := by
        rw [UInt64.eq_iff_toNat_eq', hsub, hkc, hnew]
        omega
      rw [hbest, ← h.tip] at hprev
      exact hv.linked hprev (by rw [← hv.height, ← hkc]; exact hpos)
    · rw [if_neg hkc] at hb
      exact h.linked k (below k hk hkc) hpos prev b hprev hb

theorem StoredChain.committed_of_wrap {bc : Blockchain} {block : Block} {best : UInt64}
    (h : bc.StoredChain best) (hv : bc.Valid block) (hwrap : ¬ best.toNat < 2 ^ 63) :
    (bc.committed block).StoredChain block.header.height := by
  have hcount := Store.getBlockCount_of h.bestHeight
  rw [if_neg hwrap] at hcount
  have hlookup := Store.getBlockByHeight_applyCommit bc.store (bc.commitOf block)
  simp only [commitOf_height, commitOf_block] at hlookup
  have hzero : ∀ k : UInt64, k ≤ block.header.height → k = block.header.height := by
    intro k hk
    rw [hv.height, hcount] at hk ⊢
    exact UInt64.eq_iff_toNat_eq'.2 (Nat.le_zero.1 hk)
  refine ⟨rfl, by simp [hlookup], fun k hk => ?_, fun k hk hpos => ?_⟩
  · exact ⟨block, by simp [hlookup, hzero k hk], (hzero k hk).symm⟩
  · rw [hzero k hk, hv.height, hcount] at hpos
    exact absurd hpos (lt_irrefl 0)

theorem StoredChain.committed {bc : Blockchain} {block : Block} {best : UInt64}
    (h : bc.StoredChain best) (hv : bc.Valid block) :
    (bc.committed block).StoredChain block.header.height := by
  by_cases hlt : best.toNat < 2 ^ 63
  · exact h.committed_of_lt hv hlt
  · exact h.committed_of_wrap hv hlt

theorem StoredChain.addBlock {bc : Blockchain} {best : UInt64} (h : bc.StoredChain best)
    (block : Block) (disk : Disk) : ∃ best', (bc.addBlock block disk).2.StoredChain best' := by
  rcases addBlock_cases bc block disk with ⟨-, hs, -⟩ | ⟨-, hs, -⟩ | ⟨hv, -, -, hs⟩ <;> rw [hs]
  · exact ⟨best, h⟩
  · exact ⟨best, h.of_eq rfl rfl rfl⟩
  · exact ⟨_, h.committed hv⟩

/-- Every reachable state stores a linked chain that ends at its tip. -/
theorem reachable_storedChain {cfg : NetworkConfig} {bc : Blockchain} (h : Reachable cfg bc) :
    ∃ best, bc.StoredChain best := by
  induction h with
  | genesis now _ _ hnew =>
    obtain ⟨-, rfl⟩ := newBlockchain_empty.1 hnew
    exact ⟨0, storedChain_genesisState cfg now⟩
  | submit tx _ ih =>
    obtain ⟨best, hbest⟩ := ih
    exact ⟨best, hbest.of_eq (submit_store _ tx) (submit_lastBlock _ tx) (submit_config _ tx)⟩
  | addBlock block disk _ ih =>
    obtain ⟨best, hbest⟩ := ih
    exact hbest.addBlock block disk

end Blockchain

end DevInsiderCoin
