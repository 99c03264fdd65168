import DevInsiderCoin.Chain.Balances

/-! The transaction index. `CommitBlock` maps every id of a block to the block's height,
over whatever the index held, so an id points to the last block committed with it; that
block is stored at the height the index names while the best height stays below `2 ^ 63`,
past which the count wraps to zero and heights are reused.

Nothing keeps ids apart: `AddToMempool` admits a transaction already waiting or already
committed, and a template takes whatever the mempool holds, so one block can carry an id
twice and `AddBlock` applies its transaction twice.
-/

set_option autoImplicit false

namespace DevInsiderCoin

namespace Store

theorem lookup_foldl_insert {β : Type} (keys : List String) (v : β) (s : Bucket String β) (t : String) :
    (keys.foldl (fun b k => b.insert k v) s).lookup t = if t ∈ keys then some v else s.lookup t := by
  induction keys generalizing s with
  | nil => simp
  | cons k ks ih =>
    rw [List.foldl_cons, ih]
    by_cases ht : t ∈ ks
    · simp [ht]
    · by_cases hk : t = k
      · subst hk
        simp [ht, AList.lookup_insert]
      · simp [ht, hk, AList.lookup_insert_ne hk]

theorem getTxBlockHeight_applyCommit (s : Store) (c : BlockCommit) (t : String) :
    (s.applyCommit c).getTxBlockHeight t = if t ∈ c.txIDs then some c.height else s.getTxBlockHeight t := by
  have hindex : (s.applyCommit c).txIndex.lookup t =
      if t ∈ c.txIDs then some (heightKey c.height) else s.txIndex.lookup t :=
    lookup_foldl_insert _ _ _ _
  unfold getTxBlockHeight
  rw [hindex]
  split <;> simp

end Store

namespace Blockchain

/-- The index and the blocks bucket below a best height under `2 ^ 63`: no block above the
best height, and every indexed id in the block stored at the height it names. -/
structure IndexSound (bc : Blockchain) : Prop where
  best : ∃ best : UInt64, bc.store.bestHeight = some (Store.heightKey best) ∧ best.toNat < 2 ^ 63 ∧
    ∀ h b, bc.store.getBlockByHeight h = some b → h.toNat ≤ best.toNat
  index : ∀ t h, bc.store.getTxBlockHeight t = some h →
    ∃ b, bc.store.getBlockByHeight h = some b ∧ t ∈ collectTxIDs b

theorem IndexSound.of_store_eq {bc bc' : Blockchain} (h : bc.IndexSound) (hstore : bc'.store = bc.store) :
    bc'.IndexSound := by
  obtain ⟨h₁, h₂⟩ := h
  exact ⟨hstore ▸ h₁, hstore ▸ h₂⟩

theorem indexSound_genesisState (cfg : NetworkConfig) (now : BitVec 64) : (genesisState cfg now).IndexSound where
  best := ⟨0, rfl, by decide, fun h b hb => by
    rw [show (genesisState cfg now).store = Store.empty.applyCommit (genesisCommit (createGenesisBlock cfg now))
      from rfl, Store.getBlockByHeight_applyCommit] at hb
    split at hb
    · rename_i h0
      rw [h0]
      exact le_rfl
    · exact absurd hb (by simp [Store.getBlockByHeight, Store.empty])⟩
  index t h ht := by
    rw [show (genesisState cfg now).store = Store.empty.applyCommit (genesisCommit (createGenesisBlock cfg now))
      from rfl, Store.getTxBlockHeight_applyCommit] at ht
    split at ht
    · obtain rfl := Option.some.inj ht
      exact ⟨createGenesisBlock cfg now, by
        rw [show (genesisState cfg now).store = Store.empty.applyCommit (genesisCommit (createGenesisBlock cfg now))
          from rfl, Store.getBlockByHeight_applyCommit, if_pos rfl]
        rfl, ‹_›⟩
    · simp [Store.getTxBlockHeight, Store.empty] at ht

theorem getBlockByHeight_committed_self (bc : Blockchain) (block : Block) :
    (bc.committed block).store.getBlockByHeight block.header.height = some block := by
  rw [committed_store, Store.getBlockByHeight_applyCommit]
  exact if_pos rfl

theorem getBlockByHeight_committed_of_ne {bc : Blockchain} {block : Block} {h : UInt64}
    (hne : h ≠ block.header.height) :
    (bc.committed block).store.getBlockByHeight h = bc.store.getBlockByHeight h := by
  rw [committed_store, Store.getBlockByHeight_applyCommit]
  exact if_neg hne

theorem below_of_committed_below {bc : Blockchain} {block : Block}
    (hbelow : (bc.committed block).store.getBlockByHeight (UInt64.ofNat (2 ^ 63)) = none) :
    block.header.height.toNat ≠ 2 ^ 63 ∧ bc.store.getBlockByHeight (UInt64.ofNat (2 ^ 63)) = none := by
  have hne : UInt64.ofNat (2 ^ 63) ≠ block.header.height := fun heq => by
    rw [heq, getBlockByHeight_committed_self] at hbelow
    exact Option.noConfusion hbelow
  exact ⟨fun heq => hne (UInt64.eq_iff_toNat_eq'.2 (by rw [heq]; rfl)),
    by rwa [getBlockByHeight_committed_of_ne hne] at hbelow⟩

theorem IndexSound.committed {bc : Blockchain} {block : Block} (h : bc.IndexSound) (hv : bc.Valid block)
    (hbelow : (bc.committed block).store.getBlockByHeight (UInt64.ofNat (2 ^ 63)) = none) :
    (bc.committed block).IndexSound := by
  obtain ⟨best, hbest, hlt, habove⟩ := h.best
  have hheight : block.header.height.toNat = best.toNat + 1 := by
    rw [hv.height, Store.toNat_getBlockCount_of hbest hlt]
  have hblocks := Store.getBlockByHeight_applyCommit bc.store (bc.commitOf block)
  simp only [commitOf_height, commitOf_block] at hblocks
  have hnew : block.header.height.toNat < 2 ^ 63 := by
    have := (below_of_committed_below hbelow).1
    omega
  refine ⟨⟨block.header.height, rfl, hnew, fun k b hb => ?_⟩, fun t k hk => ?_⟩
  · rw [committed_store, hblocks] at hb
    split at hb
    · rename_i hk
      rw [hk]
    · have := habove k b hb
      omega
  · rw [committed_store, Store.getTxBlockHeight_applyCommit] at hk
    split at hk
    · obtain rfl := Option.some.inj hk
      exact ⟨block, by rw [committed_store, hblocks, if_pos (commitOf_height bc block)], ‹_›⟩
    · obtain ⟨b, hb, hmem⟩ := h.index t k hk
      have hk' : k ≠ block.header.height := fun heq => by
        have := habove k b hb
        rw [heq] at this
        omega
      exact ⟨b, by rw [committed_store, hblocks, if_neg hk', hb], hmem⟩

theorem reachable_indexSound {cfg : NetworkConfig} {bc : Blockchain} (h : Reachable cfg bc) :
    bc.store.getBlockByHeight (UInt64.ofNat (2 ^ 63)) = none → bc.IndexSound := by
  induction h with
  | genesis now _ _ hnew =>
    obtain ⟨-, rfl⟩ := newBlockchain_empty.1 hnew
    exact fun _ => indexSound_genesisState cfg now
  | submit tx _ ih =>
    rw [submit_store]
    exact fun hbelow => (ih hbelow).of_store_eq (submit_store _ tx)
  | @addBlock bc block disk _ ih =>
    intro hbelow
    rcases addBlock_cases bc block disk with ⟨-, hs, -⟩ | ⟨-, hs, -⟩ | ⟨hv, -, -, hs⟩ <;> rw [hs] at hbelow ⊢
    · exact ih hbelow
    · exact (ih hbelow).of_store_eq (applied_store _ _)
    · exact (ih (below_of_committed_below hbelow).2).committed hv hbelow

/-- Every id in `tx_index` points at a stored block that carries it. -/
theorem reachable_txIndex_sound {cfg : NetworkConfig} {bc : Blockchain} (h : Reachable cfg bc)
    (hbelow : bc.store.getBlockByHeight (UInt64.ofNat (2 ^ 63)) = none) {txid : String} {height : UInt64}
    (hidx : bc.store.getTxBlockHeight txid = some height) :
    ∃ b, bc.store.getBlockByHeight height = some b ∧ txid ∈ collectTxIDs b :=
  (reachable_indexSound h hbelow).index txid height hidx

/-! ## One transfer applied twice

After the first block of the permissive network, the transfer "t1" of 30 from "miner" is
handed to `AddToMempool` twice; the next template carries it twice. -/

theorem spendsBlock_header_height (first second : String) : (spendsBlock first second).header.height = 2 := by
  rw [spendsBlock, withNonce_header_height, templateBlock_header_height, twoSpends_eq]
  exact getBlockCount_afterFirst

theorem txIndex_sound_spendsBlock :
    ∃ b, ((twoSpends "t1" "t1").addBlock (spendsBlock "t1" "t1") .ok).2.store.getBlockByHeight 2 = some b ∧
      "t1" ∈ collectTxIDs b := by
  have hheight := spendsBlock_header_height "t1" "t1"
  refine reachable_txIndex_sound (honestReachable_spendsBlock "t1" "t1").reachable ?_ ?_ <;>
    rw [addBlock_spendsBlock "t1" "t1" rfl rfl]
  · rw [getBlockByHeight_committed_of_ne (by rw [hheight]; decide), twoSpends_eq]
    show afterFirst.store.getBlockByHeight _ = none
    rw [afterFirst, getBlockByHeight_committed_of_ne (by rw [firstBlock_header_height]; decide)]
    rw [show (genesisState NetworkConfig.permissive 0).store =
      Store.empty.applyCommit (genesisCommit (createGenesisBlock NetworkConfig.permissive 0)) from rfl,
      Store.getBlockByHeight_applyCommit, if_neg (by decide)]
    rfl
  · rw [committed_store, Store.getTxBlockHeight_applyCommit, if_pos]
    · exact congrArg some hheight
    · show "t1" ∈ collectTxIDs (spendsBlock "t1" "t1")
      rw [collectTxIDs, spendsBlock_transactions]
      exact List.mem_map_of_mem _ (List.mem_cons_of_mem _ (List.mem_cons_self _ _))

theorem same_transaction_applied_twice :
    HonestReachable NetworkConfig.permissive ((twoSpends "t1" "t1").addBlock (spendsBlock "t1" "t1") .ok).2 ∧
      ((twoSpends "t1" "t1").addBlock (spendsBlock "t1" "t1") .ok).1 = .ok () ∧
      ¬ (collectTxIDs (spendsBlock "t1" "t1")).Nodup ∧
      ((twoSpends "t1" "t1").addBlock (spendsBlock "t1" "t1") .ok).2.getBalance "miner" = -10 := by
  refine ⟨honestReachable_spendsBlock _ _, by rw [addBlock_spendsBlock "t1" "t1" rfl rfl], fun h => ?_,
    by rw [addBlock_spendsBlock "t1" "t1" rfl rfl, getBalance_spendsBlock]⟩
  rw [collectTxIDs, spendsBlock_transactions] at h
  simp only [List.map_cons, List.map_nil] at h
  exact (List.nodup_cons.1 (List.nodup_cons.1 h).2).1 (List.mem_singleton_self _)

end Blockchain

end DevInsiderCoin
