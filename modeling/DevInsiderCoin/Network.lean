import DevInsiderCoin.Chain.HashIndex

/-! The peer protocol of `internal/network`. Peers exchange JSON envelopes, one per line,
and `handlePeer` reads them with a scanner whose buffer is 4 MiB; a longer line ends the
read loop and drops the peer. A node answers `getblocks` with its stored blocks from the
asked height, in height order, one `block` message each. The node that asked skips a block
at a height it holds, hands any other to `AddBlock`, and hands a `tx` message to
`AddToMempool`.

When the asking node's chain is a prefix of the sender's, each block of the answer is valid
on it in turn: the sender's chain carries what `validateBlock` checked of every block, and
the asking node stands where the sender stood when it added the block. So with every line
fitting the scanner and every commit going through, it ends with the sender's chain, block
for block. A line need not fit: `validateBlock` bounds a block by `MaxBlockSize`, 8 MiB by
default, twice the scanner's buffer.
-/

set_option autoImplicit false

namespace DevInsiderCoin

namespace Network

/-! ## The wire -/

inductive Message where
  | block (b : Block)
  | tx (t : Transaction)

/-- `Peer.Send`: `json.Marshal(Message{Type, Payload})`, the payload's JSON kept as it is
(`json.RawMessage`); the newline follows. -/
def Message.line : Message → String
  | .block b => "\x7b\"type\":\"block\",\"payload\":" ++ b.marshal ++ "\x7d"
  | .tx t => "\x7b\"type\":\"tx\",\"payload\":" ++ t.marshal ++ "\x7d"

/-- The buffer `handlePeer` gives its scanner, also the most it may grow to. -/
def maxScanTokenSize : Nat := 4 * 1024 * 1024

/-- `bufio.Scanner` with `ScanLines` returns a line only when the line and its newline fit
in the buffer. -/
def Fits (line : String) : Prop := line.utf8ByteSize + 1 ≤ maxScanTokenSize

instance (line : String) : Decidable (Fits line) := inferInstanceAs (Decidable (_ ≤ _))

theorem fits_block_iff (b : Block) : Fits (Message.block b).line ↔ b.marshal.utf8ByteSize + 28 ≤ maxScanTokenSize := by
  have hhead : "\x7b\"type\":\"block\",\"payload\":".utf8ByteSize = 26 := by decide
  have htail : "\x7d".utf8ByteSize = 1 := by decide
  rw [Fits, Message.line, String.utf8ByteSize_append', String.utf8ByteSize_append', hhead, htail]
  omega

theorem utf8ByteSize_marshal_of_nil {b : Block} (h : b.transactions = []) :
    b.marshal.utf8ByteSize = (Json.int b.header.version.toNat).utf8ByteSize +
      (Json.string b.header.prevHash).utf8ByteSize + (Json.string b.header.merkleRoot).utf8ByteSize +
      (Json.int b.header.timestamp.toInt).utf8ByteSize + (Json.int b.header.bits.toNat).utf8ByteSize +
      (Json.int b.header.nonce.toNat).utf8ByteSize + (Json.int b.header.height.toNat).utf8ByteSize +
      (Json.string b.hash).utf8ByteSize + 119 := by
  have hpunct : "\x7b".utf8ByteSize = 1 ∧ "\x7d".utf8ByteSize = 1 ∧ ",".utf8ByteSize = 1 ∧ ":".utf8ByteSize = 1 ∧
      "null".utf8ByteSize = 4 := by decide
  have hkeys : (Json.string "header").utf8ByteSize = 8 ∧ (Json.string "version").utf8ByteSize = 9 ∧
      (Json.string "prev_hash").utf8ByteSize = 11 ∧ (Json.string "merkle_root").utf8ByteSize = 13 ∧
      (Json.string "timestamp").utf8ByteSize = 11 ∧ (Json.string "bits").utf8ByteSize = 6 ∧
      (Json.string "nonce").utf8ByteSize = 7 ∧ (Json.string "height").utf8ByteSize = 8 ∧
      (Json.string "transactions").utf8ByteSize = 14 ∧ (Json.string "hash").utf8ByteSize = 6 := by decide
  simp only [Block.marshal, BlockHeader.marshal, Json.object, h, if_true, List.map, String.intercalate,
    String.intercalate.go, String.utf8ByteSize_append', hpunct, hkeys]
  omega

/-! ## The node -/

/-- `handleMessage` for the messages of `Message`: a block at a height the node holds is
ignored, any other goes to `AddBlock` (a rejected block is dropped), and a transaction goes
to `AddToMempool`. The relay to other peers changes nothing here. -/
def handleMessage (bc : Blockchain) (disk : Disk) : Message → Blockchain
  | .block b => if b.header.height ≤ bc.getBestHeight then bc else (bc.addBlock b disk).2
  | .tx t => bc.submit t

/-- `handlePeer`'s read loop over the lines of one connection, each block with what the disk
does with its commit: the first line too long for the scanner ends the loop. -/
def handlePeer (bc : Blockchain) : List (Message × Disk) → Blockchain
  | [] => bc
  | (m, disk) :: rest => if Fits m.line then handlePeer (handleMessage bc disk m) rest else bc

/-- `sendBlocks`: the answer to `getblocks`, a message per stored block from the height asked. -/
def sendBlocks (bc : Blockchain) (fromHeight : UInt64) : List Message := (bc.getBlocks fromHeight).map .block

theorem handlePeer_cons_of_fits (bc : Blockchain) {m : Message} (disk : Disk) (rest : List (Message × Disk))
    (h : Fits m.line) : handlePeer bc ((m, disk) :: rest) = handlePeer (handleMessage bc disk m) rest := by
  rw [handlePeer, if_pos h]

/-! ## What a chain offers a peer -/

/-- What `AddBlock` checked of a block beyond what a stored chain records: its size, and the
keys its commit puts. -/
structure Checked (cfg : NetworkConfig) (b : Block) : Prop where
  size : UInt64.ofNat b.marshal.utf8ByteSize ≤ cfg.maxBlockSize
  hash : checkKey b.hash = .ok ()
  txs : ∀ tx ∈ b.transactions, checkKey tx.txID = .ok () ∧ ∀ a ∈ tx.touched, checkKey a = .ok ()

theorem checked_of_addBlock_ok {bc : Blockchain} {block : Block} {disk : Disk}
    (h : (bc.addBlock block disk).1 = .ok ()) : Checked bc.config block := by
  obtain ⟨_, hc⟩ := Blockchain.commitBlock_of_addBlock_ok h
  have hkeys := Store.keysValid_of_commitBlock_ok hc
  refine ⟨(Blockchain.valid_of_addBlock_ok h).size, hkeys.hash, fun tx htx => ⟨hkeys.txIDs _ (List.mem_map_of_mem _ htx),
    fun a ha => ?_⟩⟩
  obtain ⟨v, hv⟩ := List.mem_keys.1 (AList.mem_keys.1
    ((bc.mem_changedBalances_applyBlock block a).2 ⟨tx, htx, ha⟩))
  exact hkeys.balances _ hv

theorem reachable_checked {cfg : NetworkConfig} {bc : Blockchain} (h : Reachable cfg bc) :
    bc.config = cfg ∧ ∀ k b, bc.store.getBlockByHeight k = some b → 0 < k.toNat → Checked cfg b := by
  induction h with
  | genesis now _ _ hnew =>
    obtain ⟨-, rfl⟩ := newBlockchain_empty.1 hnew
    refine ⟨rfl, fun k b hb hk => absurd hb ?_⟩
    rw [show (genesisState cfg now).store = Store.empty.applyCommit (genesisCommit (createGenesisBlock cfg now))
      from rfl, Store.getBlockByHeight_applyCommit, if_neg fun h0 => by rw [h0] at hk; exact lt_irrefl 0 hk]
    simp [Store.getBlockByHeight, Store.empty]
  | submit tx _ ih => rwa [Blockchain.submit_config, Blockchain.submit_store]
  | @addBlock bc block disk _ ih =>
    obtain ⟨hcfg, hchecked⟩ := ih
    rcases Blockchain.addBlock_cases bc block disk with ⟨-, hs, -⟩ | ⟨-, hs, -⟩ | ⟨-, -, hok, hs⟩
    · rw [hs]
      exact ⟨hcfg, hchecked⟩
    · rw [hs, Blockchain.applied_config, Blockchain.applied_store]
      exact ⟨hcfg, hchecked⟩
    · refine ⟨by rw [hs, Blockchain.committed_config, hcfg], fun k b hb hk => ?_⟩
      rw [hs, Blockchain.committed_store, Store.getBlockByHeight_applyCommit] at hb
      split at hb
      · obtain rfl := Option.some.inj hb
        exact hcfg ▸ checked_of_addBlock_ok hok
      · exact hchecked k b hb hk

/-- What the sending node's chain offers: a stored chain up to `best` below `2 ^ 63` with
no block above it, every block above height 0 checked. -/
structure Offers (cfg : NetworkConfig) (bc : Blockchain) (best : UInt64) : Prop where
  config : bc.config = cfg
  chain : bc.StoredChain best
  lt : best.toNat < 2 ^ 63
  keys : ∀ key, key ∈ bc.store.blocks ↔ ∃ k : UInt64, k ≤ best ∧ key = Store.heightKey k
  checked : ∀ k b, bc.store.getBlockByHeight k = some b → 0 < k.toNat → Checked cfg b

theorem reachable_offers {cfg : NetworkConfig} {bc : Blockchain} (h : Reachable cfg bc)
    (hbelow : bc.store.getBlockByHeight (UInt64.ofNat (2 ^ 63)) = none) :
    ∃ best, Offers cfg bc best := by
  have hstored : ∃ best, bc.StoredChain best := by
    clear hbelow
    induction h with
    | genesis now _ _ hnew =>
      obtain ⟨-, rfl⟩ := newBlockchain_empty.1 hnew
      exact ⟨0, Blockchain.storedChain_genesisState cfg now⟩
    | submit tx _ ih =>
      obtain ⟨best, hbest⟩ := ih
      exact ⟨best, hbest.of_eq (Blockchain.submit_store _ tx) (Blockchain.submit_lastBlock _ tx)
        (Blockchain.submit_config _ tx)⟩
    | addBlock block disk _ ih =>
      obtain ⟨best, hbest⟩ := ih
      exact hbest.addBlock block disk
  obtain ⟨best, hbest, hlt, hkeys⟩ := (Blockchain.reachable_hashIndexSound h hbelow).best
  obtain ⟨best', hchain⟩ := hstored
  obtain rfl : best' = best := Store.heightKey_inj.1 (Option.some.inj (hchain.bestHeight.symm.trans hbest))
  obtain ⟨hcfg, hchecked⟩ := reachable_checked h
  exact ⟨best', ⟨hcfg, hchain, hlt, hkeys, hchecked⟩⟩

theorem Offers.getBestHeight {cfg : NetworkConfig} {bc : Blockchain} {best : UInt64} (h : Offers cfg bc best) :
    bc.store.getBestHeight = best.toNat := by
  simp only [Store.getBestHeight, h.chain.bestHeight, Store.keyToHeight_heightKey, int64OfUInt64_eq, if_pos h.lt]

theorem Offers.getBlockByHeight_above {cfg : NetworkConfig} {bc : Blockchain} {best : UInt64} (h : Offers cfg bc best)
    {k : UInt64} (hk : best.toNat < k.toNat) : bc.store.getBlockByHeight k = none := by
  refine AList.lookup_eq_none.2 fun hmem => ?_
  obtain ⟨k', hk', heq⟩ := (h.keys _).1 hmem
  rw [Store.heightKey_inj] at heq
  rw [UInt64.le_iff_toNat_le', ← heq] at hk'
  omega

theorem Offers.getBlocksFrom_next {cfg : NetworkConfig} {bc : Blockchain} {best : UInt64} (h : Offers cfg bc best)
    {held : Nat} (hheld : held < best.toNat) {b : Block}
    (hb : bc.store.getBlockByHeight (UInt64.ofNat (held + 1)) = some b) :
    bc.store.getBlocksFrom (UInt64.ofNat (held + 1)) = b :: bc.store.getBlocksFrom (UInt64.ofNat (held + 2)) := by
  have h1 : (UInt64.ofNat (held + 1)).toNat = held + 1 := by rw [UInt64.toNat_ofNat']; have := h.lt; omega
  have h2 : (UInt64.ofNat (held + 2)).toNat = held + 2 := by rw [UInt64.toNat_ofNat']; have := h.lt; omega
  rw [Store.getBlocksFrom_of_keys h.keys, Store.getBlocksFrom_of_keys h.keys, h1, h2,
    show best.toNat + 1 - (held + 1) = (best.toNat + 1 - (held + 2)) + 1 by omega, List.range'_succ,
    List.filterMap_cons, hb]

theorem Offers.getBlocksFrom_past {cfg : NetworkConfig} {bc : Blockchain} {best : UInt64} (h : Offers cfg bc best) :
    bc.store.getBlocksFrom (UInt64.ofNat (best.toNat + 1)) = [] := by
  have h1 : (UInt64.ofNat (best.toNat + 1)).toNat = best.toNat + 1 := by rw [UInt64.toNat_ofNat']; have := h.lt; omega
  rw [Store.getBlocksFrom_of_keys h.keys, h1, Nat.sub_self, List.range'_zero, List.filterMap_nil]

theorem Offers.getBestHeight_eq {cfg : NetworkConfig} {bc : Blockchain} {best : UInt64} (h : Offers cfg bc best) :
    bc.getBestHeight = best := by
  simp [Blockchain.getBestHeight, h.getBestHeight]

/-- The height check `handleMessage` makes before `AddBlock` only saves work. -/
theorem handleMessage_block_eq_addBlock {cfg : NetworkConfig} {bc : Blockchain} (h : Reachable cfg bc)
    (hbelow : bc.store.getBlockByHeight (UInt64.ofNat (2 ^ 63)) = none) (disk : Disk) (b : Block) :
    handleMessage bc disk (.block b) = (bc.addBlock b disk).2 := by
  obtain ⟨best, hoff⟩ := reachable_offers h hbelow
  show (if b.header.height ≤ bc.getBestHeight then bc else (bc.addBlock b disk).2) = _
  split
  · rename_i hle
    rw [hoff.getBestHeight_eq, UInt64.le_iff_toNat_le'] at hle
    have hcount := Store.toNat_getBlockCount_of hoff.chain.bestHeight hoff.lt
    rcases Blockchain.addBlock_cases bc b disk with ⟨-, hs, -⟩ | ⟨hv, -⟩ | ⟨hv, -⟩
    · exact hs.symm
    all_goals rw [← hv.height] at hcount; omega
  · rfl

theorem handleMessage_block_eq_addBlock_held :
    Reachable NetworkConfig.permissive (Blockchain.emptyChain 1) ∧
      (Blockchain.emptyChain 1).store.getBlockByHeight (UInt64.ofNat (2 ^ 63)) = none ∧
      (Blockchain.emptyTip 1).header.height ≤ (Blockchain.emptyChain 1).getBestHeight ∧
      handleMessage (Blockchain.emptyChain 1) .ok (.block (Blockchain.emptyTip 1)) =
        ((Blockchain.emptyChain 1).addBlock (Blockchain.emptyTip 1) .ok).2 := by
  have hrun := (Blockchain.emptyChain_committedRun 1 (by decide)).1
  have hbelow := Blockchain.getBlockByHeight_emptyChain (k := 1) (by decide) (by decide) (Nat.two_pow_pos 63)
  rw [if_neg (by decide)] at hbelow
  refine ⟨hrun.reachable, hbelow, ?_, handleMessage_block_eq_addBlock hrun.reachable hbelow .ok _⟩
  rw [Blockchain.emptyTip_height, (Blockchain.committedRun_persisted hrun (by decide)).getBestHeight (by decide)]
  exact UInt64.le_refl _

/-! ## Catching up -/

/-- What a node reads on its connection while it catches up: the messages `sent` in order,
each while it is the next one due, with `tx` messages and blocks at heights it already holds
(`held` is its best height) anywhere between them. -/
inductive Interleaved : Nat → List Message → List Message → Prop
  | nil (held : Nat) : Interleaved held [] []
  | next {held : Nat} {m : Message} {sent msgs : List Message} :
      Interleaved (held + 1) sent msgs → Interleaved held (m :: sent) (m :: msgs)
  | tx {held : Nat} {sent msgs : List Message} (t : Transaction) :
      Interleaved held sent msgs → Interleaved held sent (.tx t :: msgs)
  | stale {held : Nat} {sent msgs : List Message} (b : Block) :
      b.header.height.toNat ≤ held → Interleaved held sent msgs → Interleaved held sent (.block b :: msgs)

/-- The receiving node `bc` holds the sender's blocks up to height `held` and none above,
with the sender's block at `held` as its tip. -/
structure Synced (sender bc : Blockchain) (held : Nat) : Prop where
  config : bc.config = sender.config
  best : bc.store.bestHeight = some (Store.heightKey (UInt64.ofNat held))
  tip : bc.lastBlock = sender.store.getBlockByHeight (UInt64.ofNat held)
  blocks : ∀ k : UInt64, bc.store.getBlockByHeight k =
    if k.toNat ≤ held then sender.store.getBlockByHeight k else none

section Sync

variable {cfg : NetworkConfig} {A B : Blockchain} {best : UInt64} {held : Nat}

theorem toNat_ofNat_of_lt {n : Nat} (h : n < 2 ^ 63) : (UInt64.ofNat n).toNat = n := by
  rw [UInt64.toNat_ofNat']
  omega

theorem Synced.submit (h : Synced A B held) (t : Transaction) : Synced A (B.submit t) held := by
  obtain ⟨h₁, h₂, h₃, h₄⟩ := h
  refine ⟨?_, ?_, ?_, ?_⟩
  · rw [Blockchain.submit_config]; exact h₁
  · rw [Blockchain.submit_store]; exact h₂
  · rw [Blockchain.submit_lastBlock]; exact h₃
  · rw [Blockchain.submit_store]; exact h₄

theorem Synced.getBestHeight (h : Synced A B held) (hheld : held < 2 ^ 63) : B.getBestHeight = UInt64.ofNat held := by
  have hread : B.store.getBestHeight = held := by
    simp only [Store.getBestHeight, h.best, Store.keyToHeight_heightKey, int64OfUInt64_eq, toNat_ofNat_of_lt hheld,
      if_pos hheld]
  simp [Blockchain.getBestHeight, hread]

theorem Synced.handleMessage_stale (h : Synced A B held) (hheld : held < 2 ^ 63) {b : Block}
    (hb : b.header.height.toNat ≤ held) (disk : Disk) : handleMessage B disk (.block b) = B := by
  rw [handleMessage, if_pos]
  rw [h.getBestHeight hheld, UInt64.le_iff_toNat_le', toNat_ofNat_of_lt hheld]
  exact hb

theorem Synced.valid_next (hA : Offers cfg A best) (h : Synced A B held) (hheld : held < best.toNat)
    {b : Block} (hb : A.store.getBlockByHeight (UInt64.ofNat (held + 1)) = some b) :
    B.Valid b ∧ Checked cfg b ∧ b.header.height = UInt64.ofNat (held + 1) := by
  have hlt := hA.lt
  have hnext := toNat_ofNat_of_lt (show held + 1 < 2 ^ 63 by omega)
  have hheld' := toNat_ofNat_of_lt (show held < 2 ^ 63 by omega)
  have hone : (1 : UInt64).toNat = 1 := rfl
  obtain ⟨b', hb', hheight⟩ := hA.chain.stored _ (UInt64.le_iff_toNat_le'.2 (by rw [hnext]; omega))
  obtain rfl : b' = b := Option.some.inj (hb'.symm.trans hb)
  obtain ⟨prev, hprev, -⟩ := hA.chain.stored _ (UInt64.le_iff_toNat_le'.2 (by rw [hheld']; omega))
  have hsub : UInt64.ofNat (held + 1) - 1 = UInt64.ofNat held := by
    rw [UInt64.eq_iff_toNat_eq', UInt64.toNat_sub_of_le _ _ (UInt64.le_iff_toNat_le'.2 (by rw [hnext, hone]; omega)),
      hnext, hheld', hone]
    rfl
  have hlink := hA.chain.linked _ (UInt64.le_iff_toNat_le'.2 (by rw [hnext]; omega))
    (show 0 < (UInt64.ofNat (held + 1)).toNat by rw [hnext]; omega) prev b' (by rw [hsub]; exact hprev) hb
  have hchecked := hA.checked _ b' hb (by rw [hnext]; omega)
  have hcount : B.store.getBlockCount = UInt64.ofNat (held + 1) := by
    rw [Store.getBlockCount_of h.best, if_pos (by rw [hheld']; omega), UInt64.eq_iff_toNat_eq', UInt64.toNat_add',
      hheld', hnext, hone]
    omega
  have hcfg : B.config = cfg := h.config.trans hA.config
  refine ⟨{ height := hheight.trans hcount.symm
            prevHash := fun _ => by simp [h.tip, hprev, hlink.prevHash]
            hash := hlink.hash
            pow := hlink.pow
            count := h.config ▸ hlink.count
            size := hcfg ▸ hchecked.size
            floor := h.config ▸ hlink.floor }, hchecked, hheight⟩

theorem Synced.committed (h : Synced A B held) {b : Block}
    (hb : A.store.getBlockByHeight (UInt64.ofNat (held + 1)) = some b) (hheight : b.header.height = UInt64.ofNat (held + 1))
    (hnext : (UInt64.ofNat (held + 1)).toNat = held + 1) : Synced A (B.committed b) (held + 1) := by
  refine ⟨?_, ?_, ?_, fun k => ?_⟩
  · rw [Blockchain.committed_config, h.config]
  · show some (Store.heightKey b.header.height) = _
    rw [hheight]
  · rw [Blockchain.committed_lastBlock, hb]
  · rw [Blockchain.committed_store, Store.getBlockByHeight_applyCommit]
    simp only [Blockchain.commitOf_height, Blockchain.commitOf_block]
    by_cases hk : k = b.header.height
    · rw [if_pos hk, if_pos (by rw [hk, hheight, hnext]), hk, hheight, hb]
    · have hk' : k.toNat ≠ held + 1 := fun heq => hk (by rw [hheight]; exact UInt64.eq_iff_toNat_eq'.2 (by rw [heq, hnext]))
      rw [if_neg hk, h.blocks k]
      by_cases hkh : k.toNat ≤ held
      · rw [if_pos hkh, if_pos (by omega)]
      · rw [if_neg hkh, if_neg (by omega)]

theorem Synced.handleMessage_next (hA : Offers cfg A best) (h : Synced A B held) (hheld : held < best.toNat)
    {b : Block} (hb : A.store.getBlockByHeight (UInt64.ofNat (held + 1)) = some b) :
    handleMessage B .ok (.block b) = B.committed b ∧ Synced A (B.committed b) (held + 1) := by
  have hlt := hA.lt
  obtain ⟨hv, hchecked, hheight⟩ := h.valid_next hA hheld hb
  have hnext := toNat_ofNat_of_lt (show held + 1 < 2 ^ 63 by omega)
  have hadd := Blockchain.addBlock_of_commit_ok hv
    (Store.commitBlock_of_keysValid _ (Blockchain.keysValid_commitOf hchecked.hash hchecked.txs))
  have hnot : ¬ b.header.height ≤ B.getBestHeight := by
    rw [h.getBestHeight (by omega), hheight, UInt64.le_iff_toNat_le', hnext, toNat_ofNat_of_lt (by omega)]
    omega
  exact ⟨by rw [handleMessage, if_neg hnot, hadd], h.committed hb hheight hnext⟩

theorem Synced.handlePeer (hA : Offers cfg A best) {sent msgs : List Message}
    (hmsgs : Interleaved held sent msgs) (h : Synced A B held) (hheld : held ≤ best.toNat)
    (hsent : sent = sendBlocks A (UInt64.ofNat (held + 1))) (hfit : ∀ m ∈ msgs, Fits m.line) :
    Synced A (handlePeer B (msgs.map (·, .ok))) best.toNat := by
  have hstored : ∀ n, n < best.toNat → ∃ b, A.store.getBlockByHeight (UInt64.ofNat (n + 1)) = some b := fun n hn => by
    obtain ⟨b, hb, -⟩ := hA.chain.stored (UInt64.ofNat (n + 1))
      (UInt64.le_iff_toNat_le'.2 (by rw [toNat_ofNat_of_lt (by have := hA.lt; omega)]; omega))
    exact ⟨b, hb⟩
  have hfit' : ∀ {m rest}, (∀ x ∈ m :: rest, Fits (Message.line x)) → Fits m.line ∧ ∀ x ∈ rest, Fits x.line :=
    fun hf => ⟨hf _ (List.mem_cons_self _ _), fun x hx => hf x (List.mem_cons_of_mem _ hx)⟩
  induction hmsgs generalizing B with
  | nil held =>
    rcases Nat.lt_or_ge held best.toNat with hlt | hge
    · obtain ⟨b, hb⟩ := hstored held hlt
      rw [sendBlocks, Blockchain.getBlocks, hA.getBlocksFrom_next hlt hb] at hsent
      exact absurd hsent.symm (List.cons_ne_nil _ _)
    · obtain rfl : held = best.toNat := by omega
      exact h
  | @next held m sent msgs _ ih =>
    have hlt : held < best.toNat := by
      refine lt_of_le_of_ne hheld fun heq => ?_
      rw [sendBlocks, Blockchain.getBlocks, heq, hA.getBlocksFrom_past] at hsent
      exact List.cons_ne_nil _ _ hsent
    obtain ⟨b, hb⟩ := hstored held hlt
    rw [sendBlocks, Blockchain.getBlocks, hA.getBlocksFrom_next hlt hb, List.map_cons] at hsent
    obtain ⟨rfl, rfl⟩ := List.cons.inj hsent
    obtain ⟨hm, hrest⟩ := hfit' hfit
    obtain ⟨hhandle, hsync⟩ := h.handleMessage_next hA hlt hb
    rw [List.map_cons, handlePeer_cons_of_fits _ _ _ hm, hhandle]
    exact ih hsync hlt rfl hrest
  | @tx held sent msgs t _ ih =>
    obtain ⟨hm, hrest⟩ := hfit' hfit
    rw [List.map_cons, handlePeer_cons_of_fits _ _ _ hm]
    exact ih (h.submit t) hheld hsent hrest
  | @stale held sent msgs b hb _ ih =>
    obtain ⟨hm, hrest⟩ := hfit' hfit
    rw [List.map_cons, handlePeer_cons_of_fits _ _ _ hm, h.handleMessage_stale (by have := hA.lt; omega) hb]
    exact ih h hheld hsent hrest

end Sync

theorem Synced.of_shared {cfg : NetworkConfig} {A B : Blockchain} {bestA bestB : UInt64} (hA : Offers cfg A bestA)
    (hB : Offers cfg B bestB)
    (hshared : ∀ k : UInt64, k.toNat ≤ bestB.toNat → B.store.getBlockByHeight k = A.store.getBlockByHeight k) :
    Synced A B bestB.toNat where
  config := hB.config.trans hA.config.symm
  best := by rw [UInt64.ofNat_toNat']; exact hB.chain.bestHeight
  tip := by rw [UInt64.ofNat_toNat', hB.chain.tip, hshared bestB (Nat.le_refl _)]
  blocks k := by
    split
    · exact hshared k ‹_›
    · exact hB.getBlockByHeight_above (by omega)

theorem Synced.at_best {cfg : NetworkConfig} {A B : Blockchain} {best : UInt64} (hA : Offers cfg A best)
    (h : Synced A B best.toNat) :
    (∀ k, B.store.getBlockByHeight k = A.store.getBlockByHeight k) ∧
      B.store.getBestHeight = A.store.getBestHeight ∧ B.lastBlock = A.lastBlock := by
  refine ⟨fun k => ?_, ?_, ?_⟩
  · rw [h.blocks k]
    split
    · rfl
    · exact (hA.getBlockByHeight_above (by omega)).symm
  · rw [hA.getBestHeight]
    simp only [Store.getBestHeight, h.best, Store.keyToHeight_heightKey, int64OfUInt64_eq,
      toNat_ofNat_of_lt hA.lt, if_pos hA.lt]
  · rw [h.tip, UInt64.ofNat_toNat', hA.chain.tip]

/-! ## One block past genesis -/

theorem sendBlocks_of_addBlock_genesis {b : Block}
    (hadd : (genesisState NetworkConfig.permissive 0).addBlock b .ok =
      (.ok (), (genesisState NetworkConfig.permissive 0).committed b)) :
    Reachable NetworkConfig.permissive ((genesisState NetworkConfig.permissive 0).committed b) ∧
      ((genesisState NetworkConfig.permissive 0).committed b).store.getBlockByHeight (UInt64.ofNat (2 ^ 63)) = none ∧
      sendBlocks ((genesisState NetworkConfig.permissive 0).committed b)
        ((genesisState NetworkConfig.permissive 0).getBestHeight + 1) = [.block b] := by
  have hreach := Reachable.addBlock b .ok Blockchain.reachable_genesis_permissive
  rw [hadd] at hreach
  have hheight : b.header.height = 1 :=
    (Blockchain.valid_of_addBlock_ok (by rw [hadd])).height.trans (getBlockCount_genesisState _ _)
  have hbelow : ((genesisState NetworkConfig.permissive 0).committed b).store.getBlockByHeight
      (UInt64.ofNat (2 ^ 63)) = none := by
    rw [Blockchain.getBlockByHeight_committed_of_ne (by rw [hheight]; decide),
      getBlockByHeight_genesisState_of_ne _ _ (by decide)]
  obtain ⟨best, hoff⟩ := reachable_offers hreach hbelow
  obtain rfl : best = 1 := by
    have h := hoff.chain.bestHeight
    rw [Blockchain.committed_store, Store.applyCommit_bestHeight, Blockchain.commitOf_height, hheight] at h
    exact (Store.heightKey_inj.1 (Option.some.inj h)).symm
  have hb : ((genesisState NetworkConfig.permissive 0).committed b).store.getBlockByHeight (UInt64.ofNat (0 + 1)) =
      some b := by
    rw [show UInt64.ofNat (0 + 1) = b.header.height by rw [hheight]; rfl]
    exact Blockchain.getBlockByHeight_committed_self _ b
  refine ⟨hreach, hbelow, ?_⟩
  rw [sendBlocks, Blockchain.getBlocks, show (genesisState NetworkConfig.permissive 0).getBestHeight + 1 =
    UInt64.ofNat (0 + 1) from rfl, hoff.getBlocksFrom_next (by decide) hb]
  rw [show UInt64.ofNat (0 + 2) = UInt64.ofNat ((1 : UInt64).toNat + 1) from rfl, hoff.getBlocksFrom_past]
  rfl

theorem fits_emptyTip_one : Fits (Message.block (Blockchain.emptyTip 1)).line := by
  rw [fits_block_iff, utf8ByteSize_marshal_of_nil rfl]
  have hprev := Json.utf8ByteSize_string_le (Blockchain.emptyTip 1).header.prevHash
  have hhash := Json.utf8ByteSize_string_le (Blockchain.emptyTip 1).hash
  have hlen : (Blockchain.emptyTip 1).header.prevHash.length = 64 ∧ (Blockchain.emptyTip 1).hash.length = 64 :=
    ⟨length_computeHash _, length_computeHash _⟩
  have hfields : (Json.int (Blockchain.emptyTip 1).header.version.toNat).utf8ByteSize = 1 ∧
      (Json.string (Blockchain.emptyTip 1).header.merkleRoot).utf8ByteSize = 2 ∧
      (Json.int (Blockchain.emptyTip 1).header.timestamp.toInt).utf8ByteSize = 1 ∧
      (Json.int (Blockchain.emptyTip 1).header.bits.toNat).utf8ByteSize = 9 ∧
      (Json.int (Blockchain.emptyTip 1).header.nonce.toNat).utf8ByteSize = 1 ∧
      (Json.int (Blockchain.emptyTip 1).header.height.toNat).utf8ByteSize = 1 := by decide
  have hmax : maxScanTokenSize = 4194304 := rfl
  omega

/-- Reading a `getblocks` answer in order brings the receiver up to the sender. -/
theorem sync_reaches_sender {cfg : NetworkConfig} {A B : Blockchain} (hA : Reachable cfg A) (hB : Reachable cfg B)
    (hAbelow : A.store.getBlockByHeight (UInt64.ofNat (2 ^ 63)) = none)
    (hBbelow : B.store.getBlockByHeight (UInt64.ofNat (2 ^ 63)) = none)
    (hle : B.store.getBestHeight ≤ A.store.getBestHeight)
    (hshared : ∀ k : UInt64, (k.toNat : Int) ≤ B.store.getBestHeight →
      B.store.getBlockByHeight k = A.store.getBlockByHeight k)
    {msgs : List Message} (hmsgs : Interleaved B.getBestHeight.toNat (sendBlocks A (B.getBestHeight + 1)) msgs)
    (hfit : ∀ m ∈ msgs, Fits m.line) :
    (∀ k, (handlePeer B (msgs.map (·, .ok))).store.getBlockByHeight k = A.store.getBlockByHeight k) ∧
      (handlePeer B (msgs.map (·, .ok))).store.getBestHeight = A.store.getBestHeight ∧
      (handlePeer B (msgs.map (·, .ok))).lastBlock = A.lastBlock := by
  obtain ⟨bestA, hoffA⟩ := reachable_offers hA hAbelow
  obtain ⟨bestB, hoffB⟩ := reachable_offers hB hBbelow
  have hBA : bestB.toNat ≤ bestA.toNat := by
    rw [hoffA.getBestHeight, hoffB.getBestHeight] at hle
    exact_mod_cast hle
  have hsync := Synced.of_shared hoffA hoffB fun k hk => hshared k (by rw [hoffB.getBestHeight]; exact_mod_cast hk)
  have hstart := hsync.getBestHeight hoffB.lt
  have hnext : B.getBestHeight + 1 = UInt64.ofNat (bestB.toNat + 1) := by
    rw [hstart, UInt64.eq_iff_toNat_eq', UInt64.toNat_add', toNat_ofNat_of_lt hoffB.lt, UInt64.toNat_ofNat']
    rfl
  rw [hnext, hstart, toNat_ofNat_of_lt hoffB.lt] at hmsgs
  exact (hsync.handlePeer hoffA hmsgs hBA rfl hfit).at_best hoffA

theorem sync_reaches_sender_emptyTip :
    Reachable NetworkConfig.permissive (Blockchain.emptyChain 1) ∧
      Reachable NetworkConfig.permissive (Blockchain.emptyChain 0) ∧
      (Blockchain.emptyChain 1).store.getBlockByHeight (UInt64.ofNat (2 ^ 63)) = none ∧
      (Blockchain.emptyChain 0).store.getBlockByHeight (UInt64.ofNat (2 ^ 63)) = none ∧
      (Blockchain.emptyChain 0).store.getBestHeight ≤ (Blockchain.emptyChain 1).store.getBestHeight ∧
      (∀ k : UInt64, (k.toNat : Int) ≤ (Blockchain.emptyChain 0).store.getBestHeight →
        (Blockchain.emptyChain 0).store.getBlockByHeight k = (Blockchain.emptyChain 1).store.getBlockByHeight k) ∧
      Interleaved (Blockchain.emptyChain 0).getBestHeight.toNat
        (sendBlocks (Blockchain.emptyChain 1) ((Blockchain.emptyChain 0).getBestHeight + 1))
        [.block (Blockchain.emptyTip 1)] ∧
      (∀ m ∈ [Message.block (Blockchain.emptyTip 1)], Fits m.line) ∧
      ((∀ k, (handlePeer (Blockchain.emptyChain 0) ([Message.block (Blockchain.emptyTip 1)].map (·, .ok))).store.getBlockByHeight k =
          (Blockchain.emptyChain 1).store.getBlockByHeight k) ∧
        (handlePeer (Blockchain.emptyChain 0) ([Message.block (Blockchain.emptyTip 1)].map (·, .ok))).store.getBestHeight =
          (Blockchain.emptyChain 1).store.getBestHeight ∧
        (handlePeer (Blockchain.emptyChain 0) ([Message.block (Blockchain.emptyTip 1)].map (·, .ok))).lastBlock =
          (Blockchain.emptyChain 1).lastBlock) := by
  have hadd : (genesisState NetworkConfig.permissive 0).addBlock (Blockchain.emptyTip 1) .ok =
      (.ok (), (genesisState NetworkConfig.permissive 0).committed (Blockchain.emptyTip 1)) :=
    Blockchain.addBlock_emptyTip (by decide) (Blockchain.emptyChain_committedRun 0 (by decide)).1 rfl rfl
  obtain ⟨hA, hAbelow, hsend⟩ := sendBlocks_of_addBlock_genesis hadd
  have hBbelow : (Blockchain.emptyChain 0).store.getBlockByHeight (UInt64.ofNat (2 ^ 63)) = none :=
    getBlockByHeight_genesisState_of_ne _ _ (by decide)
  have hbest : (Blockchain.emptyChain 0).store.getBestHeight = 0 := by decide
  have hle : (Blockchain.emptyChain 0).store.getBestHeight ≤ (Blockchain.emptyChain 1).store.getBestHeight := by
    decide
  have hshared : ∀ k : UInt64, (k.toNat : Int) ≤ (Blockchain.emptyChain 0).store.getBestHeight →
      (Blockchain.emptyChain 0).store.getBlockByHeight k = (Blockchain.emptyChain 1).store.getBlockByHeight k :=
    fun k hk => by
      rw [hbest] at hk
      have h0 : (0 : UInt64).toNat = 0 := rfl
      obtain rfl : k = 0 := UInt64.eq_iff_toNat_eq'.2 (by omega)
      exact (Blockchain.getBlockByHeight_committed_of_ne (by decide)).symm
  have hmsgs : Interleaved (Blockchain.emptyChain 0).getBestHeight.toNat
      (sendBlocks (Blockchain.emptyChain 1) ((Blockchain.emptyChain 0).getBestHeight + 1))
      [.block (Blockchain.emptyTip 1)] := by
    rw [show sendBlocks (Blockchain.emptyChain 1) ((Blockchain.emptyChain 0).getBestHeight + 1) =
      [.block (Blockchain.emptyTip 1)] from hsend]
    exact .next (.nil _)
  have hfit : ∀ m ∈ [Message.block (Blockchain.emptyTip 1)], Fits m.line := by
    simpa using fits_emptyTip_one
  exact ⟨hA, Blockchain.reachable_genesis_permissive, hAbelow, hBbelow, hle, hshared, hmsgs, hfit,
    sync_reaches_sender hA Blockchain.reachable_genesis_permissive hAbelow hBbelow hle hshared hmsgs hfit⟩

/-! ## A block longer than the scanner's buffer -/

/-- A Merkle root of four mebibytes of text. `validateBlock` never compares the root with
the block's transactions, and the permissive network sets no size limit. -/
def longRoot : String := String.mk (List.replicate maxScanTokenSize 'a')

def longBlock : Block :=
  Blockchain.forgeBlock (createGenesisBlock NetworkConfig.permissive 0) 1 0x2200FFFF longRoot []

theorem addBlock_longBlock : (genesisState NetworkConfig.permissive 0).addBlock longBlock .ok =
    (.ok (), (genesisState NetworkConfig.permissive 0).committed longBlock) :=
  Blockchain.addBlock_of_commit_ok
    (Blockchain.valid_forgeBlock (getBlockCount_genesisState _ _) rfl (by decide) (by decide) (by decide) rfl)
    (Store.commitBlock_of_keysValid _
      (Blockchain.keysValid_commitOf (Store.checkKey_computeHash _) fun _ h => absurd h (List.not_mem_nil _)))

theorem utf8ByteSize_string_replicate (n : Nat) :
    (Json.string (String.mk (List.replicate n 'a'))).utf8ByteSize = n + 2 := by
  have ha : (Json.escapeChar 'a').utf8ByteSize = 1 := by decide
  rw [Json.utf8ByteSize_string, show (String.mk (List.replicate n 'a')).toList = List.replicate n 'a' from rfl,
    List.map_replicate, ha, List.sum_replicate, Nat.nsmul_eq_mul, Nat.mul_one]

theorem utf8ByteSize_marshal_longBlock :
    maxScanTokenSize < longBlock.marshal.utf8ByteSize ∧ longBlock.marshal.utf8ByteSize ≤ 8 * 1024 * 1024 := by
  rw [utf8ByteSize_marshal_of_nil rfl]
  have hroot : (Json.string longBlock.header.merkleRoot).utf8ByteSize = maxScanTokenSize + 2 :=
    utf8ByteSize_string_replicate maxScanTokenSize
  have hprev := Json.utf8ByteSize_string_le longBlock.header.prevHash
  have hhash := Json.utf8ByteSize_string_le longBlock.hash
  have hlen : longBlock.header.prevHash.length = 64 ∧ longBlock.hash.length = 64 :=
    ⟨length_computeHash _, length_computeHash _⟩
  have hfields : (Json.int longBlock.header.version.toNat).utf8ByteSize = 1 ∧
      (Json.int longBlock.header.timestamp.toInt).utf8ByteSize = 1 ∧
      (Json.int longBlock.header.bits.toNat).utf8ByteSize = 9 ∧
      (Json.int longBlock.header.nonce.toNat).utf8ByteSize = 1 ∧
      (Json.int longBlock.header.height.toNat).utf8ByteSize = 1 := by decide
  have hmax : maxScanTokenSize = 4194304 := rfl
  omega

theorem not_fits_longBlock : ¬ Fits (Message.block longBlock).line := by
  rw [fits_block_iff]
  have := utf8ByteSize_marshal_longBlock.1
  omega

theorem long_block_stops_sync :
    Reachable NetworkConfig.permissive ((genesisState NetworkConfig.permissive 0).committed longBlock) ∧
      (genesisState NetworkConfig.permissive 0).store.getBlockByHeight 0 =
        ((genesisState NetworkConfig.permissive 0).committed longBlock).store.getBlockByHeight 0 ∧
      sendBlocks ((genesisState NetworkConfig.permissive 0).committed longBlock)
        ((genesisState NetworkConfig.permissive 0).getBestHeight + 1) = [.block longBlock] ∧
      ¬ Fits (Message.block longBlock).line ∧ longBlock.marshal.utf8ByteSize ≤ 8 * 1024 * 1024 ∧
      handlePeer (genesisState NetworkConfig.permissive 0) [(.block longBlock, .ok)] =
        genesisState NetworkConfig.permissive 0 ∧
      (genesisState NetworkConfig.permissive 0).store.getBlockByHeight 1 = none ∧
      ((genesisState NetworkConfig.permissive 0).committed longBlock).store.getBlockByHeight 1 = some longBlock := by
  obtain ⟨hreach, -, hsend⟩ := sendBlocks_of_addBlock_genesis addBlock_longBlock
  refine ⟨hreach, (Blockchain.getBlockByHeight_committed_of_ne (by decide)).symm, hsend, not_fits_longBlock,
    utf8ByteSize_marshal_longBlock.2, by rw [handlePeer, if_neg not_fits_longBlock], getBlockByHeight_genesisState_of_ne _ _ (by decide),
    Blockchain.getBlockByHeight_committed_self _ longBlock⟩

end Network

end DevInsiderCoin
