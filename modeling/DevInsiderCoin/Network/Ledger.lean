import DevInsiderCoin.Network.Agreement
import DevInsiderCoin.Network.Handshake
import DevInsiderCoin.Chain.History

/-! # One block producer, one ledger

A node's `GetBalance` and `GetTransactions` are what its stored blocks did, as long as every
`AddBlock` it ran either failed validation or committed (`committedRun_balance_history`). A
commit fails only on a disk error or on a key BoltDB refuses: an empty key, or one longer than
`bolt.MaxKeySize`. So when every disk works and every block that enters the network has keys
`CommitBlock` can write, each node stays such a run; and with one block producer every node
stores the producer's blocks (`single_producer_agreement`). Two nodes at the same best height
then store the same blocks and report the same ledger (`equal_height_same_ledger`).
-/

set_option autoImplicit false

namespace DevInsiderCoin

/-- The keys `CommitBlock` writes for a block on any chain: the block hash, each transaction
ID and each address a transaction moves (`keysValid_commitOf`). -/
def Block.KeysOk (b : Block) : Prop :=
  checkKey b.hash = .ok () ∧ ∀ tx ∈ b.transactions, checkKey tx.txID = .ok () ∧ ∀ a ∈ tx.touched, checkKey a = .ok ()

namespace Blockchain

/-! ## A node's ledger is its stored blocks -/

section Committed

variable {cfg : NetworkConfig} {n : Nat} {bc : Blockchain}

theorem CommittedRun.lt_of_below (h : CommittedRun cfg n bc)
    (hbelow : bc.store.getBlockByHeight (UInt64.ofNat (2 ^ 63)) = none) : n < 2 ^ 63 := by
  induction h with
  | genesis => exact Nat.two_pow_pos 63
  | submit tx _ ih => exact ih (by rwa [submit_store] at hbelow)
  | reject block disk _ _ ih => exact ih ((Network.ChainMove.addBlock _ block disk).below hbelow)
  | @commit n bc block disk hok hrun ih =>
    have hn := ih ((Network.ChainMove.addBlock _ block disk).below hbelow)
    rcases addBlock_cases bc block disk with ⟨-, -, hne⟩ | ⟨-, -, hne⟩ | ⟨hv, -, -, hs⟩
    · exact absurd hok hne
    · exact absurd hok hne
    have hheight : block.header.height = UInt64.ofNat (n + 1) :=
      hv.height.trans ((committedRun_persisted hrun hn.le).getBlockCount hn)
    by_contra hge
    rw [hs, show UInt64.ofNat (2 ^ 63) = block.header.height by rw [hheight, show n + 1 = 2 ^ 63 by omega],
      getBlockByHeight_committed_self] at hbelow
    exact Option.some_ne_none _ hbelow

theorem CommittedRun.addBlock_ok (h : CommittedRun cfg n bc) {b : Block} (hkeys : b.KeysOk) :
    ∃ n', CommittedRun cfg n' (bc.addBlock b .ok).2 := by
  by_cases hv : bc.Valid b
  · have hc := Store.commitBlock_of_keysValid bc.store
      (keysValid_commitOf hkeys.1 hkeys.2 : Store.KeysValid (bc.commitOf b))
    exact ⟨n + 1, .commit b .ok (by rw [addBlock_of_commit_ok hv hc]) h⟩
  · exact ⟨n, .reject b .ok hv h⟩

end Committed

theorem CommittedRun.ledger_eq {cfg cfg' : NetworkConfig} {n : Nat} {bc bc' : Blockchain}
    (h : CommittedRun cfg n bc) (h' : CommittedRun cfg' n bc') (hn : n < 2 ^ 63)
    (hsame : ∀ m ≤ n, bc.store.getBlockByHeight (UInt64.ofNat m) = bc'.store.getBlockByHeight (UInt64.ofNat m))
    (address : String) :
    bc.getBalance address = bc'.getBalance address ∧ bc.getTransactions address = bc'.getTransactions address := by
  have htx : ∀ m ∈ List.range (n + 1), heightTransactions bc.store address m = heightTransactions bc'.store address m :=
    fun m hm => by rw [heightTransactions, heightTransactions, hsame m (Nat.lt_succ_iff.1 (List.mem_range.1 hm))]
  have hcount : ∀ {c : NetworkConfig} {b : Blockchain}, CommittedRun c n b → b.store.getBlockCount.toNat = n + 1 :=
    fun hr => by
      rw [(committedRun_persisted hr hn.le).getBlockCount hn, UInt64.toNat_ofNat', Nat.mod_eq_of_lt (by omega)]
  constructor
  · rw [committedRun_balance_history h hn, committedRun_balance_history h' hn, historyDelta, historyDelta,
      List.flatMap_congr htx]
  · rw [getTransactions, getTransactions, hcount h, hcount h', List.flatMap_congr htx]

end Blockchain

namespace Network

namespace Net

/-! ## Every node a run of commits -/

/-- The network on a run with one producer and no failed write: sound, every node agreeing
with the producer, every stored block's keys writable, and every node's chain a run of
commits. -/
structure Settled (cfg : Nat → NetworkConfig) (p : Nat) (net : Net) : Prop where
  sound : Sound cfg net
  agree : Agree p net
  keys : ∀ i k b, (net.chain i).store.getBlockByHeight k = some b → b.KeysOk
  committed : ∀ i, ∃ n, Blockchain.CommittedRun (cfg i) n (net.chain i)

section Settled

variable {cfg : Nat → NetworkConfig} {p : Nat} {net : Net}

theorem Settled.step (h : Settled cfg p net) {e : Event}
    (hsubmit : ∀ i b disk, e = .submitBlock i b disk → i = p ∧ disk = .ok ∧ b.KeysOk)
    (hread : ∀ k disk, e = .read k disk → disk = .ok)
    (hbelow : ((net.step e).chain p).store.getBlockByHeight (UInt64.ofNat (2 ^ 63)) = none) :
    Settled cfg p (net.step e) := by
  have hall := h.agree.below ((chainMove_act net e p).below hbelow)
  refine ⟨h.sound.step e, h.agree.step h.sound (fun i b disk he => (hsubmit i b disk he).1) hbelow,
    fun i k b hb => ?_, fun i => ?_⟩
  · rcases stored_step_origin h.sound hall hb with ⟨j, hj⟩ | ⟨-, disk, he⟩
    · exact h.keys j k b hj
    · exact (hsubmit i b disk he).2.2
  · obtain ⟨n, hn⟩ := h.committed i
    rw [step_chain]
    rcases chain_act_cases net e i with heq | ⟨t, heq⟩ | ⟨b, disk, heq, horigin⟩ <;> rw [heq]
    · exact ⟨n, hn⟩
    · exact ⟨n, .submit t hn⟩
    · obtain ⟨rfl, hkeys⟩ : disk = .ok ∧ b.KeysOk := by
        rcases horigin with he | ⟨k, he, hk⟩
        · exact (hsubmit i b disk he).2
        · exact ⟨hread k disk he, h.keys _ _ b (h.sound.block k b hk (hall _))⟩
      exact hn.addBlock_ok hkeys

theorem Settled.run (h : Settled cfg p net) (events : List Event)
    (hsubmit : ∀ i b disk, Event.submitBlock i b disk ∈ events → i = p ∧ disk = .ok ∧ b.KeysOk)
    (hread : ∀ k disk, Event.read k disk ∈ events → disk = .ok)
    (hbelow : ((net.run events).chain p).store.getBlockByHeight (UInt64.ofNat (2 ^ 63)) = none) :
    Settled cfg p (net.run events) := by
  induction events generalizing net with
  | nil => exact h
  | cons e events ih =>
    exact ih (h.step (fun i b disk he => hsubmit i b disk (he ▸ List.mem_cons_self _ _))
        (fun k disk he => hread k disk (he ▸ List.mem_cons_self _ _)) (run_below (net.step e) events p hbelow))
      (fun i b disk hm => hsubmit i b disk (List.mem_cons_of_mem _ hm))
      (fun k disk hm => hread k disk (List.mem_cons_of_mem _ hm)) hbelow

theorem Settled.stored_upto (h : Settled cfg p net)
    (hbelow : (net.chain p).store.getBlockByHeight (UInt64.ofNat (2 ^ 63)) = none) (i : Nat) :
    ∃ n, n < 2 ^ 63 ∧ Blockchain.CommittedRun (cfg i) n (net.chain i) ∧ (net.chain i).getBestHeight = UInt64.ofNat n ∧
      ∀ m ≤ n, ∃ b, (net.chain i).store.getBlockByHeight (UInt64.ofNat m) = some b ∧
        (net.chain p).store.getBlockByHeight (UInt64.ofNat m) = some b := by
  obtain ⟨n, hn⟩ := h.committed i
  have hibelow := h.agree.below hbelow i
  have hlt := hn.lt_of_below hibelow
  have hbest := (Blockchain.committedRun_persisted hn hlt.le).getBestHeight hlt
  obtain ⟨best, hoff⟩ := reachable_offers hn.reachable hibelow
  refine ⟨n, hlt, hn, hbest, fun m hm => ?_⟩
  have hle : UInt64.ofNat m ≤ best := by
    rw [← hoff.getBestHeight_eq, hbest, UInt64.le_iff_toNat_le', UInt64.toNat_ofNat', UInt64.toNat_ofNat']
    rw [Nat.mod_eq_of_lt (by omega), Nat.mod_eq_of_lt (by omega)]
    exact hm
  obtain ⟨b, hb, -⟩ := hoff.chain.stored _ hle
  exact ⟨b, hb, h.agree i _ b hb⟩

end Settled

/-! ## Equal heights, equal ledgers -/

/-- With one block producer and no failed write, two nodes at one best height hold one ledger. -/
theorem equal_height_same_ledger {cfg : Nat → NetworkConfig} {chain : Nat → Blockchain} {p : Nat}
    (hrun : ∀ i, ∃ n, Blockchain.CommittedRun (cfg i) n (chain i))
    (hstart : ∀ i k b, (chain i).store.getBlockByHeight k = some b → (chain p).store.getBlockByHeight k = some b)
    (hkeys : ∀ i k b, (chain i).store.getBlockByHeight k = some b → b.KeysOk)
    (events : List Event)
    (hsubmit : ∀ i b disk, Event.submitBlock i b disk ∈ events → i = p ∧ disk = .ok ∧ b.KeysOk)
    (hread : ∀ k disk, Event.read k disk ∈ events → disk = .ok)
    (hbelow : (((init chain).run events).chain p).store.getBlockByHeight (UInt64.ofNat (2 ^ 63)) = none)
    {i j : Nat}
    (hbest : (((init chain).run events).chain i).getBestHeight = (((init chain).run events).chain j).getBestHeight)
    (address : String) :
    (((init chain).run events).chain i).getBalance address = (((init chain).run events).chain j).getBalance address ∧
      (((init chain).run events).chain i).getTransactions address =
        (((init chain).run events).chain j).getTransactions address := by
  have hs : Settled cfg p ((init chain).run events) :=
    Settled.run ⟨sound_init fun i => (hrun i).elim fun _ hr => hr.reachable, hstart, hkeys, hrun⟩ events hsubmit hread
      hbelow
  obtain ⟨n, hn, hruni, hbesti, hi⟩ := hs.stored_upto hbelow i
  obtain ⟨n', hn', hrunj, hbestj, hj⟩ := hs.stored_upto hbelow j
  obtain rfl : n = n' := by
    rw [hbesti, hbestj, UInt64.eq_iff_toNat_eq', UInt64.toNat_ofNat', UInt64.toNat_ofNat'] at hbest
    rwa [Nat.mod_eq_of_lt (by omega), Nat.mod_eq_of_lt (by omega)] at hbest
  refine Blockchain.CommittedRun.ledger_eq hruni hrunj hn (fun m hm => ?_) address
  obtain ⟨b, hb, hbp⟩ := hi m hm
  obtain ⟨b', hb', hbp'⟩ := hj m hm
  rw [hb, hb', ← Option.some.inj (hbp.symm.trans hbp')]

theorem keysOk_genesisState (cfg : NetworkConfig) (now : BitVec 64) {k : UInt64} {b : Block}
    (hb : (genesisState cfg now).store.getBlockByHeight k = some b) : b.KeysOk := by
  by_cases hk : k = 0
  · rw [hk, ← (Blockchain.storedChain_genesisState cfg now).tip] at hb
    obtain rfl := Option.some.inj hb.symm
    refine ⟨Store.checkKey_computeHash _, fun tx htx => ?_⟩
    simp only [createGenesisBlock, List.mem_singleton] at htx
    subst htx
    refine ⟨Store.checkKey_computeTxID _, fun a ha => ?_⟩
    simp only [Transaction.touched, List.map, List.mem_singleton, true_or, if_pos] at ha
    rw [ha]
    rfl
  · rw [getBlockByHeight_genesisState_of_ne cfg now hk] at hb
    exact absurd hb (Option.some_ne_none _).symm

theorem chain_write_read_block {net : Net} {Q : List (Nat × Packet)} {j : Nat} {b : Block}
    (hpend : net.pending = Q ++ [(j, .block b)]) (hj : j < net.opened) (hup : (net.chan j).up)
    (hq : (net.chan j).queue = []) (hfit : Fits (Packet.block b).line) (disk : Disk) :
    ((net.step (.write Q.length)).step (.read j disk)).chain =
      Function.update net.chain (net.chan j).dst (handleMessage (net.chain (net.chan j).dst) disk (.block b)) := by
  rw [step_write_split hpend hj hup, @step_read_cons _ j (.block b) [] ?_ ?_ ?_ hfit disk]
  · simp only [receive_block_chain, setChan_chain, setChan_chan, if_pos]
  · exact hj
  · simpa using hup
  · simp [hq]

def pairDelivered : List Event := pairRun ++ [.write 2, .read 0 .ok]

theorem pairDelivered_chain :
    (pairStart.run pairDelivered).chain 0 = Blockchain.emptyChain 1 ∧
      (pairStart.run pairDelivered).chain 1 = Blockchain.emptyChain 1 := by
  have hadd : ∀ i, ((pairStart.step (.connect 0 1)).chain i).addBlock (Blockchain.emptyTip 1) .ok =
      (.ok (), Blockchain.emptyChain 1) := fun _ =>
    Blockchain.addBlock_emptyTip (by decide) (Blockchain.emptyChain_committedRun 0 (by decide)).1 rfl rfl
  have hrun : pairStart.run pairRun = { (pairStart.step (.connect 0 1)).setChain 0 (Blockchain.emptyChain 1) with
      pending := (pairStart.step (.connect 0 1)).pending ++ [(0, .block (Blockchain.emptyTip 1))] } := by
    rw [pairRun, run_cons, run_cons, run_nil, step_submitBlock_of_ok (hadd 0)]
    rfl
  have hchan : (pairStart.run pairRun).chan 0 = ⟨0, 1, 1, true, []⟩ := by rw [hrun]; rfl
  have hchain : (pairStart.run pairRun).chain = Function.update pairStart.chain 0 (Blockchain.emptyChain 1) := by
    rw [hrun]; rfl
  have hlen : (pairStart.step (.connect 0 1)).pending.length = 2 := rfl
  rw [pairDelivered, run_append, run_cons, run_cons, run_nil, ← hlen,
    chain_write_read_block (by rw [hrun]) (by rw [hrun]; decide) (by rw [hchan]) (by rw [hchan]) fits_emptyTip_one,
    hchan, hchain]
  have hmsg : handleMessage (genesisState NetworkConfig.permissive 0) .ok (.block (Blockchain.emptyTip 1)) =
      Blockchain.emptyChain 1 := by
    rw [handleMessage, if_neg, show (genesisState NetworkConfig.permissive 0).addBlock (Blockchain.emptyTip 1) .ok =
      (.ok (), Blockchain.emptyChain 1) from hadd 1]
    rw [Blockchain.emptyTip_height, (Blockchain.persisted_genesisState _ _).getBestHeight (by decide)]
    decide
  dsimp only
  rw [Function.update_noteq (show 1 ≠ 0 by decide), show pairStart.chain 1 = genesisState NetworkConfig.permissive 0
    from rfl, hmsg]
  exact ⟨by rw [Function.update_noteq (by decide), Function.update_same], Function.update_same _ _ _⟩

theorem single_producer_agreement_delivered :
    (∀ _ : Nat, Reachable NetworkConfig.permissive (genesisState NetworkConfig.permissive 0)) ∧
      (∀ (_ : Nat) k b, (genesisState NetworkConfig.permissive 0).store.getBlockByHeight k = some b →
        (genesisState NetworkConfig.permissive 0).store.getBlockByHeight k = some b) ∧
      (∀ i b disk, Event.submitBlock i b disk ∈ pairDelivered → i = 0) ∧
      ((pairStart.run pairDelivered).chain 0).store.getBlockByHeight (UInt64.ofNat (2 ^ 63)) = none ∧
      ((pairStart.run pairDelivered).chain 1).store.getBlockByHeight 1 = some (Blockchain.emptyTip 1) ∧
      ((pairStart.run pairDelivered).chain 0).store.getBlockByHeight 1 = some (Blockchain.emptyTip 1) := by
  have honly : ∀ i b disk, Event.submitBlock i b disk ∈ pairDelivered → i = 0 := fun i b disk hm => by
    simp only [pairDelivered, pairRun, List.cons_append, List.nil_append, List.mem_cons, Event.submitBlock.injEq,
      List.not_mem_nil, or_false, reduceCtorEq, false_or] at hm
    exact hm.1
  have hstored : (Blockchain.emptyChain 1).store.getBlockByHeight 1 = some (Blockchain.emptyTip 1) :=
    Blockchain.getBlockByHeight_emptyChain (by decide) (by decide) Nat.one_pos
  have hbelow : ((pairStart.run pairDelivered).chain 0).store.getBlockByHeight (UInt64.ofNat (2 ^ 63)) = none := by
    rw [pairDelivered_chain.1, Blockchain.getBlockByHeight_emptyChain (k := 1) (by decide) (by decide)
      (Nat.two_pow_pos 63), if_neg (by decide)]
  have h1 : ((pairStart.run pairDelivered).chain 1).store.getBlockByHeight 1 = some (Blockchain.emptyTip 1) := by
    rw [pairDelivered_chain.2, hstored]
  refine ⟨fun _ => Blockchain.reachable_genesis_permissive, fun _ _ _ hb => hb, honly, hbelow, h1, ?_⟩
  -- The theorem's start is written as an init, not as the name pairStart: the kernel then checks
  -- the two stores without running the network.
  have hinit : pairStart = init fun _ => genesisState NetworkConfig.permissive 0 := rfl
  rw [hinit] at hbelow h1 ⊢
  exact single_producer_agreement (fun _ => Blockchain.reachable_genesis_permissive) (fun _ _ _ hb => hb) pairDelivered
    honly hbelow h1

theorem equal_height_same_ledger_delivered :
    (∀ _ : Nat, ∃ n, Blockchain.CommittedRun NetworkConfig.permissive n (genesisState NetworkConfig.permissive 0)) ∧
      (∀ (_ : Nat) k b, (genesisState NetworkConfig.permissive 0).store.getBlockByHeight k = some b →
        (genesisState NetworkConfig.permissive 0).store.getBlockByHeight k = some b) ∧
      (∀ (_ : Nat) k b, (genesisState NetworkConfig.permissive 0).store.getBlockByHeight k = some b → b.KeysOk) ∧
      (∀ i b disk, Event.submitBlock i b disk ∈ pairDelivered → i = 0 ∧ disk = .ok ∧ b.KeysOk) ∧
      (∀ k disk, Event.read k disk ∈ pairDelivered → disk = .ok) ∧
      ((pairStart.run pairDelivered).chain 0).store.getBlockByHeight (UInt64.ofNat (2 ^ 63)) = none ∧
      ((pairStart.run pairDelivered).chain 0).getBestHeight = ((pairStart.run pairDelivered).chain 1).getBestHeight ∧
      ((pairStart.run pairDelivered).chain 0).getBalance "genesis" =
          ((pairStart.run pairDelivered).chain 1).getBalance "genesis" ∧
        ((pairStart.run pairDelivered).chain 0).getTransactions "genesis" =
          ((pairStart.run pairDelivered).chain 1).getTransactions "genesis" := by
  have hrun : ∀ _ : Nat, ∃ n, Blockchain.CommittedRun NetworkConfig.permissive n (genesisState NetworkConfig.permissive 0) :=
    fun _ => ⟨0, .genesis 0 (fun _ => .ok) .ok (newBlockchain_empty.2 ⟨rfl, rfl⟩)⟩
  have hkeys : ∀ (_ : Nat) k b, (genesisState NetworkConfig.permissive 0).store.getBlockByHeight k = some b →
      b.KeysOk := fun _ _ _ hb => keysOk_genesisState _ _ hb
  have hsubmit : ∀ i b disk, Event.submitBlock i b disk ∈ pairDelivered → i = 0 ∧ disk = .ok ∧ b.KeysOk := by
    intro i b disk hm
    simp only [pairDelivered, pairRun, List.cons_append, List.nil_append, List.mem_cons, Event.submitBlock.injEq,
      List.not_mem_nil, or_false, reduceCtorEq, false_or] at hm
    obtain ⟨rfl, rfl, rfl⟩ := hm
    exact ⟨rfl, rfl, Store.checkKey_computeHash _, fun tx htx => absurd htx (List.not_mem_nil _)⟩
  have hread : ∀ k disk, Event.read k disk ∈ pairDelivered → disk = .ok := by
    intro k disk hm
    simp only [pairDelivered, pairRun, List.cons_append, List.nil_append, List.mem_cons, Event.read.injEq,
      List.not_mem_nil, or_false, reduceCtorEq, false_or] at hm
    exact hm.2
  have hbelow : ((pairStart.run pairDelivered).chain 0).store.getBlockByHeight (UInt64.ofNat (2 ^ 63)) = none := by
    rw [pairDelivered_chain.1, Blockchain.getBlockByHeight_emptyChain (k := 1) (by decide) (by decide)
      (Nat.two_pow_pos 63), if_neg (by decide)]
  have hbest : ((pairStart.run pairDelivered).chain 0).getBestHeight =
      ((pairStart.run pairDelivered).chain 1).getBestHeight := by
    rw [pairDelivered_chain.1, pairDelivered_chain.2]
  refine ⟨hrun, fun _ _ _ hb => hb, hkeys, hsubmit, hread, hbelow, hbest, ?_⟩
  -- The theorem's start is written as an init, not as the name pairStart: the kernel then checks
  -- the two ledgers without running the network.
  have hinit : pairStart = init fun _ => genesisState NetworkConfig.permissive 0 := rfl
  rw [hinit] at hbelow hbest ⊢
  exact equal_height_same_ledger hrun (fun _ _ _ hb => hb) hkeys pairDelivered hsubmit hread hbelow hbest "genesis"

end Net

end Network

end DevInsiderCoin
