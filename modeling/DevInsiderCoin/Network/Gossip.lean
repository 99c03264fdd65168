import DevInsiderCoin.Network
import DevInsiderCoin.Chain.Mempool
import DevInsiderCoin.Commitment

/-! # The peer network

`node.go` runs a read loop per TCP connection: `version`, `verack` and `getblocks` to catch
up, `block` lines to `AddBlock` (relayed once committed), `tx` lines to `AddToMempool`. The
RPC server's `submitblock` and wallet endpoints are the other sources. The network is every
node's chain and every connection's two channels, with a step per event: a connection opened,
a line read or written, a connection lost, an RPC call. Chain calls are atomic, as
`Blockchain`'s mutex makes them; the lines a step sends wait as pending writes, written one
per step in any order, so every interleaving of the program is a run here. Lines that do not
decode and the peer map's keying are left out; `OnNewBlock` is `nil` in `main.go`.
-/

set_option autoImplicit false

namespace DevInsiderCoin

namespace Network

/-! ## Lines -/

inductive Packet where
  | version (version : UInt32) (height : UInt64) (networkID : UInt32)
  | verack
  | getblocks (fromHeight : UInt64)
  | block (b : Block)
  | tx (t : Transaction)

/-- `Peer.Send`'s line: `json.Marshal(Message{Type, Payload})`. -/
def Packet.line : Packet → String
  | .version v h n => Json.object [("type", Json.string "version"),
      ("payload", Json.object [("version", Json.int v.toNat), ("height", Json.int h.toNat),
        ("network_id", Json.int n.toNat)])]
  | .verack => Json.object [("type", Json.string "verack"), ("payload", Json.object [])]
  | .getblocks f => Json.object [("type", Json.string "getblocks"),
      ("payload", Json.object [("from_height", Json.int f.toNat)])]
  | .block b => (Message.block b).line
  | .tx t => (Message.tx t).line

/-! ## The network -/

/-- One direction of a TCP connection: the lines `src` wrote and `dst`'s read loop has not
read yet. `back` is the channel of the same connection the other way, on which `dst`
answers. A connection lost or dropped by a read loop is down in both directions, with the
lines in flight lost. -/
structure Chan where
  src : Nat
  dst : Nat
  back : Nat
  up : Bool
  queue : List Packet

/-- The nodes' chains, the channels opened so far (`0` to `opened - 1`), and the writes
handlers and RPC calls have issued and not yet made, each a channel and a line. -/
structure Net where
  chain : Nat → Blockchain
  chan : Nat → Chan
  opened : Nat
  pending : List (Nat × Packet)

namespace Net

def init (chain : Nat → Blockchain) : Net := ⟨chain, fun _ => ⟨0, 0, 0, false, []⟩, 0, []⟩

def outChans (net : Net) (node : Nat) : List Nat :=
  (List.range net.opened).filter fun k => (net.chan k).up ∧ (net.chan k).src = node

/-- The `version` a node sends: its `ProtocolVersion`, best height and `NetworkID`. -/
def versionOf (net : Net) (node : Nat) : Packet :=
  .version (net.chain node).config.protocolVersion (net.chain node).getBestHeight
    (net.chain node).config.networkID

def setChain (net : Net) (node : Nat) (bc : Blockchain) : Net :=
  { net with chain := Function.update net.chain node bc }

def setChan (net : Net) (k : Nat) (ch : Chan) : Net :=
  { net with chan := Function.update net.chan k ch }

/-- A connection lost, or dropped by the read loop of channel `k`: both directions go down
and what they held is lost. -/
def close (net : Net) (k : Nat) : Net :=
  let back := (net.chan k).back
  let net := net.setChan k { net.chan k with up := false, queue := [] }
  net.setChan back { net.chan back with up := false, queue := [] }

/-- `handleMessage` of the line `p` read on channel `k`: what it does to the receiver's chain,
and the lines it sends, each on a channel. -/
def receive (net : Net) (k : Nat) (disk : Disk) : Packet → Net × List (Nat × Packet)
  | .version _ height _ =>
    let ch := net.chan k
    let best := (net.chain ch.dst).getBestHeight
    (net, (ch.back, .verack) :: if height > best then [(ch.back, .getblocks (best + 1))] else [])
  | .verack => (net, [])
  | .getblocks fromHeight =>
    let ch := net.chan k
    (net, ((net.chain ch.dst).getBlocks fromHeight).map fun b => (ch.back, .block b))
  | .block b =>
    let ch := net.chan k
    let bc := net.chain ch.dst
    if b.header.height ≤ bc.getBestHeight then (net, [])
    else
      match bc.addBlock b disk with
      | (.ok (), bc') => (net.setChain ch.dst bc', ((net.outChans ch.dst).filter (· ≠ ch.back)).map (·, .block b))
      | (.error _, bc') => (net.setChain ch.dst bc', [])
  | .tx t => let ch := net.chan k; (net.setChain ch.dst ((net.chain ch.dst).submit t), [])

/-- The read loop of channel `k` takes its next line: a line too long for the scanner ends
the loop, which drops the peer and closes the connection. -/
def read (net : Net) (k : Nat) (disk : Disk) : Net × List (Nat × Packet) :=
  let ch := net.chan k
  if k < net.opened ∧ ch.up then
    match ch.queue with
    | [] => (net, [])
    | p :: rest =>
      let net := net.setChan k { ch with queue := rest }
      if Fits p.line then net.receive k disk p else (net.close k, [])
  else (net, [])

/-- The `i`-th pending `Peer.Send` writes its line; on a connection that is down it fails. -/
def write (net : Net) (i : Nat) : Net :=
  match net.pending[i]? with
  | none => net
  | some (k, p) =>
    let net := { net with pending := net.pending.eraseIdx i }
    let ch := net.chan k
    if k < net.opened ∧ ch.up then net.setChan k { ch with queue := ch.queue ++ [p] } else net

/-- `ConnectPeer` from `dialer` accepted by `acceptor`: two channels, and each side's
`version`. -/
def connect (net : Net) (dialer acceptor : Nat) : Net × List (Nat × Packet) :=
  let k := net.opened
  let net := { net with opened := k + 2 }
  let net := net.setChan k ⟨dialer, acceptor, k + 1, true, []⟩
  let net := net.setChan (k + 1) ⟨acceptor, dialer, k, true, []⟩
  (net, [(k, net.versionOf dialer), (k + 1, net.versionOf acceptor)])

/-- `submitblock`: `AddBlock`, and on success `BroadcastBlock` to every peer. -/
def submitBlock (net : Net) (node : Nat) (b : Block) (disk : Disk) : Net × List (Nat × Packet) :=
  match (net.chain node).addBlock b disk with
  | (.ok (), bc') => (net.setChain node bc', (net.outChans node).map (·, .block b))
  | (.error _, bc') => (net.setChain node bc', [])

/-- A wallet endpoint (`send`, `stake`, `unstake`): `AddToMempool`, and `BroadcastTx` to
every peer when the transaction is admitted. -/
def submitTx (net : Net) (node : Nat) (t : Transaction) : Net × List (Nat × Packet) :=
  match (net.chain node).addToMempool t with
  | .ok bc' => (net.setChain node bc', (net.outChans node).map (·, .tx t))
  | .error _ => (net, [])

end Net

inductive Event where
  | connect (dialer acceptor : Nat)
  | read (k : Nat) (disk : Disk)
  | write (i : Nat)
  | drop (k : Nat)
  | submitBlock (node : Nat) (b : Block) (disk : Disk)
  | submitTx (node : Nat) (t : Transaction)

namespace Net

def act (net : Net) : Event → Net × List (Nat × Packet)
  | .connect d a => net.connect d a
  | .read k disk => net.read k disk
  | .write i => (net.write i, [])
  | .drop k => (if k < net.opened then net.close k else net, [])
  | .submitBlock node b disk => net.submitBlock node b disk
  | .submitTx node t => net.submitTx node t

def step (net : Net) (e : Event) : Net :=
  { (net.act e).1 with pending := (net.act e).1.pending ++ (net.act e).2 }

def run (net : Net) (events : List Event) : Net := events.foldl step net

/-! ## What a step can do -/

@[simp] theorem setChain_chain (net : Net) (node : Nat) (bc : Blockchain) (i : Nat) :
    (net.setChain node bc).chain i = if i = node then bc else net.chain i :=
  Function.update_apply _ _ _ _

@[simp] theorem setChain_chan (net : Net) (node : Nat) (bc : Blockchain) : (net.setChain node bc).chan = net.chan := rfl

@[simp] theorem setChain_opened (net : Net) (node : Nat) (bc : Blockchain) :
    (net.setChain node bc).opened = net.opened := rfl

@[simp] theorem setChain_pending (net : Net) (node : Nat) (bc : Blockchain) :
    (net.setChain node bc).pending = net.pending := rfl

@[simp] theorem setChain_outChans (net : Net) (node : Nat) (bc : Blockchain) :
    (net.setChain node bc).outChans = net.outChans := rfl

@[simp] theorem setChan_chan (net : Net) (k : Nat) (ch : Chan) (j : Nat) :
    (net.setChan k ch).chan j = if j = k then ch else net.chan j :=
  Function.update_apply _ _ _ _

@[simp] theorem setChan_chain (net : Net) (k : Nat) (ch : Chan) : (net.setChan k ch).chain = net.chain := rfl

@[simp] theorem setChan_opened (net : Net) (k : Nat) (ch : Chan) : (net.setChan k ch).opened = net.opened := rfl

@[simp] theorem setChan_pending (net : Net) (k : Nat) (ch : Chan) : (net.setChan k ch).pending = net.pending := rfl

@[simp] theorem close_chain (net : Net) (k : Nat) : (net.close k).chain = net.chain := rfl

@[simp] theorem close_opened (net : Net) (k : Nat) : (net.close k).opened = net.opened := rfl

@[simp] theorem close_pending (net : Net) (k : Nat) : (net.close k).pending = net.pending := rfl

@[simp] theorem write_chain (net : Net) (i : Nat) : (net.write i).chain = net.chain := by
  unfold write
  split
  · rfl
  · dsimp only
    split <;> rfl

theorem read_cases (net : Net) (k : Nat) (disk : Disk) :
    net.read k disk = (net, []) ∨
    ∃ p rest, k < net.opened ∧ (net.chan k).queue = p :: rest ∧
      (net.read k disk = (net.setChan k { net.chan k with queue := rest }).receive k disk p ∨
        net.read k disk = ((net.setChan k { net.chan k with queue := rest }).close k, [])) := by
  by_cases hg : k < net.opened ∧ (net.chan k).up
  · cases hq : (net.chan k).queue with
    | nil => exact .inl (by simp only [read, if_pos hg, hq])
    | cons p rest =>
      refine .inr ⟨p, rest, hg.1, rfl, ?_⟩
      by_cases hfit : Fits p.line
      · exact .inl (by simp only [read, if_pos hg, hq, if_pos hfit])
      · exact .inr (by simp only [read, if_pos hg, hq, if_neg hfit])
  · exact .inl (by simp only [read, if_neg hg])

@[simp] theorem connect_opened (net : Net) (d a : Nat) : (net.connect d a).1.opened = net.opened + 2 := rfl

theorem connect_chan_opened (net : Net) (d a : Nat) :
    (net.connect d a).1.chan net.opened = ⟨d, a, net.opened + 1, true, []⟩ := by
  simp [connect]

theorem step_submitBlock_of_ok {net : Net} {node : Nat} {b : Block} {disk : Disk} {bc' : Blockchain}
    (h : (net.chain node).addBlock b disk = (.ok (), bc')) :
    net.step (.submitBlock node b disk) =
      { net.setChain node bc' with pending := net.pending ++ (net.outChans node).map (·, .block b) } := by
  simp only [step, act, submitBlock, h]
  rfl

theorem step_submitTx_of_ok {net : Net} {node : Nat} {t : Transaction} {bc' : Blockchain}
    (h : (net.chain node).addToMempool t = .ok bc') :
    net.step (.submitTx node t) =
      { net.setChain node bc' with pending := net.pending ++ (net.outChans node).map (·, .tx t) } := by
  simp only [step, act, submitTx, h]
  rfl

end Net

/-- What one event can do to a node's chain: nothing, `AddToMempool`, or `AddBlock`. -/
inductive ChainMove : Blockchain → Blockchain → Prop
  | stay (bc : Blockchain) : ChainMove bc bc
  | submit (bc : Blockchain) (t : Transaction) : ChainMove bc (bc.submit t)
  | addBlock (bc : Blockchain) (b : Block) (disk : Disk) : ChainMove bc (bc.addBlock b disk).2

theorem ChainMove.of_addBlock_eq {bc bc' : Blockchain} {b : Block} {disk : Disk}
    {result : Except AddBlockError Unit} (h : bc.addBlock b disk = (result, bc')) : ChainMove bc bc' := by
  have hm := ChainMove.addBlock bc b disk
  rwa [h] at hm

theorem ChainMove.reachable {cfg : NetworkConfig} {bc bc' : Blockchain} (hm : ChainMove bc bc')
    (h : Reachable cfg bc) : Reachable cfg bc' := by
  cases hm with
  | stay => exact h
  | submit t => exact .submit t h
  | addBlock b disk => exact .addBlock b disk h

theorem ChainMove.below {bc bc' : Blockchain} (hm : ChainMove bc bc')
    (hbelow : bc'.store.getBlockByHeight (UInt64.ofNat (2 ^ 63)) = none) :
    bc.store.getBlockByHeight (UInt64.ofNat (2 ^ 63)) = none := by
  cases hm with
  | stay => exact hbelow
  | submit t => rwa [Blockchain.submit_store] at hbelow
  | addBlock b disk =>
    rcases Blockchain.addBlock_cases bc b disk with ⟨-, hs, -⟩ | ⟨-, hs, -⟩ | ⟨-, -, -, hs⟩ <;> rw [hs] at hbelow
    · exact hbelow
    · rwa [Blockchain.applied_store] at hbelow
    · exact (Blockchain.below_of_committed_below hbelow).2

theorem ChainMove.getBlockByHeight {cfg : NetworkConfig} {bc bc' : Blockchain} (hm : ChainMove bc bc')
    (hr : Reachable cfg bc) (hbelow : bc'.store.getBlockByHeight (UInt64.ofNat (2 ^ 63)) = none)
    {height : UInt64} {b : Block} (hb : bc.store.getBlockByHeight height = some b) :
    bc'.store.getBlockByHeight height = some b := by
  cases hm with
  | stay => exact hb
  | submit t => rwa [Blockchain.submit_store]
  | addBlock block disk =>
    rcases Blockchain.addBlock_cases bc block disk with ⟨-, hs, -⟩ | ⟨-, hs, -⟩ | ⟨hv, -, -, hs⟩ <;>
      rw [hs] at hbelow ⊢
    · exact hb
    · rwa [Blockchain.applied_store]
    · obtain ⟨-, -, -, -, hfresh⟩ :=
        (Blockchain.reachable_hashIndexSound hr (Blockchain.below_of_committed_below hbelow).2).fresh hv
      have hmem : Store.heightKey height ∈ bc.store.blocks := AList.lookup_isSome.1 (by
        rw [← Store.getBlockByHeight, hb]; rfl)
      rw [Blockchain.getBlockByHeight_committed_of_ne fun heq => hfresh (heq ▸ hmem)]
      exact hb

theorem Offers.stored_of_mem_getBlocks {cfg : NetworkConfig} {bc : Blockchain} {best : UInt64}
    (h : Offers cfg bc best) {start : UInt64} {b : Block} (hb : b ∈ bc.getBlocks start) :
    bc.store.getBlockByHeight b.header.height = some b := by
  rw [Blockchain.getBlocks, Store.getBlocksFrom_of_keys h.keys] at hb
  obtain ⟨n, hn, hget⟩ := List.mem_filterMap.1 hb
  have hle : UInt64.ofNat n ≤ best := by
    rw [List.mem_range'_1] at hn
    rw [UInt64.le_iff_toNat_le', UInt64.toNat_ofNat']
    exact (Nat.mod_le _ _).trans (by omega)
  obtain ⟨b', hb', hheight⟩ := h.chain.stored _ hle
  obtain rfl : b = b' := Option.some.inj (hget.symm.trans hb')
  rw [hheight]
  exact hget

theorem mem_mempool_submit {bc : Blockchain} {t t' : Transaction} (h : t ∈ (bc.submit t').mempool) :
    t ∈ bc.mempool ∨ t = t' := by
  rcases Blockchain.submit_cases bc t' with ⟨-, hs⟩ | ⟨-, hs⟩ <;> rw [hs] at h
  · simpa using h
  · exact .inl h

theorem mem_mempool_addBlock {bc : Blockchain} {b : Block} {disk : Disk} {t : Transaction}
    (h : t ∈ (bc.addBlock b disk).2.mempool) : t ∈ bc.mempool := by
  rcases Blockchain.addBlock_cases bc b disk with ⟨-, hs, -⟩ | ⟨-, hs, -⟩ | ⟨-, -, -, hs⟩ <;> rw [hs] at h
  · exact h
  · rwa [Blockchain.applied_mempool] at h
  · rw [Blockchain.committed_mempool] at h
    exact List.mem_of_mem_filter h

namespace Net

theorem chainMove_setChain (net : Net) {node : Nat} {bc : Blockchain} (h : ChainMove (net.chain node) bc)
    (i : Nat) : ChainMove (net.chain i) ((net.setChain node bc).chain i) := by
  rw [setChain_chain]
  split
  · subst i; exact h
  · exact .stay _

theorem chainMove_receive (net : Net) (k : Nat) (disk : Disk) (p : Packet) (i : Nat) :
    ChainMove (net.chain i) ((net.receive k disk p).1.chain i) := by
  cases p with
  | block b =>
    simp only [receive]
    split
    · exact .stay _
    · rcases h : (net.chain (net.chan k).dst).addBlock b disk with ⟨_ | _, bc'⟩ <;>
        exact net.chainMove_setChain (.of_addBlock_eq h) i
  | tx t => exact net.chainMove_setChain (.submit _ t) i
  | _ => exact .stay _

theorem chainMove_act (net : Net) (e : Event) (i : Nat) : ChainMove (net.chain i) ((net.act e).1.chain i) := by
  cases e with
  | read k disk =>
    rcases read_cases net k disk with h | ⟨p, rest, -, -, h | h⟩ <;> simp only [act, h]
    · exact .stay _
    · exact chainMove_receive (net.setChan k { net.chan k with queue := rest }) k disk p i
    · exact .stay _
  | write j =>
    simp only [act, write_chain]
    exact .stay _
  | drop k =>
    simp only [act]
    split <;> exact .stay _
  | submitBlock node b disk =>
    simp only [act, submitBlock]
    rcases h : (net.chain node).addBlock b disk with ⟨_ | _, bc'⟩ <;>
      exact net.chainMove_setChain (.of_addBlock_eq h) i
  | submitTx node t =>
    simp only [act, submitTx]
    split
    · rename_i bc' h
      have hs : (net.chain node).submit t = bc' := by rw [Blockchain.submit, h]
      exact net.chainMove_setChain (hs ▸ .submit _ t) i
    · exact .stay _
  | connect d a => exact .stay _

/-! ## What a step does to the channels -/

def InFlight (net : Net) (k : Nat) (p : Packet) : Prop := p ∈ (net.chan k).queue ∨ (k, p) ∈ net.pending

def Linked (net : Net) (k : Nat) : Prop :=
  (net.chan k).back < net.opened ∧ (net.chan (net.chan k).back).src = (net.chan k).dst

def WellLinked (net : Net) : Prop := ∀ k < net.opened, net.Linked k

/-- What an event does to the channels before its own lines go out: the channels opened stay
opened with the same ends, the ones it opens are linked, and every line in flight was in
flight before. -/
structure Keeps (net net' : Net) : Prop where
  opened : net.opened ≤ net'.opened
  src : ∀ k < net.opened, (net'.chan k).src = (net.chan k).src
  dst : ∀ k < net.opened, (net'.chan k).dst = (net.chan k).dst
  back : ∀ k < net.opened, (net'.chan k).back = (net.chan k).back
  fresh : ∀ k, net.opened ≤ k → k < net'.opened → net'.Linked k
  inFlight : ∀ k p, net'.InFlight k p → net.InFlight k p

theorem Keeps.linked {net net' : Net} (h : Keeps net net') {k : Nat} (hk : k < net.opened) (hl : net.Linked k) :
    net'.Linked k :=
  ⟨by rw [h.back k hk]; exact lt_of_lt_of_le hl.1 h.opened, by rw [h.back k hk, h.src _ hl.1, h.dst k hk]; exact hl.2⟩

theorem Keeps.wellLinked {net net' : Net} (h : Keeps net net') (hw : net.WellLinked) : net'.WellLinked :=
  fun k hk => if hk₀ : k < net.opened then h.linked hk₀ (hw k hk₀) else h.fresh k (not_lt.1 hk₀) hk

theorem Keeps.of_chan {net net' : Net} (hopened : net'.opened = net.opened) (hchan : net'.chan = net.chan)
    (hin : ∀ k p, net'.InFlight k p → net.InFlight k p) : Keeps net net' :=
  ⟨hopened.ge, fun _ _ => by rw [hchan], fun _ _ => by rw [hchan], fun _ _ => by rw [hchan],
    fun _ h₁ h₂ => absurd h₂ (not_lt.2 (hopened ▸ h₁)), hin⟩

theorem Keeps.refl (net : Net) : Keeps net net := .of_chan rfl rfl fun _ _ => id

theorem Keeps.trans {a b c : Net} (h₁ : Keeps a b) (h₂ : Keeps b c) : Keeps a c where
  opened := h₁.opened.trans h₂.opened
  src k hk := (h₂.src k (lt_of_lt_of_le hk h₁.opened)).trans (h₁.src k hk)
  dst k hk := (h₂.dst k (lt_of_lt_of_le hk h₁.opened)).trans (h₁.dst k hk)
  back k hk := (h₂.back k (lt_of_lt_of_le hk h₁.opened)).trans (h₁.back k hk)
  fresh k hak hkc :=
    if hkb : k < b.opened then h₂.linked hkb (h₁.fresh k hak hkb) else h₂.fresh k (not_lt.1 hkb) hkc
  inFlight k p hp := h₁.inFlight k p (h₂.inFlight k p hp)

theorem keeps_setChan (net : Net) (k : Nat) (up : Bool) {q : List Packet} (hq : ∀ p ∈ q, net.InFlight k p) :
    Keeps net (net.setChan k { net.chan k with up, queue := q }) := by
  have hends : ∀ j, ((net.setChan k { net.chan k with up, queue := q }).chan j).src = (net.chan j).src ∧
      ((net.setChan k { net.chan k with up, queue := q }).chan j).dst = (net.chan j).dst ∧
      ((net.setChan k { net.chan k with up, queue := q }).chan j).back = (net.chan j).back := by
    intro j
    by_cases hj : j = k <;> simp [hj]
  refine ⟨le_rfl, fun j _ => (hends j).1, fun j _ => (hends j).2.1, fun j _ => (hends j).2.2,
    fun _ h₁ h₂ => absurd h₂ (not_lt.2 h₁), fun j p hp => ?_⟩
  by_cases hj : j = k
  · subst hj
    simp only [InFlight, setChan_chan, if_true, setChan_pending] at hp
    exact hp.elim (hq p) .inr
  · simpa [InFlight, hj] using hp

theorem keeps_pop {net : Net} {k : Nat} {p : Packet} {rest : List Packet} (hq : (net.chan k).queue = p :: rest) :
    Keeps net (net.setChan k { net.chan k with queue := rest }) :=
  keeps_setChan net k (net.chan k).up fun _ hp => .inl (by rw [hq]; exact List.mem_cons_of_mem _ hp)

theorem keeps_close (net : Net) (k : Nat) : Keeps net (net.close k) :=
  (keeps_setChan net k false (by simp)).trans (keeps_setChan _ _ false (by simp))

@[simp] theorem receive_chan (net : Net) (k : Nat) (disk : Disk) (p : Packet) :
    (net.receive k disk p).1.chan = net.chan ∧ (net.receive k disk p).1.opened = net.opened ∧
      (net.receive k disk p).1.pending = net.pending := by
  cases p with
  | block b =>
    simp only [receive]
    split
    · exact ⟨rfl, rfl, rfl⟩
    · split <;> exact ⟨rfl, rfl, rfl⟩
  | _ => exact ⟨rfl, rfl, rfl⟩

theorem keeps_receive (net : Net) (k : Nat) (disk : Disk) (p : Packet) : Keeps net (net.receive k disk p).1 := by
  obtain ⟨hchan, hopened, hpend⟩ := receive_chan net k disk p
  exact .of_chan hopened hchan fun j p => by rw [InFlight, InFlight, hchan, hpend]; exact id

theorem keeps_read (net : Net) (k : Nat) (disk : Disk) : Keeps net (net.read k disk).1 := by
  rcases read_cases net k disk with h | ⟨p, rest, -, hq, h | h⟩ <;> rw [h]
  · exact .refl _
  · exact (keeps_pop hq).trans (keeps_receive _ k disk p)
  · exact (keeps_pop hq).trans (keeps_close _ k)

theorem keeps_of_pending_subset (net : Net) {l : List (Nat × Packet)} (hl : ∀ x ∈ l, x ∈ net.pending) :
    Keeps net { net with pending := l } :=
  .of_chan rfl rfl fun _ _ hq => hq.imp id (hl _)

theorem keeps_write (net : Net) (i : Nat) : Keeps net (net.write i) := by
  unfold write
  split
  · exact .refl _
  · rename_i k p hi
    have herase : ∀ x ∈ net.pending.eraseIdx i, x ∈ net.pending := fun x hx => (List.eraseIdx_sublist _ _).subset hx
    dsimp only
    split
    · refine (keeps_setChan net k (net.chan k).up (q := (net.chan k).queue ++ [p]) fun q hq => ?_).trans
        (keeps_of_pending_subset _ herase)
      rcases List.mem_append.1 hq with hq | hq
      · exact .inl hq
      · exact .inr (List.mem_singleton.1 hq ▸ List.getElem?_mem hi)
    · exact keeps_of_pending_subset net herase

theorem keeps_connect (net : Net) (d a : Nat) : Keeps net (net.connect d a).1 := by
  have hold : ∀ j < net.opened, (net.connect d a).1.chan j = net.chan j := fun j hj => by
    simp only [connect, setChan_chan, if_neg (show j ≠ net.opened + 1 by omega), if_neg (show j ≠ net.opened by omega)]
  refine ⟨by simp [connect], fun j hj => by rw [hold j hj], fun j hj => by rw [hold j hj], fun j hj => by rw [hold j hj],
    fun j h₁ h₂ => ?_, fun j p hp => ?_⟩
  · obtain rfl | rfl : j = net.opened ∨ j = net.opened + 1 := by simp only [connect, setChan_opened] at h₂; omega
    all_goals simp [Linked, connect]
  rcases hp with hp | hp
  · simp only [connect, setChan_chan] at hp
    split_ifs at hp
    · exact absurd hp (List.not_mem_nil _)
    · exact absurd hp (List.not_mem_nil _)
    · exact .inl hp
  · exact .inr hp

theorem keeps_setChain (net : Net) (node : Nat) (bc : Blockchain) : Keeps net (net.setChain node bc) :=
  .of_chan rfl rfl fun _ _ => id

theorem keeps_submitBlock (net : Net) (node : Nat) (b : Block) (disk : Disk) :
    Keeps net (net.submitBlock node b disk).1 := by
  unfold submitBlock
  split <;> exact keeps_setChain _ _ _

theorem keeps_submitTx (net : Net) (node : Nat) (t : Transaction) : Keeps net (net.submitTx node t).1 := by
  unfold submitTx
  split
  · exact keeps_setChain _ _ _
  · exact .refl _

theorem keeps_act (net : Net) (e : Event) : Keeps net (net.act e).1 := by
  cases e with
  | connect d a => exact keeps_connect net d a
  | read k disk => exact keeps_read net k disk
  | write i => exact keeps_write net i
  | drop k =>
    simp only [act]
    split
    · exact keeps_close net k
    · exact .refl _
  | submitBlock node b disk => exact keeps_submitBlock net node b disk
  | submitTx node t => exact keeps_submitTx net node t

@[simp] theorem step_chain (net : Net) (e : Event) : (net.step e).chain = (net.act e).1.chain := rfl

@[simp] theorem step_chan (net : Net) (e : Event) : (net.step e).chan = (net.act e).1.chan := rfl

@[simp] theorem step_opened (net : Net) (e : Event) : (net.step e).opened = (net.act e).1.opened := rfl

@[simp] theorem step_pending (net : Net) (e : Event) :
    (net.step e).pending = (net.act e).1.pending ++ (net.act e).2 := rfl

theorem inFlight_step {net : Net} {e : Event} {k : Nat} {p : Packet} (h : (net.step e).InFlight k p) :
    net.InFlight k p ∨ (k, p) ∈ (net.act e).2 := by
  rcases h with hq | hp
  · exact .inl ((keeps_act net e).inFlight k p (.inl hq))
  · rcases List.mem_append.1 hp with hp | hp
    · exact .inl ((keeps_act net e).inFlight k p (.inr hp))
    · exact .inr hp

/-! ## What a step sends -/

theorem mem_outChans {net : Net} {node k : Nat} :
    k ∈ net.outChans node ↔ k < net.opened ∧ (net.chan k).up ∧ (net.chan k).src = node := by
  simp [outChans]

/-- What a line sent on channel `k` by the event `e` is, read in the network after it: a
line of the handshake, a block the sender offers from its store or has stored at the block's
height, or a transaction handed to the sender's wallet endpoint by this very event. -/
def SentBy (net : Net) (e : Event) (k : Nat) : Packet → Prop
  | .block b => (∃ start, b ∈ (net.chain (net.chan k).src).getBlocks start) ∨
      (net.chain (net.chan k).src).store.getBlockByHeight b.header.height = some b
  | .tx t => e = .submitTx (net.chan k).src t
  | _ => True

theorem stored_of_addBlock_ok {bc bc' : Blockchain} {b : Block} {disk : Disk}
    (h : bc.addBlock b disk = (.ok (), bc')) : bc'.store.getBlockByHeight b.header.height = some b := by
  rcases Blockchain.addBlock_cases bc b disk with ⟨-, -, hne⟩ | ⟨-, -, hne⟩ | ⟨-, -, -, hs⟩
  · exact absurd (by rw [h]) hne
  · exact absurd (by rw [h]) hne
  · rw [h] at hs
    rw [show bc' = _ from hs]
    exact Blockchain.getBlockByHeight_committed_self bc b

theorem sentBy_committed {net : Net} {node : Nat} {bc' : Blockchain} {b : Block} {disk : Disk} (e : Event)
    (hadd : (net.chain node).addBlock b disk = (.ok (), bc')) {k : Nat} (hk : k ∈ net.outChans node) :
    k < (net.setChain node bc').opened ∧ SentBy (net.setChain node bc') e k (.block b) := by
  obtain ⟨hlt, -, hsrc⟩ := mem_outChans.1 hk
  refine ⟨hlt, .inr ?_⟩
  rw [setChain_chan, hsrc, setChain_chain, if_pos rfl]
  exact stored_of_addBlock_ok hadd

theorem sends_receive {net : Net} (hw : net.WellLinked) {j : Nat} (hj : j < net.opened) (disk : Disk) (p' : Packet)
    (e : Event) {k : Nat} {p : Packet} (h : (k, p) ∈ (net.receive j disk p').2) :
    k < (net.receive j disk p').1.opened ∧ SentBy (net.receive j disk p').1 e k p := by
  obtain ⟨hback, hsrc⟩ := hw j hj
  cases p' with
  | version v height n =>
    simp only [receive, List.mem_cons] at h
    split at h <;> simp only [List.mem_singleton, List.not_mem_nil, or_false, Prod.mk.injEq] at h
    · obtain ⟨rfl, rfl⟩ | ⟨rfl, rfl⟩ := h <;> exact ⟨hback, trivial⟩
    · obtain ⟨rfl, rfl⟩ := h
      exact ⟨hback, trivial⟩
  | verack => simp [receive] at h
  | getblocks f =>
    simp only [receive, List.mem_map, Prod.mk.injEq] at h
    obtain ⟨b, hb, rfl, rfl⟩ := h
    refine ⟨hback, .inl ⟨f, ?_⟩⟩
    show b ∈ (net.chain (net.chan (net.chan j).back).src).getBlocks f
    rw [hsrc]
    exact hb
  | block b =>
    by_cases hle : b.header.height ≤ (net.chain (net.chan j).dst).getBestHeight
    · simp [receive, if_pos hle] at h
    · rcases hadd : (net.chain (net.chan j).dst).addBlock b disk with ⟨_ | _, bc'⟩
      · simp [receive, if_neg hle, hadd] at h
      · simp only [receive, if_neg hle, hadd, List.mem_map, Prod.mk.injEq] at h ⊢
        obtain ⟨k, hk, rfl, rfl⟩ := h
        exact sentBy_committed e hadd (List.mem_of_mem_filter hk)
  | tx t => simp [receive] at h

theorem sends_act {net : Net} (hw : net.WellLinked) (e : Event) {k : Nat} {p : Packet}
    (h : (k, p) ∈ (net.act e).2) : k < (net.act e).1.opened ∧ SentBy (net.act e).1 e k p := by
  cases e with
  | connect d a =>
    simp only [act, connect, List.mem_cons, List.mem_singleton, List.not_mem_nil, or_false, Prod.mk.injEq] at h
    obtain ⟨rfl, rfl⟩ | ⟨rfl, rfl⟩ := h <;> exact ⟨by simp [act, connect], trivial⟩
  | read j disk =>
    simp only [act] at h ⊢
    rcases read_cases net j disk with h₁ | ⟨p', rest, hj, hq, h₁ | h₁⟩ <;> rw [h₁] at h ⊢
    · exact absurd h (List.not_mem_nil _)
    · exact sends_receive ((keeps_pop hq).wellLinked hw) hj disk p' _ h
    · exact absurd h (List.not_mem_nil _)
  | write i => simp [act] at h
  | drop j => simp [act] at h
  | submitBlock node b disk =>
    simp only [act, submitBlock] at h ⊢
    split at h
    · rename_i bc' hadd
      obtain ⟨k, hk, rfl, rfl⟩ := List.mem_map.1 h
      exact sentBy_committed _ hadd hk
    · exact absurd h (List.not_mem_nil _)
  | submitTx node t =>
    simp only [act, submitTx] at h ⊢
    split at h
    · obtain ⟨k, hk, rfl, rfl⟩ := List.mem_map.1 h
      obtain ⟨hlt, -, hsrc⟩ := mem_outChans.1 hk
      exact ⟨hlt, by rw [SentBy, setChain_chan, hsrc]⟩
    · exact absurd h (List.not_mem_nil _)

/-! ## Runs -/

@[simp] theorem run_nil (net : Net) : net.run [] = net := rfl

@[simp] theorem run_cons (net : Net) (e : Event) (events : List Event) :
    net.run (e :: events) = (net.step e).run events := rfl

def pairStart : Net := init fun _ => genesisState NetworkConfig.permissive 0

def pairRun : List Event := [.connect 0 1, .submitBlock 0 (Blockchain.emptyTip 1) .ok]

theorem reachable_pairStart (i : Nat) : Reachable NetworkConfig.permissive (pairStart.chain i) :=
  Blockchain.reachable_genesis_permissive

theorem pairRun_facts : (pairStart.run pairRun).chain 0 = Blockchain.emptyChain 1 ∧
    ((pairStart.run pairRun).chan 0).src = 0 ∧
    (0, Packet.block (Blockchain.emptyTip 1)) ∈ (pairStart.run pairRun).pending := by
  have hadd : ((pairStart.step (.connect 0 1)).chain 0).addBlock (Blockchain.emptyTip 1) .ok =
      (.ok (), Blockchain.emptyChain 1) :=
    Blockchain.addBlock_emptyTip (by decide) (Blockchain.emptyChain_committedRun 0 (by decide)).1 rfl rfl
  have hchan : (pairStart.step (.connect 0 1)).chan 0 = ⟨0, 1, 1, true, []⟩ := connect_chan_opened pairStart 0 1
  rw [pairRun, run_cons, run_cons, run_nil, step_submitBlock_of_ok hadd]
  refine ⟨by simp, by simp [hchan], List.mem_append_right _ (List.mem_map.2 ⟨0, mem_outChans.2 ⟨by decide, ?_, ?_⟩, rfl⟩)⟩
  all_goals rw [hchan]

theorem below_pairRun :
    ((pairStart.run pairRun).chain 0).store.getBlockByHeight (UInt64.ofNat (2 ^ 63)) = none := by
  rw [pairRun_facts.1, show Blockchain.emptyChain 1 = (genesisState NetworkConfig.permissive 0).committed
    (Blockchain.emptyTip 1) from rfl, Blockchain.getBlockByHeight_committed_of_ne (by decide)]
  exact getBlockByHeight_genesisState_of_ne _ _ (by decide)

/-- Every node of the network runs as a node alone does. -/
theorem run_reachable {cfg : Nat → NetworkConfig} {net : Net} (h : ∀ i, Reachable (cfg i) (net.chain i))
    (events : List Event) (i : Nat) : Reachable (cfg i) ((net.run events).chain i) := by
  induction events generalizing net with
  | nil => exact h i
  | cons e events ih => exact ih fun j => (chainMove_act net e j).reachable (h j)

theorem run_reachable_pair : (∀ i, Reachable NetworkConfig.permissive (pairStart.chain i)) ∧
    Reachable NetworkConfig.permissive ((pairStart.run pairRun).chain 0) :=
  ⟨reachable_pairStart, run_reachable reachable_pairStart pairRun 0⟩

theorem run_below (net : Net) (events : List Event) (i : Nat)
    (hbelow : ((net.run events).chain i).store.getBlockByHeight (UInt64.ofNat (2 ^ 63)) = none) :
    (net.chain i).store.getBlockByHeight (UInt64.ofNat (2 ^ 63)) = none := by
  induction events generalizing net with
  | nil => exact hbelow
  | cons e events ih => exact (chainMove_act net e i).below (ih (net.step e) hbelow)

/-- There is no reorganisation: a node never replaces a block it stores. -/
theorem run_keeps_blocks {cfg : Nat → NetworkConfig} {net : Net} (h : ∀ i, Reachable (cfg i) (net.chain i))
    (events : List Event) {i : Nat} {height : UInt64} {b : Block}
    (hb : (net.chain i).store.getBlockByHeight height = some b)
    (hbelow : ((net.run events).chain i).store.getBlockByHeight (UInt64.ofNat (2 ^ 63)) = none) :
    ((net.run events).chain i).store.getBlockByHeight height = some b := by
  induction events generalizing net with
  | nil => exact hb
  | cons e events ih =>
    exact ih (fun j => (chainMove_act net e j).reachable (h j))
      ((chainMove_act net e i).getBlockByHeight (h i) (run_below (net.step e) events i hbelow) hb) hbelow

theorem run_keeps_blocks_pair : (∀ i, Reachable NetworkConfig.permissive (pairStart.chain i)) ∧
    (pairStart.chain 0).store.getBlockByHeight 0 = some (createGenesisBlock NetworkConfig.permissive 0) ∧
    ((pairStart.run pairRun).chain 0).store.getBlockByHeight (UInt64.ofNat (2 ^ 63)) = none ∧
    ((pairStart.run pairRun).chain 0).store.getBlockByHeight 0 = some (createGenesisBlock NetworkConfig.permissive 0) :=
  have hb : (pairStart.chain 0).store.getBlockByHeight 0 = some (createGenesisBlock NetworkConfig.permissive 0) :=
    (Blockchain.storedChain_genesisState _ _).tip.symm
  ⟨reachable_pairStart, hb, below_pairRun, run_keeps_blocks reachable_pairStart pairRun hb below_pairRun⟩

/-! ## Blocks in flight -/

structure Wired (net : Net) : Prop where
  linked : net.WellLinked
  opened : ∀ k p, net.InFlight k p → k < net.opened

theorem not_inFlight_init (chain : Nat → Blockchain) (k : Nat) (p : Packet) : ¬ (init chain).InFlight k p := by
  simp [InFlight, init]

theorem wired_init (chain : Nat → Blockchain) : (init chain).Wired :=
  ⟨fun k hk => absurd hk (Nat.not_lt_zero k), fun k p hp => absurd hp (not_inFlight_init chain k p)⟩

theorem Wired.step {net : Net} (h : net.Wired) (e : Event) : (net.step e).Wired := by
  refine ⟨(keeps_act net e).wellLinked h.linked, fun k p hp => ?_⟩
  rcases inFlight_step hp with hp | hp
  · exact lt_of_lt_of_le (h.opened k p hp) (keeps_act net e).opened
  · exact (sends_act h.linked e hp).1

/-- The invariant of runs from reachable chains: every chain reachable, the channels wired,
and every block line stored by its sender at the block's height while the sender's chain is
below `2 ^ 63`. -/
structure Sound (cfg : Nat → NetworkConfig) (net : Net) : Prop where
  reachable : ∀ i, Reachable (cfg i) (net.chain i)
  wired : net.Wired
  block : ∀ k b, net.InFlight k (.block b) →
    (net.chain (net.chan k).src).store.getBlockByHeight (UInt64.ofNat (2 ^ 63)) = none →
    (net.chain (net.chan k).src).store.getBlockByHeight b.header.height = some b

theorem sound_init {cfg : Nat → NetworkConfig} {chain : Nat → Blockchain} (h : ∀ i, Reachable (cfg i) (chain i)) :
    Sound cfg (init chain) :=
  ⟨h, wired_init chain, fun k _ hb => absurd hb (not_inFlight_init chain k _)⟩

theorem Sound.step {cfg : Nat → NetworkConfig} {net : Net} (h : Sound cfg net) (e : Event) :
    Sound cfg (net.step e) := by
  refine ⟨fun i => (chainMove_act net e i).reachable (h.reachable i), h.wired.step e, fun k b hb hbelow => ?_⟩
  simp only [step_chain, step_chan] at hbelow ⊢
  rcases inFlight_step hb with hb | hb
  · have hsrc := (keeps_act net e).src k (h.wired.opened k _ hb)
    rw [hsrc] at hbelow ⊢
    have hm := chainMove_act net e (net.chan k).src
    exact hm.getBlockByHeight (h.reachable _) hbelow (h.block k b hb (hm.below hbelow))
  · rcases (sends_act h.wired.linked e hb).2 with ⟨start, hmem⟩ | hstored
    · obtain ⟨best, hoff⟩ := reachable_offers ((chainMove_act net e _).reachable (h.reachable _)) hbelow
      exact hoff.stored_of_mem_getBlocks hmem
    · exact hstored

theorem Sound.run {cfg : Nat → NetworkConfig} {net : Net} (h : Sound cfg net) (events : List Event) :
    Sound cfg (net.run events) := by
  induction events generalizing net with
  | nil => exact h
  | cons e events ih => exact ih (h.step e)

/-- A `block` line in flight is a block its sender stores. -/
theorem block_in_flight_stored {cfg : Nat → NetworkConfig} {chain : Nat → Blockchain}
    (hchain : ∀ i, Reachable (cfg i) (chain i)) (events : List Event) {k : Nat} {b : Block}
    (hb : ((init chain).run events).InFlight k (.block b))
    (hbelow : (((init chain).run events).chain (((init chain).run events).chan k).src).store.getBlockByHeight
      (UInt64.ofNat (2 ^ 63)) = none) :
    (((init chain).run events).chain (((init chain).run events).chan k).src).store.getBlockByHeight
      b.header.height = some b :=
  ((sound_init hchain).run events).block k b hb hbelow

theorem block_in_flight_stored_pair :
    (∀ i, Reachable NetworkConfig.permissive (pairStart.chain i)) ∧
    (pairStart.run pairRun).InFlight 0 (.block (Blockchain.emptyTip 1)) ∧
    ((pairStart.run pairRun).chain ((pairStart.run pairRun).chan 0).src).store.getBlockByHeight
      (UInt64.ofNat (2 ^ 63)) = none ∧
    ((pairStart.run pairRun).chain ((pairStart.run pairRun).chan 0).src).store.getBlockByHeight
      (Blockchain.emptyTip 1).header.height = some (Blockchain.emptyTip 1) :=
  have hb : (pairStart.run pairRun).InFlight 0 (.block (Blockchain.emptyTip 1)) := .inr pairRun_facts.2.2
  have hbelow : ((pairStart.run pairRun).chain ((pairStart.run pairRun).chan 0).src).store.getBlockByHeight
      (UInt64.ofNat (2 ^ 63)) = none := by rw [pairRun_facts.2.1]; exact below_pairRun
  ⟨reachable_pairStart, hb, hbelow, block_in_flight_stored reachable_pairStart pairRun hb hbelow⟩

/-! ## Transactions travel one hop -/

theorem mem_mempool_setChain {net : Net} {node i : Nat} {bc : Blockchain} {t : Transaction} {Q : Prop}
    (hbc : t ∈ bc.mempool → t ∈ (net.chain node).mempool ∨ Q) (ht : t ∈ ((net.setChain node bc).chain i).mempool) :
    t ∈ (net.chain i).mempool ∨ (node = i ∧ Q) := by
  rw [setChain_chain] at ht
  split at ht
  · subst i
    exact (hbc ht).imp id (⟨rfl, ·⟩)
  · exact .inl ht

theorem mem_mempool_receive {net : Net} {k : Nat} {disk : Disk} {p : Packet} {i : Nat} {t : Transaction}
    (ht : t ∈ ((net.receive k disk p).1.chain i).mempool) :
    t ∈ (net.chain i).mempool ∨ ((net.chan k).dst = i ∧ p = .tx t) := by
  cases p with
  | block b =>
    by_cases hle : b.header.height ≤ (net.chain (net.chan k).dst).getBestHeight
    · simp only [receive, if_pos hle] at ht
      exact .inl ht
    · rcases hadd : (net.chain (net.chan k).dst).addBlock b disk with ⟨_ | _, bc'⟩ <;>
        simp only [receive, if_neg hle, hadd] at ht <;>
        exact (mem_mempool_setChain (Q := False) (fun h => .inl (mem_mempool_addBlock (by rw [hadd]; exact h))) ht).elim
          .inl fun h => h.2.elim
  | tx t' =>
    exact (mem_mempool_setChain (fun h => (mem_mempool_submit h).imp id (congrArg Packet.tx ·.symm)) ht).imp id id
  | _ => exact .inl ht

theorem mem_mempool_act {net : Net} {e : Event} {i : Nat} {t : Transaction}
    (ht : t ∈ ((net.act e).1.chain i).mempool) :
    t ∈ (net.chain i).mempool ∨ e = .submitTx i t ∨
      ∃ k < net.opened, (net.chan k).dst = i ∧ net.InFlight k (.tx t) := by
  cases e with
  | read k disk =>
    rcases read_cases net k disk with h | ⟨p, rest, hk, hq, h | h⟩ <;> simp only [act, h] at ht
    · exact .inl ht
    · rcases mem_mempool_receive ht with ht | ⟨hdst, rfl⟩
      · exact .inl ht
      · exact .inr (.inr ⟨k, hk, ((keeps_pop hq).dst k hk).symm.trans hdst, .inl (by rw [hq]; exact List.mem_cons_self _ _)⟩)
    · exact .inl ht
  | write j =>
    simp only [act, write_chain] at ht
    exact .inl ht
  | drop k =>
    simp only [act] at ht
    split at ht <;> exact .inl ht
  | submitBlock node b disk =>
    simp only [act, submitBlock] at ht
    split at ht <;> rename_i bc' hadd <;>
      exact (mem_mempool_setChain (Q := False) (fun h => .inl (mem_mempool_addBlock (by rw [hadd]; exact h))) ht).elim
        .inl fun h => h.2.elim
  | submitTx node t' =>
    simp only [act, submitTx] at ht
    split at ht
    · rename_i bc' hadd
      obtain ⟨-, rfl⟩ := Blockchain.addToMempool_eq_ok.1 hadd
      rcases mem_mempool_setChain (fun h => by simpa using h) ht with ht | ⟨rfl, rfl⟩
      · exact .inl ht
      · exact .inr (.inl rfl)
    · exact .inl ht
  | connect d a => exact .inl ht

/-- Where the transactions of a run from the chains `chain₀` come from, `pre` being the
events so far: a `tx` line in flight was handed to its sender's wallet endpoint, and a
transaction in a mempool was there from the start, or was handed to the wallet endpoint of
the node or of a node with a channel into it. -/
structure TxSound (chain₀ : Nat → Blockchain) (pre : List Event) (net : Net) : Prop where
  wired : net.Wired
  line : ∀ k t, net.InFlight k (.tx t) → Event.submitTx (net.chan k).src t ∈ pre
  mempool : ∀ i t, t ∈ (net.chain i).mempool → t ∈ (chain₀ i).mempool ∨
    ∃ j, Event.submitTx j t ∈ pre ∧ (j = i ∨ ∃ k < net.opened, (net.chan k).src = j ∧ (net.chan k).dst = i)

theorem txSound_init (chain : Nat → Blockchain) : TxSound chain [] (init chain) :=
  ⟨wired_init chain, fun k _ h => absurd h (not_inFlight_init chain k _), fun _ _ ht => .inl ht⟩

theorem TxSound.step {chain₀ : Nat → Blockchain} {pre : List Event} {net : Net} (h : TxSound chain₀ pre net)
    (e : Event) : TxSound chain₀ (pre ++ [e]) (net.step e) := by
  have hkeep := keeps_act net e
  have hpre : ∀ x ∈ pre, x ∈ pre ++ [e] := fun x hx => List.mem_append_left _ hx
  have he : e ∈ pre ++ [e] := List.mem_append_right _ (List.mem_singleton_self e)
  refine ⟨h.wired.step e, fun k t ht => ?_, fun i t ht => ?_⟩
  · rcases inFlight_step ht with ht | ht
    · rw [step_chan, hkeep.src k (h.wired.opened k _ ht)]
      exact hpre _ (h.line k t ht)
    · rw [step_chan, ← (sends_act h.wired.linked e ht).2]
      exact he
  · rcases mem_mempool_act ht with ht | rfl | ⟨k, hk, hdst, hline⟩
    · refine (h.mempool i t ht).imp_right fun ⟨j, hj, hji⟩ => ⟨j, hpre _ hj, hji.imp_right ?_⟩
      rintro ⟨k, hk, hsrc, hdst⟩
      exact ⟨k, lt_of_lt_of_le hk hkeep.opened, (hkeep.src k hk).trans hsrc, (hkeep.dst k hk).trans hdst⟩
    · exact .inr ⟨i, he, .inl rfl⟩
    · exact .inr ⟨_, hpre _ (h.line k t hline),
        .inr ⟨k, lt_of_lt_of_le hk hkeep.opened, hkeep.src k hk, (hkeep.dst k hk).trans hdst⟩⟩

theorem TxSound.run {chain₀ : Nat → Blockchain} {pre : List Event} {net : Net} (h : TxSound chain₀ pre net)
    (events : List Event) : TxSound chain₀ (pre ++ events) (net.run events) := by
  induction events generalizing pre net with
  | nil => simpa using h
  | cons e events ih => simpa using ih (h.step e)

/-- Transactions travel one hop. -/
theorem mempool_one_hop {chain : Nat → Blockchain} (events : List Event) {i : Nat} {t : Transaction}
    (ht : t ∈ (((init chain).run events).chain i).mempool) :
    t ∈ (chain i).mempool ∨ ∃ j, Event.submitTx j t ∈ events ∧
      (j = i ∨ ∃ k < ((init chain).run events).opened,
        (((init chain).run events).chan k).src = j ∧ (((init chain).run events).chan k).dst = i) := by
  simpa using ((txSound_init chain).run events).mempool i t ht

def walletRun : List Event := [.connect 0 1, .submitTx 0 Blockchain.zeroTransfer]

theorem mempool_one_hop_wallet :
    Blockchain.zeroTransfer ∈ ((pairStart.run walletRun).chain 0).mempool ∧
    (Blockchain.zeroTransfer ∈ (pairStart.chain 0).mempool ∨ ∃ j, Event.submitTx j Blockchain.zeroTransfer ∈ walletRun ∧
      (j = 0 ∨ ∃ k < (pairStart.run walletRun).opened,
        ((pairStart.run walletRun).chan k).src = j ∧ ((pairStart.run walletRun).chan k).dst = 0)) :=
  have ht : Blockchain.zeroTransfer ∈ ((pairStart.run walletRun).chain 0).mempool := by
    have hadm : (genesisState NetworkConfig.permissive 0).addToMempool Blockchain.zeroTransfer =
        .ok { genesisState NetworkConfig.permissive 0 with mempool := [Blockchain.zeroTransfer] } :=
      Blockchain.addToMempool_eq_ok.2 ⟨⟨fun _ => by
        simp [Blockchain.zeroTransfer, Blockchain.getBalance, balanceOf, genesisState, Blockchain.fresh],
        fun h => by simp [Blockchain.zeroTransfer] at h, fun h => by simp [Blockchain.zeroTransfer] at h,
        fun h => by simp [Blockchain.zeroTransfer] at h⟩, rfl⟩
    rw [walletRun, run_cons, run_cons, run_nil, @step_submitTx_of_ok (pairStart.step (.connect 0 1)) 0 _ _ hadm]
    simp
  ⟨ht, mempool_one_hop walletRun ht⟩

end Net

/-! ## What a shared block fixes -/

theorem Offers.le_of_stored {cfg : NetworkConfig} {bc : Blockchain} {best : UInt64} (h : Offers cfg bc best)
    {k : UInt64} {b : Block} (hb : bc.store.getBlockByHeight k = some b) : k ≤ best := by
  obtain ⟨k', hk', heq⟩ := (h.keys _).1 (AList.lookup_isSome.1 (by rw [← Store.getBlockByHeight, hb]; rfl))
  rwa [Store.heightKey_inj.1 heq]

theorem toNat_ofNat_of_lt_size {n : Nat} (hn : n < 2 ^ 64) : (UInt64.ofNat n).toNat = n := by
  rw [UInt64.toNat_ofNat']
  exact Nat.mod_eq_of_lt hn

theorem reachable_stored_hash {cfg : NetworkConfig} {bc : Blockchain} (h : Reachable cfg bc) {k : UInt64}
    {b : Block} (hb : bc.store.getBlockByHeight k = some b) : b.hash = b.header.computeHash := by
  induction h generalizing k b with
  | genesis now _ _ hnew =>
    obtain ⟨-, rfl⟩ := newBlockchain_empty.1 hnew
    by_cases hk : k = 0
    · rw [hk, ← (Blockchain.storedChain_genesisState _ _).tip] at hb
      obtain rfl := Option.some.inj hb.symm
      rfl
    · rw [getBlockByHeight_genesisState_of_ne _ _ hk] at hb
      exact absurd hb (Option.some_ne_none _).symm
  | submit tx _ ih => exact ih (by rwa [Blockchain.submit_store] at hb)
  | @addBlock bc block disk _ ih =>
    rcases Blockchain.addBlock_cases bc block disk with ⟨-, hs, -⟩ | ⟨-, hs, -⟩ | ⟨hv, -, -, hs⟩
    · exact ih (by rwa [hs] at hb)
    · exact ih (by rwa [hs, Blockchain.applied_store] at hb)
    · rw [hs] at hb
      by_cases hk : k = block.header.height
      · rw [hk, Blockchain.getBlockByHeight_committed_self] at hb
        obtain rfl := Option.some.inj hb.symm
        exact hv.hash
      · exact ih (by rwa [Blockchain.getBlockByHeight_committed_of_ne hk] at hb)

/-- The headers two stores hold at height `k` are different `SHA256d` pre-images with one
digest. -/
def HeadersCollide (A B : Store) (k : UInt64) : Prop :=
  ∃ a b, A.getBlockByHeight k = some a ∧ B.getBlockByHeight k = some b ∧
    a.header.serialize ≠ b.header.serialize ∧ sha256d a.header.serialize = sha256d b.header.serialize

theorem storedChain_hash_pred {A B : Blockchain} {bestA bestB : UInt64} (hA : A.StoredChain bestA)
    (hB : B.StoredChain bestB)
    (hhA : ∀ k b, A.store.getBlockByHeight k = some b → b.hash = b.header.computeHash)
    (hhB : ∀ k b, B.store.getBlockByHeight k = some b → b.hash = b.header.computeHash) {m : Nat}
    (hm : m + 1 < 2 ^ 64) (hmA : UInt64.ofNat (m + 1) ≤ bestA) (hmB : UInt64.ofNat (m + 1) ≤ bestB)
    (heq : (A.store.getBlockByHeight (UInt64.ofNat (m + 1))).map Block.hash =
      (B.store.getBlockByHeight (UInt64.ofNat (m + 1))).map Block.hash) :
    (A.store.getBlockByHeight (UInt64.ofNat m)).map Block.hash =
        (B.store.getBlockByHeight (UInt64.ofNat m)).map Block.hash ∨
      HeadersCollide A.store B.store (UInt64.ofNat (m + 1)) := by
  have hsucc := toNat_ofNat_of_lt_size hm
  have hone : (1 : UInt64).toNat = 1 := rfl
  have hpred : UInt64.ofNat (m + 1) - 1 = UInt64.ofNat m := by
    have h1 : (1 : UInt64) ≤ UInt64.ofNat (m + 1) := by
      rw [UInt64.le_iff_toNat_le', hone, hsucc]
      omega
    rw [UInt64.eq_iff_toNat_eq', UInt64.toNat_sub_of_le _ _ h1, hsucc, hone, toNat_ofNat_of_lt_size (by omega),
      Nat.add_sub_cancel]
  have hpos : 0 < UInt64.ofNat (m + 1) := by
    rw [UInt64.lt_iff_toNat_lt', hsucc]
    exact Nat.succ_pos m
  have hbelow : ∀ best : UInt64, UInt64.ofNat (m + 1) ≤ best → UInt64.ofNat m ≤ best := fun best hb => by
    rw [UInt64.le_iff_toNat_le', hsucc] at hb
    rw [UInt64.le_iff_toNat_le', toNat_ofNat_of_lt_size (by omega)]
    omega
  obtain ⟨a₁, ha₁, -⟩ := hA.stored _ hmA
  obtain ⟨b₁, hb₁, -⟩ := hB.stored _ hmB
  obtain ⟨a₀, ha₀, -⟩ := hA.stored _ (hbelow _ hmA)
  obtain ⟨b₀, hb₀, -⟩ := hB.stored _ (hbelow _ hmB)
  have hlA := hA.linked _ hmA hpos a₀ a₁ (by rw [hpred]; exact ha₀) ha₁
  have hlB := hB.linked _ hmB hpos b₀ b₁ (by rw [hpred]; exact hb₀) hb₁
  rw [ha₁, hb₁, Option.map_some', Option.map_some', Option.some_inj, hlA.hash, hlB.hash] at heq
  have hdigest : sha256d a₁.header.serialize = sha256d b₁.header.serialize := by
    simpa only [BlockHeader.computeHash, decodeString_encodeToString] using congrArg (fun s => (decodeString s).1) heq
  by_cases hpre : a₁.header.serialize = b₁.header.serialize
  · have hhex : ∀ {prev b : Block}, b.header.prevHash = prev.hash → prev.hash = prev.header.computeHash →
        IsHashHex b.header.prevHash := fun hp hh => by
      rw [hp, hh]
      exact isHashHex_encodeToString (length_sha256d _)
    have hprev := prevHash_eq_of_serialize_eq (hhex hlA.prevHash (hhA _ _ ha₀)) (hhex hlB.prevHash (hhB _ _ hb₀)) hpre
    left
    rw [ha₀, hb₀, Option.map_some', Option.map_some', ← hlA.prevHash, ← hlB.prevHash, hprev]
  · exact .inr ⟨a₁, b₁, ha₁, hb₁, hpre, hdigest⟩

theorem storedChain_hash_agree {A B : Blockchain} {bestA bestB : UInt64} (hA : A.StoredChain bestA)
    (hB : B.StoredChain bestB)
    (hhA : ∀ k b, A.store.getBlockByHeight k = some b → b.hash = b.header.computeHash)
    (hhB : ∀ k b, B.store.getBlockByHeight k = some b → b.hash = b.header.computeHash) {h : UInt64}
    (hbestA : h ≤ bestA) (hbestB : h ≤ bestB) {b : Block}
    (hbA : A.store.getBlockByHeight h = some b) (hbB : B.store.getBlockByHeight h = some b) {k : UInt64} (hk : k ≤ h) :
    (A.store.getBlockByHeight k).map Block.hash = (B.store.getBlockByHeight k).map Block.hash ∨
      ∃ m : UInt64, k < m ∧ m ≤ h ∧ HeadersCollide A.store B.store m := by
  have hsize : h.toNat < 2 ^ 64 := h.toNat_lt_size
  have hle : ∀ best : UInt64, h ≤ best → ∀ m ≤ h.toNat, UInt64.ofNat m ≤ best := fun best hb m hm => by
    rw [UInt64.le_iff_toNat_le'] at hb ⊢
    rw [toNat_ofNat_of_lt_size (by omega)]
    omega
  have down : ∀ d ≤ h.toNat, (A.store.getBlockByHeight (UInt64.ofNat (h.toNat - d))).map Block.hash =
      (B.store.getBlockByHeight (UInt64.ofNat (h.toNat - d))).map Block.hash ∨
      ∃ m : Nat, h.toNat - d < m ∧ m ≤ h.toNat ∧ HeadersCollide A.store B.store (UInt64.ofNat m) := by
    intro d
    induction d with
    | zero => intro _; rw [Nat.sub_zero, UInt64.ofNat_toNat', hbA, hbB]; exact .inl rfl
    | succ d ih =>
      intro hd
      have hsucc : h.toNat - (d + 1) + 1 = h.toNat - d := by omega
      rcases ih (by omega) with heq | ⟨m, hm, hmh, hc⟩
      · refine (storedChain_hash_pred hA hB hhA hhB (by omega) (hle _ hbestA _ (by omega)) (hle _ hbestB _ (by omega))
          (by rw [hsucc]; exact heq)).imp_right fun hc => ⟨h.toNat - d, by omega, by omega, by rwa [← hsucc]⟩
      · exact .inr ⟨m, by omega, hmh, hc⟩
  rw [UInt64.le_iff_toNat_le'] at hk
  have hkh : h.toNat - (h.toNat - k.toNat) = k.toNat := by omega
  rcases down (h.toNat - k.toNat) (by omega) with heq | ⟨m, hm, hmh, hc⟩
  · rw [hkh, UInt64.ofNat_toNat'] at heq
    exact .inl heq
  · refine .inr ⟨UInt64.ofNat m, ?_, ?_, hc⟩
    · rw [UInt64.lt_iff_toNat_lt', toNat_ofNat_of_lt_size (by omega)]
      omega
    · rw [UInt64.le_iff_toNat_le', toNat_ofNat_of_lt_size (by omega)]
      exact hmh

/-- A shared block fixes the history below it, up to a collision of the headers stored. -/
theorem shared_block_fixes_history {cfgA cfgB : NetworkConfig} {A B : Blockchain} (hA : Reachable cfgA A)
    (hB : Reachable cfgB B) (hAbelow : A.store.getBlockByHeight (UInt64.ofNat (2 ^ 63)) = none)
    (hBbelow : B.store.getBlockByHeight (UInt64.ofNat (2 ^ 63)) = none) {h : UInt64} {b : Block}
    (hbA : A.store.getBlockByHeight h = some b) (hbB : B.store.getBlockByHeight h = some b) {k : UInt64}
    (hk : k ≤ h) :
    (A.store.getBlockByHeight k).map Block.hash = (B.store.getBlockByHeight k).map Block.hash ∨
      ∃ m, k < m ∧ m ≤ h ∧ HeadersCollide A.store B.store m := by
  obtain ⟨bestA, hoA⟩ := reachable_offers hA hAbelow
  obtain ⟨bestB, hoB⟩ := reachable_offers hB hBbelow
  exact storedChain_hash_agree hoA.chain hoB.chain (fun _ _ => reachable_stored_hash hA)
    (fun _ _ => reachable_stored_hash hB) (hoA.le_of_stored hbA) (hoB.le_of_stored hbB) hbA hbB hk

theorem shared_block_fixes_history_emptyChain :
    Reachable NetworkConfig.permissive (Blockchain.emptyChain 2) ∧
      Reachable NetworkConfig.permissive (Blockchain.emptyChain 1) ∧
      (Blockchain.emptyChain 2).store.getBlockByHeight (UInt64.ofNat (2 ^ 63)) = none ∧
      (Blockchain.emptyChain 1).store.getBlockByHeight (UInt64.ofNat (2 ^ 63)) = none ∧
      (Blockchain.emptyChain 2).store.getBlockByHeight 1 = some (Blockchain.emptyTip 1) ∧
      (Blockchain.emptyChain 1).store.getBlockByHeight 1 = some (Blockchain.emptyTip 1) ∧ (0 : UInt64) ≤ 1 ∧
      (((Blockchain.emptyChain 2).store.getBlockByHeight 0).map Block.hash =
          ((Blockchain.emptyChain 1).store.getBlockByHeight 0).map Block.hash ∨
        ∃ m, 0 < m ∧ m ≤ 1 ∧ HeadersCollide (Blockchain.emptyChain 2).store (Blockchain.emptyChain 1).store m) := by
  have hr2 := (Blockchain.emptyChain_committedRun 2 (by decide)).1.reachable
  have hr1 := (Blockchain.emptyChain_committedRun 1 (by decide)).1.reachable
  have h2 : (Blockchain.emptyChain 2).store.getBlockByHeight 1 = some (Blockchain.emptyTip 1) :=
    Blockchain.getBlockByHeight_emptyChain (by decide) (by decide) Nat.one_pos
  have h1 : (Blockchain.emptyChain 1).store.getBlockByHeight 1 = some (Blockchain.emptyTip 1) :=
    Blockchain.getBlockByHeight_emptyChain (by decide) (by decide) Nat.one_pos
  have hbelow2 := Blockchain.getBlockByHeight_emptyChain (k := 2) (by decide) (by decide) (Nat.two_pow_pos 63)
  have hbelow1 := Blockchain.getBlockByHeight_emptyChain (k := 1) (by decide) (by decide) (Nat.two_pow_pos 63)
  rw [if_neg (by decide)] at hbelow2 hbelow1
  have h01 : (0 : UInt64) ≤ 1 := by decide
  exact ⟨hr2, hr1, hbelow2, hbelow1, h2, h1, h01, shared_block_fixes_history hr2 hr1 hbelow2 hbelow1 h2 h1 h01⟩

end Network

end DevInsiderCoin
