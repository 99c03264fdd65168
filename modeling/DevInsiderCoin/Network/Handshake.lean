import DevInsiderCoin.Network.Gossip
import Mathlib.Data.Nat.Digits

/-! # Catching up over a new connection

A node learns the blocks it missed only through the handshake of `handlePeer`: each side of a
new connection sends `version` with its best height, a node that reads a greater height than its
own answers `verack` and asks with `getblocks` for the blocks above its best, and the other side
answers with a `block` line per stored block from that height. The node has no fork choice: each
block goes to `AddBlock`, which takes only the block at the next height on the node's tip.

`handshake` is one schedule of the network of `Gossip`: `r` dials `s`, and every line of the new
connection is written and then read in the order it was sent. On it, a node whose chain is a
prefix of the peer's ends with the peer's chain (`handshake_catches_up`), and a node whose tip is
not, by hash, the peer's block at its best height keeps its chain (`handshake_keeps_fork`).
-/

set_option autoImplicit false

namespace DevInsiderCoin

namespace Network

/-! ## The handshake's lines fit the scanner -/

theorem utf8ByteSize_le_four_mul_length (s : String) : s.utf8ByteSize ≤ 4 * s.length := by
  obtain ⟨cs⟩ := s
  show String.utf8Len cs ≤ 4 * cs.length
  induction cs with
  | nil => exact Nat.zero_le _
  | cons c cs ih =>
    have := c.utf8Size_le_four
    rw [String.utf8Len_cons, List.length_cons]
    omega

theorem utf8ByteSize_int_le {m : Nat} (h : m < 10 ^ 20) : (Json.int m).utf8ByteSize ≤ 80 := by
  have hlen : (Nat.repr m).length ≤ 20 := Nat.repr_length m 20 (by decide) h
  have := utf8ByteSize_le_four_mul_length (Nat.repr m)
  show (Nat.repr m).utf8ByteSize ≤ 80
  omega

theorem fits_version (v : UInt32) (h : UInt64) (n : UInt32) : Fits (Packet.version v h n).line := by
  have hv := utf8ByteSize_int_le (show v.toNat < 10 ^ 20 by have := v.toNat_lt; omega)
  have hh := utf8ByteSize_int_le (show h.toNat < 10 ^ 20 by have := h.toNat_lt; omega)
  have hn := utf8ByteSize_int_le (show n.toNat < 10 ^ 20 by have := n.toNat_lt; omega)
  have hpunct : "\x7b".utf8ByteSize = 1 ∧ "\x7d".utf8ByteSize = 1 ∧ ",".utf8ByteSize = 1 ∧ ":".utf8ByteSize = 1 := by
    decide
  have hkeys : (Json.string "type").utf8ByteSize = 6 ∧ (Json.string "version").utf8ByteSize = 9 ∧
      (Json.string "payload").utf8ByteSize = 9 ∧ (Json.string "height").utf8ByteSize = 8 ∧
      (Json.string "network_id").utf8ByteSize = 12 := by decide
  simp only [Fits, Packet.line, Json.object, List.map, String.intercalate, String.intercalate.go,
    String.utf8ByteSize_append', hpunct, hkeys, maxScanTokenSize]
  omega

theorem fits_getblocks (f : UInt64) : Fits (Packet.getblocks f).line := by
  have hf := utf8ByteSize_int_le (show f.toNat < 10 ^ 20 by have := f.toNat_lt; omega)
  have hpunct : "\x7b".utf8ByteSize = 1 ∧ "\x7d".utf8ByteSize = 1 ∧ ",".utf8ByteSize = 1 ∧ ":".utf8ByteSize = 1 := by
    decide
  have hkeys : (Json.string "type").utf8ByteSize = 6 ∧ (Json.string "getblocks").utf8ByteSize = 11 ∧
      (Json.string "payload").utf8ByteSize = 9 ∧ (Json.string "from_height").utf8ByteSize = 13 := by decide
  simp only [Fits, Packet.line, Json.object, List.map, String.intercalate, String.intercalate.go,
    String.utf8ByteSize_append', hpunct, hkeys, maxScanTokenSize]
  omega

theorem fits_verack : Fits Packet.verack.line := by decide

/-! ## Blocks a node turns down -/

theorem Interleaved.self (sent : List Message) (held : Nat) : Interleaved held sent sent := by
  induction sent generalizing held with
  | nil => exact .nil held
  | cons m sent ih => exact .next (ih (held + 1))

theorem handleMessage_block_of_not_valid {bc : Blockchain} {b : Block} (h : ¬ bc.Valid b) (disk : Disk) :
    handleMessage bc disk (.block b) = bc := by
  rw [handleMessage]
  split
  · rfl
  · rcases Blockchain.addBlock_cases bc b disk with ⟨-, hs, -⟩ | ⟨hv, -⟩ | ⟨hv, -⟩
    · exact hs
    · exact absurd hv h
    · exact absurd hv h

theorem handlePeer_blocks_of_not_valid {bc : Blockchain} (bs : List Block) (h : ∀ b ∈ bs, ¬ bc.Valid b) :
    handlePeer bc (bs.map fun b => (.block b, .ok)) = bc := by
  induction bs with
  | nil => rfl
  | cons b bs ih =>
    rw [List.map_cons, handlePeer]
    split
    · rw [handleMessage_block_of_not_valid (h b (List.mem_cons_self _ _)),
        ih fun b' hb' => h b' (List.mem_cons_of_mem _ hb')]
    · rfl

theorem Offers.not_valid_of_fork {cfg : NetworkConfig} {R S : Blockchain} {bestR bestS : UInt64}
    (hR : Offers cfg R bestR) (hS : Offers cfg S bestS)
    (hfork : R.lastBlock.map Block.hash ≠ (S.store.getBlockByHeight R.getBestHeight).map Block.hash)
    {b : Block} (hb : S.store.getBlockByHeight b.header.height = some b) : ¬ R.Valid b := by
  intro hv
  have hcount := Store.toNat_getBlockCount_of hR.chain.bestHeight hR.lt
  have hheight : b.header.height.toNat = bestR.toNat + 1 := by rw [hv.height, hcount]
  have hbS := hS.le_of_stored hb
  have hone : (1 : UInt64).toNat = 1 := rfl
  have hpred : b.header.height - 1 = bestR := by
    rw [UInt64.eq_iff_toNat_eq', UInt64.toNat_sub_of_le _ _ (UInt64.le_iff_toNat_le'.2 (by rw [hone]; omega)),
      hheight, hone, Nat.add_sub_cancel]
  obtain ⟨prev, hprev, -⟩ := hS.chain.stored bestR (UInt64.le_iff_toNat_le'.2
    (by rw [UInt64.le_iff_toNat_le'] at hbS; omega))
  have hlink := hS.chain.linked _ hbS (UInt64.lt_iff_toNat_lt'.2 (by show 0 < _; omega)) prev b
    (by rw [hpred]; exact hprev) hb
  obtain ⟨tip, htip, -⟩ := hR.chain.stored bestR (UInt64.le_iff_toNat_le'.2 le_rfl)
  have hlinkR := hv.linked (hR.chain.tip.trans htip) (UInt64.lt_iff_toNat_lt'.2 (by show 0 < _; omega))
  apply hfork
  rw [hR.chain.tip, htip, hR.getBestHeight_eq, hprev, Option.map_some', Option.map_some', ← hlinkR.prevHash,
    hlink.prevHash]

namespace Net

/-! ## One connection, event by event -/

theorem run_append (net : Net) (xs ys : List Event) : net.run (xs ++ ys) = (net.run xs).run ys :=
  List.foldl_append _ _ _ _

theorem step_write_split {net : Net} {Q T : List (Nat × Packet)} {j : Nat} {p : Packet}
    (hpend : net.pending = Q ++ (j, p) :: T) (hj : j < net.opened) (hup : (net.chan j).up) :
    net.step (.write Q.length) =
      { net.setChan j { net.chan j with queue := (net.chan j).queue ++ [p] } with pending := Q ++ T } := by
  have hget : net.pending[Q.length]? = some (j, p) := by
    rw [hpend, List.getElem?_append_right (le_refl _), Nat.sub_self, List.getElem?_cons_zero]
  have herase : net.pending.eraseIdx Q.length = Q ++ T := by
    rw [hpend, List.eraseIdx_append_of_length_le (le_refl _)]
    simp
  simp only [step, act, write, hget, herase]
  rw [if_pos ⟨hj, hup⟩, setChan_pending, List.append_nil]
  rfl

theorem step_read_cons {net : Net} {j : Nat} {p : Packet} {rest : List Packet} (hj : j < net.opened)
    (hup : (net.chan j).up) (hq : (net.chan j).queue = p :: rest) (hfit : Fits p.line) (disk : Disk) :
    net.step (.read j disk) =
      { ((net.setChan j { net.chan j with queue := rest }).receive j disk p).1 with
        pending := net.pending ++ ((net.setChan j { net.chan j with queue := rest }).receive j disk p).2 } := by
  simp only [step, act, read, if_pos (And.intro hj hup), hq, if_pos hfit, (receive_chan _ _ _ _).2.2, setChan_pending]

theorem receive_version (net : Net) (j : Nat) (disk : Disk) (v : UInt32) (h : UInt64) (n : UInt32) :
    net.receive j disk (.version v h n) =
      (net, ((net.chan j).back, .verack) :: if h > (net.chain (net.chan j).dst).getBestHeight then
        [((net.chan j).back, .getblocks ((net.chain (net.chan j).dst).getBestHeight + 1))] else []) := rfl

theorem receive_verack (net : Net) (j : Nat) (disk : Disk) : net.receive j disk .verack = (net, []) := rfl

theorem receive_getblocks (net : Net) (j : Nat) (disk : Disk) (f : UInt64) :
    net.receive j disk (.getblocks f) =
      (net, ((net.chain (net.chan j).dst).getBlocks f).map fun b => ((net.chan j).back, .block b)) := rfl

theorem receive_block_chain (net : Net) (j : Nat) (disk : Disk) (b : Block) :
    (net.receive j disk (.block b)).1.chain =
      Function.update net.chain (net.chan j).dst (handleMessage (net.chain (net.chan j).dst) disk (.block b)) := by
  unfold receive handleMessage
  dsimp only
  split
  · exact (Function.update_eq_self _ _).symm
  · split <;> rename_i heq <;> rw [heq] <;> rfl

/-- Channels `k` and `k + 1` are the two directions of one connection that `r` dialled to `s`,
both up, with the lines `toS` waiting for `s` and `toR` waiting for `r`. -/
structure Conn (net : Net) (k r s : Nat) (toS toR : List Packet) : Prop where
  opened : k + 1 < net.opened
  out : net.chan k = ⟨r, s, k + 1, true, toS⟩
  back : net.chan (k + 1) = ⟨s, r, k, true, toR⟩

section Conn

variable {net : Net} {k r s : Nat} {toS toR : List Packet}

theorem conn_connect (net : Net) (r s : Nat) :
    Conn (net.step (.connect r s)) net.opened r s [] [] ∧ (net.step (.connect r s)).chain = net.chain ∧
      (net.step (.connect r s)).pending =
        net.pending ++ [(net.opened, net.versionOf r), (net.opened + 1, net.versionOf s)] :=
  ⟨⟨by simp [act, connect], by simp [act, connect], by simp [act, connect]⟩, rfl, rfl⟩

theorem Conn.step_write_out {Q T : List (Nat × Packet)} {p : Packet} (hc : Conn net k r s toS toR)
    (hpend : net.pending = Q ++ (k, p) :: T) :
    Conn (net.step (.write Q.length)) k r s (toS ++ [p]) toR ∧ (net.step (.write Q.length)).chain = net.chain ∧
      (net.step (.write Q.length)).pending = Q ++ T := by
  rw [step_write_split hpend (by have := hc.opened; omega) (by rw [hc.out])]
  exact ⟨⟨hc.opened, by simp [hc.out], by simp [hc.back]⟩, rfl, rfl⟩

theorem Conn.step_write_back {Q T : List (Nat × Packet)} {p : Packet} (hc : Conn net k r s toS toR)
    (hpend : net.pending = Q ++ (k + 1, p) :: T) :
    Conn (net.step (.write Q.length)) k r s toS (toR ++ [p]) ∧ (net.step (.write Q.length)).chain = net.chain ∧
      (net.step (.write Q.length)).pending = Q ++ T := by
  rw [step_write_split hpend hc.opened (by rw [hc.back])]
  exact ⟨⟨hc.opened, by simp [hc.out], by simp [hc.back]⟩, rfl, rfl⟩

theorem Conn.step_read_out {p : Packet} (hc : Conn net k r s (p :: toS) toR) (hfit : Fits p.line) (disk : Disk) :
    Conn (net.step (.read k disk)) k r s toS toR ∧
      (net.step (.read k disk)).chain = ((net.setChan k ⟨r, s, k + 1, true, toS⟩).receive k disk p).1.chain ∧
      (net.step (.read k disk)).pending =
        net.pending ++ ((net.setChan k ⟨r, s, k + 1, true, toS⟩).receive k disk p).2 := by
  have hpop : { net.chan k with queue := toS } = ⟨r, s, k + 1, true, toS⟩ := by rw [hc.out]
  rw [step_read_cons (by have := hc.opened; omega) (by rw [hc.out]) (by rw [hc.out]) hfit, hpop]
  obtain ⟨hchan, hopened, -⟩ := receive_chan (net.setChan k ⟨r, s, k + 1, true, toS⟩) k disk p
  exact ⟨⟨by simp [hopened, hc.opened], by simp [hchan], by simp [hchan, hc.back]⟩, rfl, rfl⟩

theorem Conn.step_read_back {p : Packet} (hc : Conn net k r s toS (p :: toR)) (hfit : Fits p.line) (disk : Disk) :
    Conn (net.step (.read (k + 1) disk)) k r s toS toR ∧
      (net.step (.read (k + 1) disk)).chain =
        ((net.setChan (k + 1) ⟨s, r, k, true, toR⟩).receive (k + 1) disk p).1.chain ∧
      (net.step (.read (k + 1) disk)).pending =
        net.pending ++ ((net.setChan (k + 1) ⟨s, r, k, true, toR⟩).receive (k + 1) disk p).2 := by
  have hpop : { net.chan (k + 1) with queue := toR } = ⟨s, r, k, true, toR⟩ := by rw [hc.back]
  rw [step_read_cons hc.opened (by rw [hc.back]) (by rw [hc.back]) hfit, hpop]
  obtain ⟨hchan, hopened, -⟩ := receive_chan (net.setChan (k + 1) ⟨s, r, k, true, toR⟩) (k + 1) disk p
  exact ⟨⟨by simp [hopened, hc.opened], by simp [hchan, hc.out], by simp [hchan]⟩, rfl, rfl⟩

theorem Conn.run_write_back {Q : List (Nat × Packet)} (ps : List Packet) (hc : Conn net k r s toS toR)
    (hpend : net.pending = Q ++ ps.map (k + 1, ·)) :
    Conn (net.run (List.replicate ps.length (.write Q.length))) k r s toS (toR ++ ps) ∧
      (net.run (List.replicate ps.length (.write Q.length))).chain = net.chain ∧
      (net.run (List.replicate ps.length (.write Q.length))).pending = Q := by
  induction ps generalizing net toR with
  | nil => exact ⟨by simpa using hc, rfl, by simpa using hpend⟩
  | cons p ps ih =>
    obtain ⟨hc', hchain, hpend'⟩ := hc.step_write_back (T := ps.map (k + 1, ·)) hpend
    obtain ⟨h1, h2, h3⟩ := ih hc' hpend'
    rw [List.append_assoc, List.singleton_append] at h1
    exact ⟨h1, h2.trans hchain, h3⟩

theorem Conn.run_read_back_blocks (bs : List Block) (hc : Conn net k r s toS (bs.map .block))
    (hfit : ∀ b ∈ bs, Fits (Message.block b).line) :
    (net.run (List.replicate bs.length (.read (k + 1) .ok))).chain =
      Function.update net.chain r (handlePeer (net.chain r) (bs.map fun b => (.block b, .ok))) := by
  induction bs generalizing net with
  | nil => exact (Function.update_eq_self _ _).symm
  | cons b bs ih =>
    obtain ⟨hc', hchain, -⟩ := hc.step_read_back (hfit b (List.mem_cons_self _ _)) .ok
    have hdst : ((net.setChan (k + 1) ⟨s, r, k, true, bs.map .block⟩).chan (k + 1)).dst = r := by simp
    rw [List.length_cons, List.replicate_succ, run_cons, ih hc' fun b hb => hfit b (List.mem_cons_of_mem _ hb),
      hchain, receive_block_chain, hdst, setChan_chain, Function.update_same, Function.update_idem, List.map_cons,
      handlePeer_cons_of_fits _ _ _ (hfit b (List.mem_cons_self _ _))]

end Conn

/-! ## The handshake -/

/-- The schedule on which `r` dials `s` and catches up with it: the connection, and every line on
it written and then read in the order it was sent. `s` reads `r`'s `version`, `verack` and
`getblocks`; `r` reads `s`'s `version`, `verack`, and the answer to `getblocks` a block a line. -/
def handshake (net : Net) (r s : Nat) : List Event :=
  let k := net.opened
  let i := net.pending.length
  let n := ((net.chain s).getBlocks ((net.chain r).getBestHeight + 1)).length
  [.connect r s, .write i, .write i, .read (k + 1) .ok, .write i, .write i, .read k .ok, .write i, .read k .ok,
    .read k .ok] ++ List.replicate n (.write i) ++ .read (k + 1) .ok :: List.replicate n (.read (k + 1) .ok)

theorem run_handshake {net : Net} {r s : Nat} (hgt : (net.chain r).getBestHeight < (net.chain s).getBestHeight)
    (hfit : ∀ b ∈ (net.chain s).getBlocks ((net.chain r).getBestHeight + 1), Fits (Message.block b).line) :
    (net.run (handshake net r s)).chain = Function.update net.chain r
      (handlePeer (net.chain r) ((sendBlocks (net.chain s) ((net.chain r).getBestHeight + 1)).map (·, .ok))) := by
  have hng : ¬ (net.chain r).getBestHeight > (net.chain s).getBestHeight := fun h => by
    rw [gt_iff_lt, UInt64.lt_iff_toNat_lt'] at h
    rw [UInt64.lt_iff_toNat_lt'] at hgt
    omega
  -- the connection, and both `version` lines written
  obtain ⟨c1, h1, p1⟩ := conn_connect net r s
  obtain ⟨c2, h2, p2⟩ := c1.step_write_out p1
  obtain ⟨c3, h3, p3⟩ := c2.step_write_back (T := []) p2
  -- `r` reads `s`'s `version` and answers `verack` and `getblocks`
  obtain ⟨c4, h4, p4⟩ := c3.step_read_back (fits_version _ _ _) .ok
  simp only [versionOf, receive_version, setChan_chan, if_true, setChan_chain, h3, h2, h1, if_pos hgt, p3,
    List.append_nil] at p4
  obtain ⟨c5, h5, p5⟩ := c4.step_write_out (T := [_]) p4
  obtain ⟨c6, h6, p6⟩ := c5.step_write_out (T := []) p5
  simp only [List.nil_append, List.cons_append, List.singleton_append] at c6
  -- `s` reads `r`'s `version` and answers `verack` alone
  obtain ⟨c7, h7, p7⟩ := c6.step_read_out (fits_version _ _ _) .ok
  simp only [versionOf, receive_version, setChan_chan, if_true, setChan_chain, h6, h5, h4, h3, h2, h1, if_neg hng,
    p6, List.append_nil] at p7
  obtain ⟨c8, h8, p8⟩ := c7.step_write_back (T := []) p7
  -- `s` reads `verack`, then `getblocks`, and answers with its blocks
  obtain ⟨c9, h9, p9⟩ := c8.step_read_out fits_verack .ok
  obtain ⟨c10, h10, p10⟩ := c9.step_read_out (fits_getblocks _) .ok
  dsimp only [versionOf, receive_version, receive_verack, receive_getblocks, setChan_chain] at h4 h7 h9 h10
  simp only [receive_verack, List.append_nil, p8] at p9
  simp only [receive_getblocks, setChan_chan, if_true, setChan_chain, h9, h8, h7, h6, h5, h4, h3, h2, h1, p9] at p10
  -- the answer written, and `r` reads `verack`, then the blocks
  obtain ⟨c11, h11, -⟩ := c10.run_write_back (Q := net.pending)
    (((net.chain s).getBlocks ((net.chain r).getBestHeight + 1)).map .block) (by rw [p10, List.map_map]; rfl)
  simp only [List.nil_append, List.singleton_append, List.length_map] at c11 h11
  obtain ⟨c12, h12, -⟩ := c11.step_read_back fits_verack .ok
  simp only [receive_verack, setChan_chain] at h12
  rw [handshake]
  simp only [run_append, run_cons, run_nil]
  rw [c12.run_read_back_blocks _ hfit, h12, h11, h10, h9, h8, h7, h6, h5, h4, h3, h2, h1, sendBlocks, List.map_map]
  rfl

/-- A handshake with a node ahead on the same chain catches up with it. -/
theorem handshake_catches_up {cfg : NetworkConfig} {net : Net} {r s : Nat} (hr : Reachable cfg (net.chain r))
    (hs : Reachable cfg (net.chain s))
    (hrbelow : (net.chain r).store.getBlockByHeight (UInt64.ofNat (2 ^ 63)) = none)
    (hsbelow : (net.chain s).store.getBlockByHeight (UInt64.ofNat (2 ^ 63)) = none)
    (hsub : ∀ k b, (net.chain r).store.getBlockByHeight k = some b → (net.chain s).store.getBlockByHeight k = some b)
    (hgt : (net.chain r).getBestHeight < (net.chain s).getBestHeight)
    (hfit : ∀ b ∈ (net.chain s).getBlocks ((net.chain r).getBestHeight + 1), Fits (Message.block b).line) :
    (∀ i, i ≠ r → (net.run (handshake net r s)).chain i = net.chain i) ∧
      (∀ k, ((net.run (handshake net r s)).chain r).store.getBlockByHeight k = (net.chain s).store.getBlockByHeight k) ∧
      ((net.run (handshake net r s)).chain r).store.getBestHeight = (net.chain s).store.getBestHeight ∧
      ((net.run (handshake net r s)).chain r).lastBlock = (net.chain s).lastBlock := by
  obtain ⟨bestR, hoffR⟩ := reachable_offers hr hrbelow
  obtain ⟨bestS, hoffS⟩ := reachable_offers hs hsbelow
  have hRS : bestR.toNat ≤ bestS.toNat := by
    rw [hoffR.getBestHeight_eq, hoffS.getBestHeight_eq, UInt64.lt_iff_toNat_lt'] at hgt
    exact hgt.le
  have hsync : Synced (net.chain s) (net.chain r) bestR.toNat := Synced.of_shared hoffS hoffR fun k hk => by
    obtain ⟨b, hb, -⟩ := hoffR.chain.stored k (UInt64.le_iff_toNat_le'.2 hk)
    rw [hb, hsub k b hb]
  have hnext : (net.chain r).getBestHeight + 1 = UInt64.ofNat (bestR.toNat + 1) := by
    rw [hoffR.getBestHeight_eq, UInt64.eq_iff_toNat_eq', UInt64.toNat_add', UInt64.toNat_ofNat']
    rfl
  have hfit' : ∀ m ∈ sendBlocks (net.chain s) (UInt64.ofNat (bestR.toNat + 1)), Fits m.line := fun m hm => by
    obtain ⟨b, hb, rfl⟩ := List.mem_map.1 hm
    exact hfit b (hnext ▸ hb)
  have hdone := (hsync.handlePeer hoffS (Interleaved.self _ _) hRS rfl hfit').at_best hoffS
  rw [run_handshake hgt hfit, Function.update_same, hnext]
  exact ⟨fun i hi => Function.update_noteq hi _ _, hdone⟩

/-- The node has no fork choice: a handshake never moves it to another chain. -/
theorem handshake_keeps_fork {cfg : NetworkConfig} {net : Net} {r s : Nat} (hr : Reachable cfg (net.chain r))
    (hs : Reachable cfg (net.chain s))
    (hrbelow : (net.chain r).store.getBlockByHeight (UInt64.ofNat (2 ^ 63)) = none)
    (hsbelow : (net.chain s).store.getBlockByHeight (UInt64.ofNat (2 ^ 63)) = none)
    (hgt : (net.chain r).getBestHeight < (net.chain s).getBestHeight)
    (hfit : ∀ b ∈ (net.chain s).getBlocks ((net.chain r).getBestHeight + 1), Fits (Message.block b).line) :
    (net.run (handshake net r s)).chain = net.chain ∨
      (net.chain r).lastBlock.map Block.hash =
        ((net.chain s).store.getBlockByHeight (net.chain r).getBestHeight).map Block.hash := by
  refine or_iff_not_imp_right.2 fun hfork => ?_
  obtain ⟨_, hoffR⟩ := reachable_offers hr hrbelow
  obtain ⟨_, hoffS⟩ := reachable_offers hs hsbelow
  rw [run_handshake hgt hfit, sendBlocks, List.map_map]
  rw [show ((·, Disk.ok) ∘ Message.block) = fun b => (Message.block b, Disk.ok) from rfl,
    handlePeer_blocks_of_not_valid _ fun b hb => hoffR.not_valid_of_fork hoffS hfork (hoffS.stored_of_mem_getBlocks hb),
    Function.update_eq_self]

theorem fits_getBlocks_emptyTip {now : BitVec 64} {b : Block}
    (hbest : (genesisState NetworkConfig.permissive now).getBestHeight =
      (genesisState NetworkConfig.permissive 0).getBestHeight)
    (hb : b ∈ ((genesisState NetworkConfig.permissive 0).committed (Blockchain.emptyTip 1)).getBlocks
      ((genesisState NetworkConfig.permissive now).getBestHeight + 1)) : Fits (Message.block b).line := by
  have hadd : (genesisState NetworkConfig.permissive 0).addBlock (Blockchain.emptyTip 1) .ok =
      (.ok (), (genesisState NetworkConfig.permissive 0).committed (Blockchain.emptyTip 1)) :=
    Blockchain.addBlock_emptyTip (by decide) (Blockchain.emptyChain_committedRun 0 (by decide)).1 rfl rfl
  have hmem : Message.block b ∈ sendBlocks ((genesisState NetworkConfig.permissive 0).committed (Blockchain.emptyTip 1))
      ((genesisState NetworkConfig.permissive 0).getBestHeight + 1) := by
    rw [← hbest]
    exact List.mem_map_of_mem _ hb
  rw [(sendBlocks_of_addBlock_genesis hadd).2.2] at hmem
  obtain rfl : b = Blockchain.emptyTip 1 := Message.block.inj (List.mem_singleton.1 hmem)
  exact fits_emptyTip_one

def aheadStart : Net := init fun i => if i = 0 then Blockchain.emptyChain 1 else Blockchain.emptyChain 0

theorem aheadStart_facts :
    Reachable NetworkConfig.permissive (aheadStart.chain 1) ∧ Reachable NetworkConfig.permissive (aheadStart.chain 0) ∧
      (aheadStart.chain 1).store.getBlockByHeight (UInt64.ofNat (2 ^ 63)) = none ∧
      (aheadStart.chain 0).store.getBlockByHeight (UInt64.ofNat (2 ^ 63)) = none ∧
      (∀ k b, (aheadStart.chain 1).store.getBlockByHeight k = some b →
        (aheadStart.chain 0).store.getBlockByHeight k = some b) ∧
      (aheadStart.chain 1).getBestHeight < (aheadStart.chain 0).getBestHeight ∧
      ∀ b ∈ (aheadStart.chain 0).getBlocks ((aheadStart.chain 1).getBestHeight + 1), Fits (Message.block b).line := by
  have hadd : (genesisState NetworkConfig.permissive 0).addBlock (Blockchain.emptyTip 1) .ok =
      (.ok (), (genesisState NetworkConfig.permissive 0).committed (Blockchain.emptyTip 1)) :=
    Blockchain.addBlock_emptyTip (by decide) (Blockchain.emptyChain_committedRun 0 (by decide)).1 rfl rfl
  obtain ⟨hs, hsbelow, -⟩ := sendBlocks_of_addBlock_genesis hadd
  have hchain0 : aheadStart.chain 0 = (genesisState NetworkConfig.permissive 0).committed (Blockchain.emptyTip 1) := rfl
  have hchain1 : aheadStart.chain 1 = genesisState NetworkConfig.permissive 0 := rfl
  refine ⟨Blockchain.reachable_genesis_permissive, hs, getBlockByHeight_genesisState_of_ne _ _ (by decide), hsbelow,
    fun k b hb => ?_, by decide, fun b hb => ?_⟩
  · have hk : k ≠ (Blockchain.emptyTip 1).header.height := by
      rintro rfl
      rw [hchain1, getBlockByHeight_genesisState_of_ne _ _ (by decide)] at hb
      exact absurd hb (by simp)
    rw [hchain0, Blockchain.getBlockByHeight_committed_of_ne hk]
    exact hb
  · rw [hchain0, hchain1] at hb
    exact fits_getBlocks_emptyTip rfl hb

theorem handshake_catches_up_ahead :
    (Reachable NetworkConfig.permissive (aheadStart.chain 1) ∧ Reachable NetworkConfig.permissive (aheadStart.chain 0) ∧
      (aheadStart.chain 1).store.getBlockByHeight (UInt64.ofNat (2 ^ 63)) = none ∧
      (aheadStart.chain 0).store.getBlockByHeight (UInt64.ofNat (2 ^ 63)) = none ∧
      (∀ k b, (aheadStart.chain 1).store.getBlockByHeight k = some b →
        (aheadStart.chain 0).store.getBlockByHeight k = some b) ∧
      (aheadStart.chain 1).getBestHeight < (aheadStart.chain 0).getBestHeight ∧
      ∀ b ∈ (aheadStart.chain 0).getBlocks ((aheadStart.chain 1).getBestHeight + 1), Fits (Message.block b).line) ∧
    ((∀ i, i ≠ 1 → (aheadStart.run (handshake aheadStart 1 0)).chain i = aheadStart.chain i) ∧
      (∀ k, ((aheadStart.run (handshake aheadStart 1 0)).chain 1).store.getBlockByHeight k =
        (aheadStart.chain 0).store.getBlockByHeight k) ∧
      ((aheadStart.run (handshake aheadStart 1 0)).chain 1).store.getBestHeight =
        (aheadStart.chain 0).store.getBestHeight ∧
      ((aheadStart.run (handshake aheadStart 1 0)).chain 1).lastBlock = (aheadStart.chain 0).lastBlock) := by
  obtain ⟨hr, hs, hrbelow, hsbelow, hsub, hgt, hfit⟩ := aheadStart_facts
  exact ⟨aheadStart_facts, handshake_catches_up hr hs hrbelow hsbelow hsub hgt hfit⟩

/-- Node 0 one empty block ahead on the genesis block of time 0, node 1 on the genesis block
of time 1: the two chains share no block. -/
def forkStart : Net := init fun i => if i = 0 then Blockchain.emptyChain 1 else genesisState NetworkConfig.permissive 1

theorem handshake_keeps_fork_genesis :
    createGenesisBlock NetworkConfig.permissive 1 ≠ createGenesisBlock NetworkConfig.permissive 0 ∧
    (Reachable NetworkConfig.permissive (forkStart.chain 1) ∧ Reachable NetworkConfig.permissive (forkStart.chain 0) ∧
      (forkStart.chain 1).store.getBlockByHeight (UInt64.ofNat (2 ^ 63)) = none ∧
      (forkStart.chain 0).store.getBlockByHeight (UInt64.ofNat (2 ^ 63)) = none ∧
      (forkStart.chain 1).getBestHeight < (forkStart.chain 0).getBestHeight ∧
      ∀ b ∈ (forkStart.chain 0).getBlocks ((forkStart.chain 1).getBestHeight + 1), Fits (Message.block b).line) ∧
    ((forkStart.run (handshake forkStart 1 0)).chain = forkStart.chain ∨
      (forkStart.chain 1).lastBlock.map Block.hash =
        ((forkStart.chain 0).store.getBlockByHeight (forkStart.chain 1).getBestHeight).map Block.hash) := by
  have hadd : (genesisState NetworkConfig.permissive 0).addBlock (Blockchain.emptyTip 1) .ok =
      (.ok (), (genesisState NetworkConfig.permissive 0).committed (Blockchain.emptyTip 1)) :=
    Blockchain.addBlock_emptyTip (by decide) (Blockchain.emptyChain_committedRun 0 (by decide)).1 rfl rfl
  obtain ⟨hs, hsbelow, -⟩ := sendBlocks_of_addBlock_genesis hadd
  have hchain0 : forkStart.chain 0 = (genesisState NetworkConfig.permissive 0).committed (Blockchain.emptyTip 1) := rfl
  have hchain1 : forkStart.chain 1 = genesisState NetworkConfig.permissive 1 := rfl
  have hbest : (genesisState NetworkConfig.permissive 1).getBestHeight =
      (genesisState NetworkConfig.permissive 0).getBestHeight := by
    rw [(Blockchain.persisted_genesisState _ _).getBestHeight (by decide),
      (Blockchain.persisted_genesisState _ _).getBestHeight (by decide)]
  have hr : Reachable NetworkConfig.permissive (forkStart.chain 1) := by
    rw [hchain1]
    exact .genesis 1 (fun _ => .ok) .ok (newBlockchain_empty.2 ⟨rfl, rfl⟩)
  have hrbelow : (forkStart.chain 1).store.getBlockByHeight (UInt64.ofNat (2 ^ 63)) = none := by
    rw [hchain1]
    exact getBlockByHeight_genesisState_of_ne _ _ (by decide)
  have hgt : (forkStart.chain 1).getBestHeight < (forkStart.chain 0).getBestHeight := by
    rw [hchain0, hchain1, hbest, (Blockchain.persisted_genesisState _ _).getBestHeight (by decide),
      show (genesisState NetworkConfig.permissive 0).committed (Blockchain.emptyTip 1) = Blockchain.emptyChain 1 from rfl,
      (Blockchain.committedRun_persisted (Blockchain.emptyChain_committedRun 1 (by decide)).1 (by decide)).getBestHeight
        (by decide)]
    decide
  have hfit : ∀ b ∈ (forkStart.chain 0).getBlocks ((forkStart.chain 1).getBestHeight + 1), Fits (Message.block b).line := by
    intro b hb
    rw [hchain0, hchain1] at hb
    exact fits_getBlocks_emptyTip hbest hb
  have hne : createGenesisBlock NetworkConfig.permissive 1 ≠ createGenesisBlock NetworkConfig.permissive 0 := fun h =>
    absurd (congrArg (fun b : Block => b.header.timestamp) h) (by decide)
  rw [← hchain0] at hs hsbelow
  exact ⟨hne, ⟨hr, hs, hrbelow, hsbelow, hgt, hfit⟩, handshake_keeps_fork hr hs hrbelow hsbelow hgt hfit⟩

end Net

end Network

end DevInsiderCoin
