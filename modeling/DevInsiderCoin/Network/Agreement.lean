import DevInsiderCoin.Network.Gossip

/-! # One block producer, one chain

A node takes a block into its chain only through `AddBlock`, called by `submitblock` on the node
itself or by the handler of a `block` line read from a peer, and a peer sends only blocks it
stores. So when every `submitblock` goes to one node, the producer, every block any node stores
is the producer's block at that height: over every run, in any order of connections, reads,
writes and losses, the network never forks (`single_producer_agreement`).
-/

set_option autoImplicit false

namespace DevInsiderCoin

namespace Network

namespace Net

/-! ## Where a stored block comes from -/

theorem chain_receive_cases (net : Net) (k : Nat) (disk : Disk) (p : Packet) (i : Nat) :
    (net.receive k disk p).1.chain i = net.chain i ∨
      (∃ t, (net.receive k disk p).1.chain i = (net.chain i).submit t) ∨
      ∃ b, p = .block b ∧ (net.receive k disk p).1.chain i = ((net.chain i).addBlock b disk).2 := by
  cases p with
  | block b =>
    by_cases hle : b.header.height ≤ (net.chain (net.chan k).dst).getBestHeight
    · simp only [receive, if_pos hle, true_or]
    · rcases hadd : (net.chain (net.chan k).dst).addBlock b disk with ⟨_ | _, bc'⟩ <;>
        simp only [receive, if_neg hle, hadd, setChain_chain] <;> split <;> rename_i hi
      all_goals first
        | exact .inl rfl
        | exact .inr (.inr ⟨b, rfl, by subst hi; rw [hadd]⟩)
  | tx t =>
    simp only [receive, setChain_chain]
    split
    · rename_i hi
      subst hi
      exact .inr (.inl ⟨t, rfl⟩)
    · exact .inl rfl
  | _ => exact .inl rfl

theorem chain_act_cases (net : Net) (e : Event) (i : Nat) :
    (net.act e).1.chain i = net.chain i ∨ (∃ t, (net.act e).1.chain i = (net.chain i).submit t) ∨
      ∃ b disk, (net.act e).1.chain i = ((net.chain i).addBlock b disk).2 ∧
        (e = .submitBlock i b disk ∨ ∃ k, e = .read k disk ∧ net.InFlight k (.block b)) := by
  cases e with
  | read k disk =>
    rcases read_cases net k disk with h | ⟨p, rest, -, hq, h | h⟩ <;> simp only [act, h, true_or]
    · rcases chain_receive_cases (net.setChan k { net.chan k with queue := rest }) k disk p i with
        hs | hs | ⟨b, rfl, heq⟩
      · exact .inl hs
      · exact .inr (.inl hs)
      · refine .inr (.inr ⟨b, disk, heq, .inr ⟨k, rfl, .inl ?_⟩⟩)
        rw [hq]
        exact List.mem_cons_self _ _
    · exact .inl rfl
  | write j =>
    simp only [act, write_chain, true_or]
  | drop k =>
    simp only [act]
    split <;> exact .inl rfl
  | submitBlock node b disk =>
    simp only [act, submitBlock]
    rcases hadd : (net.chain node).addBlock b disk with ⟨_ | _, bc'⟩ <;> simp only [setChain_chain] <;>
      split <;> rename_i hi
    all_goals first
      | exact .inl rfl
      | exact .inr (.inr ⟨b, disk, by subst hi; rw [hadd], .inl (by rw [hi])⟩)
  | submitTx node t =>
    simp only [act, submitTx]
    split
    · rename_i bc' hadm
      simp only [setChain_chain]
      split <;> rename_i hi
      · subst hi
        exact .inr (.inl ⟨t, by rw [Blockchain.submit, hadm]⟩)
      · exact .inl rfl
    · exact .inl rfl
  | connect d a => exact .inl rfl

theorem getBlockByHeight_addBlock {bc : Blockchain} {b : Block} {disk : Disk} {k : UInt64} {b' : Block}
    (h : (bc.addBlock b disk).2.store.getBlockByHeight k = some b') :
    bc.store.getBlockByHeight k = some b' ∨ (k = b.header.height ∧ b' = b) := by
  rcases Blockchain.addBlock_cases bc b disk with ⟨-, hs, -⟩ | ⟨-, hs, -⟩ | ⟨-, -, -, hs⟩ <;> rw [hs] at h
  · exact .inl h
  · exact .inl h
  · by_cases hk : k = b.header.height
    · subst hk
      rw [Blockchain.getBlockByHeight_committed_self] at h
      exact .inr ⟨rfl, (Option.some.inj h).symm⟩
    · rw [Blockchain.getBlockByHeight_committed_of_ne hk] at h
      exact .inl h

theorem stored_step_cases {net : Net} {e : Event} {i : Nat} {k : UInt64} {b : Block}
    (hb : ((net.step e).chain i).store.getBlockByHeight k = some b) :
    (net.chain i).store.getBlockByHeight k = some b ∨
      k = b.header.height ∧ ((∃ disk, e = .submitBlock i b disk) ∨ ∃ k', net.InFlight k' (.block b)) := by
  rw [step_chain] at hb
  rcases chain_act_cases net e i with heq | ⟨t, heq⟩ | ⟨b₁, disk, heq, horigin⟩ <;> rw [heq] at hb
  · exact .inl hb
  · exact .inl (by rwa [Blockchain.submit_store] at hb)
  · rcases getBlockByHeight_addBlock hb with hb | ⟨rfl, rfl⟩
    · exact .inl hb
    · exact .inr ⟨rfl, horigin.imp (fun he => ⟨disk, he⟩) fun ⟨k', _, hk'⟩ => ⟨k', hk'⟩⟩

section Origin

variable {cfg : Nat → NetworkConfig} {net : Net}

theorem stored_step_origin (hs : Sound cfg net)
    (hbelow : ∀ j, (net.chain j).store.getBlockByHeight (UInt64.ofNat (2 ^ 63)) = none)
    {e : Event} {i : Nat} {k : UInt64} {b : Block} (hb : ((net.step e).chain i).store.getBlockByHeight k = some b) :
    (∃ j, (net.chain j).store.getBlockByHeight k = some b) ∨ k = b.header.height ∧ ∃ disk, e = .submitBlock i b disk := by
  rcases stored_step_cases hb with hb | ⟨rfl, he | ⟨k', hk'⟩⟩
  · exact .inl ⟨i, hb⟩
  · exact .inr ⟨rfl, he⟩
  · exact .inl ⟨_, hs.block k' b hk' (hbelow _)⟩

end Origin

/-! ## The producer's chain -/

def Agree (p : Nat) (net : Net) : Prop :=
  ∀ i k b, (net.chain i).store.getBlockByHeight k = some b → (net.chain p).store.getBlockByHeight k = some b

section Agree

variable {cfg : Nat → NetworkConfig} {net : Net} {p : Nat}

theorem Agree.below (h : Agree p net) (hbelow : (net.chain p).store.getBlockByHeight (UInt64.ofNat (2 ^ 63)) = none)
    (i : Nat) : (net.chain i).store.getBlockByHeight (UInt64.ofNat (2 ^ 63)) = none :=
  Option.eq_none_iff_forall_not_mem.2 fun b hb => Option.noConfusion (hbelow.symm.trans (h i _ b hb))

theorem Agree.step (h : Agree p net) (hs : Sound cfg net) {e : Event}
    (honly : ∀ i b disk, e = .submitBlock i b disk → i = p)
    (hbelow : ((net.step e).chain p).store.getBlockByHeight (UInt64.ofNat (2 ^ 63)) = none) :
    Agree p (net.step e) := fun i k b hb => by
  rcases stored_step_origin hs (h.below ((chainMove_act net e p).below hbelow)) hb with ⟨j, hj⟩ | ⟨-, disk, he⟩
  · exact (chainMove_act net e p).getBlockByHeight (hs.reachable p) hbelow (h j k b hj)
  · exact honly i b disk he ▸ hb

theorem Agree.run (h : Agree p net) (hs : Sound cfg net) (events : List Event)
    (honly : ∀ i b disk, Event.submitBlock i b disk ∈ events → i = p)
    (hbelow : ((net.run events).chain p).store.getBlockByHeight (UInt64.ofNat (2 ^ 63)) = none) :
    Agree p (net.run events) := by
  induction events generalizing net with
  | nil => exact h
  | cons e events ih =>
    exact ih (h.step hs (fun i b disk he => honly i b disk (he ▸ List.mem_cons_self _ _))
      (run_below (net.step e) events p hbelow)) (hs.step e)
      (fun i b disk hm => honly i b disk (List.mem_cons_of_mem _ hm)) hbelow

end Agree

/-- With one block producer the network never forks. -/
theorem single_producer_agreement {cfg : Nat → NetworkConfig} {chain : Nat → Blockchain} {p : Nat}
    (hreach : ∀ i, Reachable (cfg i) (chain i))
    (hstart : ∀ i k b, (chain i).store.getBlockByHeight k = some b → (chain p).store.getBlockByHeight k = some b)
    (events : List Event) (honly : ∀ i b disk, Event.submitBlock i b disk ∈ events → i = p)
    (hbelow : (((init chain).run events).chain p).store.getBlockByHeight (UInt64.ofNat (2 ^ 63)) = none)
    {i : Nat} {k : UInt64} {b : Block} (hb : (((init chain).run events).chain i).store.getBlockByHeight k = some b) :
    (((init chain).run events).chain p).store.getBlockByHeight k = some b :=
  Agree.run (show Agree p (init chain) from hstart) (sound_init hreach) events honly hbelow i k b hb

end Net

end Network

end DevInsiderCoin
