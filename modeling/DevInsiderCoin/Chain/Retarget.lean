import DevInsiderCoin.Chain.Reload
import DevInsiderCoin.Difficulty.Bounds

/-! Interval retargeting over the stored chain (`calcNextBitsFromDB`).

`GetRecentBlocks(interval)` hands `CalcNextBits` the blocks at the last `interval` heights,
so the window spans `interval - 1` block gaps while the expected time counts `interval` of
them: at exactly the target block rate the new target is the tip's scaled by
`(interval - 1) / interval`, and the difficulty rises at every retarget.
-/

set_option autoImplicit false

namespace DevInsiderCoin

namespace Store

theorem getRecentBlocks_window (s : Store) (window : Nat → Block) (count : UInt64) {best k : Nat}
    (hbest : s.getBestHeight = best) (hcount : count.toNat = k) (hk : k ≤ best + 1)
    (hwin : ∀ i < k, s.getBlockByHeight (UInt64.ofNat (best + 1 - k + i)) = some (window i)) :
    s.getRecentBlocks count = (List.range k).map window := by
  have hstart : (if count.toNat ≤ best then best - count.toNat + 1 else 0) = best + 1 - k := by
    split <;> omega
  unfold getRecentBlocks
  rw [hbest]
  simp only [Int.toNat_ofNat, if_neg (Int.not_lt.2 (Int.ofNat_nonneg best))]
  rw [hstart, show best + 1 - (best + 1 - k) = k by omega]
  exact List.filterMap_eq_map_iff_forall_eq_some.2 fun i hi => hwin i (List.mem_range.1 hi)

theorem getBestHeight_of {s : Store} {b : UInt64} (h : s.bestHeight = some (heightKey b)) (hb : b.toNat < 2 ^ 63) :
    s.getBestHeight = b.toNat := by
  simp only [getBestHeight, h, keyToHeight_heightKey, int64OfUInt64_eq, if_pos hb]

end Store

namespace Blockchain

section SteadyRate

variable (bc : Blockchain) (window : Nat → Block) (t₀ : BitVec 64) {best k s : Nat}
  (hbest : bc.store.getBestHeight = best) (hk : bc.config.difficultyAdjustInterval.toNat = k)
  (hs : bc.config.blockTimeSeconds.toInt = s) (h2 : 2 ≤ k) (hkbest : k ≤ best + 1) (hs1 : 1 ≤ s)
  (hbound : 4 * k * s < 2 ^ 63)
  (hwin : ∀ i < k, bc.store.getBlockByHeight (UInt64.ofNat (best + 1 - k + i)) = some (window i))
  (htime : ∀ i < k, (window i).header.timestamp = t₀ + BitVec.ofNat 64 (i * s))
  (hcap : bitsToTarget (window (k - 1)).header.bits ≤ bitsToTarget bc.config.minDifficultyBits)
include hbest hk hs h2 hkbest hs1 hbound hwin htime hcap

theorem calcNextBitsFromDB_steady_rate :
    bc.calcNextBitsFromDB = .ok (targetToBits (bitsToTarget (window (k - 1)).header.bits * (k - 1) / k : Nat)) := by
  have hsec : bc.config.blockTimeSeconds.toNat = s := by
    have := toInt_eq_toNat_of_pos (x := bc.config.blockTimeSeconds) (by omega)
    omega
  simp only [calcNextBitsFromDB]
  rw [Store.getRecentBlocks_window _ window _ hbest hk hkbest hwin, List.length_map, List.length_range, hk,
    if_neg (Nat.lt_irrefl k), ← hk]
  subst hk
  exact calcNextBits_steady window _ _ _ t₀ h2 (by omega) (by rw [hs]; exact_mod_cast hbound)
    (fun i hi => by rw [hsec]; exact htime i hi) hcap

/-- At exactly the target block rate the retarget still raises the difficulty. -/
theorem calcNextBitsFromDB_tightens_at_target_rate (hT : 0 < bitsToTarget (window (k - 1)).header.bits) :
    ∃ bits, bc.calcNextBitsFromDB = .ok bits ∧ bitsToTarget bits < bitsToTarget (window (k - 1)).header.bits := by
  refine ⟨_, calcNextBitsFromDB_steady_rate bc window t₀ hbest hk hs h2 hkbest hs1 hbound hwin htime hcap, ?_⟩
  have hlt : bitsToTarget (window (k - 1)).header.bits * (k - 1) / k < bitsToTarget (window (k - 1)).header.bits :=
    Nat.div_lt_of_lt_mul (Nat.mul_comm k _ ▸ (Nat.mul_lt_mul_left hT).2 (by omega))
  rw [bitsToTarget_targetToBits (hlt.trans (bitsToTarget_lt _))]
  exact (compactRound_le _).trans_lt hlt

end SteadyRate

/-! ## A chain mined at exactly the target rate

On the permissive network (`DifficultyAdjustInterval` 10, `BlockTimeSeconds` 60), empty
blocks each stamped 60 seconds after the one before, from a genesis block at time 0. -/

def stampBlock (b : Block) (timestamp : BitVec 64) : Block :=
  let header := { b.header with timestamp }
  { b with header, hash := header.computeHash }

theorem Valid.stampBlock {bc : Blockchain} {b : Block} (hv : bc.Valid b) (timestamp : BitVec 64)
    (hpow : 2 ^ 256 ≤ bitsToTarget b.header.bits) (hsize : bc.config.maxBlockSize = 18446744073709551615) :
    bc.Valid (stampBlock b timestamp) where
  height := hv.height
  prevHash := hv.prevHash
  hash := rfl
  pow := checkProofOfWork_computeHash hpow
  count := hv.count
  size := hsize ▸ UInt64.le_max' _
  floor := hv.floor

def timedTip : Nat → Block
  | 0 => createGenesisBlock NetworkConfig.permissive 0
  | k + 1 => stampBlock (forgeBlock (timedTip k) (UInt64.ofNat (k + 1)) 0x2200FFFF "" []) (BitVec.ofNat 64 (60 * (k + 1)))

def timedChain : Nat → Blockchain
  | 0 => genesisState NetworkConfig.permissive 0
  | k + 1 => (timedChain k).committed (timedTip (k + 1))

theorem timedTip_header (k : Nat) : (timedTip k).header.height = UInt64.ofNat k ∧
    (timedTip k).header.timestamp = BitVec.ofNat 64 (60 * k) ∧ (timedTip k).header.bits = 0x2200FFFF := by
  cases k <;> exact ⟨rfl, rfl, rfl⟩

theorem addBlock_timedTip {k : Nat} (hk : k < 2 ^ 63) (hrun : CommittedRun NetworkConfig.permissive k (timedChain k))
    (htip : (timedChain k).lastBlock = some (timedTip k)) (hcfg : (timedChain k).config = NetworkConfig.permissive) :
    (timedChain k).addBlock (timedTip (k + 1)) .ok = (.ok (), timedChain (k + 1)) := by
  have hfloor : (UInt64.ofNat (k + 1)).toNat < NetworkConfig.permissive.difficultyEpochBlocks.toNat := by
    rw [UInt64.toNat_ofNat']
    show (k + 1) % 2 ^ 64 < 18446744073709551615
    omega
  have hpow : 2 ^ 256 ≤ bitsToTarget 0x2200FFFF := by decide
  have hv : (timedChain k).Valid (forgeBlock (timedTip k) (UInt64.ofNat (k + 1)) 0x2200FFFF "" []) :=
    valid_forgeBlock ((committedRun_persisted hrun hk.le).getBlockCount hk) htip hpow (by rw [hcfg, progressiveDifficultyFloor_of_lt _ hfloor]; exact le_rfl) (by rw [hcfg]; decide) (by rw [hcfg]; rfl)
  exact addBlock_of_commit_ok (hv.stampBlock _ hpow (by rw [hcfg]; rfl)) (Store.commitBlock_of_keysValid _
    (keysValid_commitOf (Store.checkKey_computeHash _) fun _ h => absurd h (List.not_mem_nil _)))

theorem timedChain_committedRun (k : Nat) (hk : k ≤ 2 ^ 63) :
    CommittedRun NetworkConfig.permissive k (timedChain k) ∧ (timedChain k).lastBlock = some (timedTip k) ∧
      (timedChain k).config = NetworkConfig.permissive := by
  induction k with
  | zero => exact ⟨.genesis 0 (fun _ => .ok) .ok (newBlockchain_empty.2 ⟨rfl, rfl⟩), rfl, rfl⟩
  | succ k ih =>
    obtain ⟨hrun, htip, hcfg⟩ := ih (by omega)
    have hadd := addBlock_timedTip (by omega) hrun htip hcfg
    have hrun' := hrun.commit (timedTip (k + 1)) .ok (by rw [hadd])
    rw [hadd] at hrun'
    exact ⟨hrun', rfl, hcfg⟩

theorem timedChain_getBlockByHeight {n h : Nat} (hn : n < 2 ^ 64) (hh : h ≤ n) :
    (timedChain n).store.getBlockByHeight (UInt64.ofNat h) = some (timedTip h) := by
  induction n with
  | zero => rw [Nat.le_zero.1 hh]; rfl
  | succ n ih =>
    rw [timedChain, committed_store, Store.getBlockByHeight_applyCommit, commitOf_height, (timedTip_header _).1]
    by_cases hlast : h = n + 1
    · rw [if_pos (congrArg _ hlast), commitOf_block, hlast]
    · rw [if_neg (fun heq => hlast (by
        have := congrArg UInt64.toNat heq
        rw [UInt64.toNat_ofNat', UInt64.toNat_ofNat'] at this
        omega)), ih (by omega) (by omega)]

theorem calcNextBitsFromDB_tightens_timedChain :
    CommittedRun NetworkConfig.permissive 19 (timedChain 19) ∧ (timedChain 19).store.getBlockCount = 20 ∧
      targetToBits (bitsToTarget 0x2200FFFF) = 0x2200FFFF ∧
      (timedChain 19).store.getBestHeight = (19 : Nat) ∧ (timedChain 19).config.difficultyAdjustInterval.toNat = 10 ∧
      (timedChain 19).config.blockTimeSeconds.toInt = (60 : Nat) ∧ 2 ≤ 10 ∧ 10 ≤ 19 + 1 ∧ 1 ≤ 60 ∧
      4 * 10 * 60 < 2 ^ 63 ∧
      (∀ i < 10, (timedChain 19).store.getBlockByHeight (UInt64.ofNat (19 + 1 - 10 + i)) = some (timedTip (10 + i))) ∧
      (∀ i < 10, (timedTip (10 + i)).header.timestamp = 600 + BitVec.ofNat 64 (i * 60)) ∧
      bitsToTarget (timedTip (10 + (10 - 1))).header.bits ≤ bitsToTarget (timedChain 19).config.minDifficultyBits ∧
      0 < bitsToTarget (timedTip (10 + (10 - 1))).header.bits ∧
      ∃ bits, (timedChain 19).calcNextBitsFromDB = .ok bits ∧
        bitsToTarget bits < bitsToTarget (timedTip (10 + (10 - 1))).header.bits := by
  obtain ⟨hrun, -, hcfg⟩ := timedChain_committedRun 19 (by decide)
  have hpersist := committedRun_persisted hrun (by decide)
  have hbest : (timedChain 19).store.getBestHeight = (19 : Nat) :=
    Store.getBestHeight_of hpersist.bestHeight (by decide)
  have hk : (timedChain 19).config.difficultyAdjustInterval.toNat = 10 := by rw [hcfg]; rfl
  have hs : (timedChain 19).config.blockTimeSeconds.toInt = (60 : Nat) := by rw [hcfg]; rfl
  have hwin : ∀ i < 10, (timedChain 19).store.getBlockByHeight (UInt64.ofNat (19 + 1 - 10 + i)) =
      some (timedTip (10 + i)) := fun i hi => by
    rw [show 19 + 1 - 10 + i = 10 + i by omega]; exact timedChain_getBlockByHeight (by decide) (by omega)
  have htime : ∀ i < 10, (timedTip (10 + i)).header.timestamp = 600 + BitVec.ofNat 64 (i * 60) := fun i hi => by
    rw [(timedTip_header _).2.1]
    apply BitVec.eq_of_toNat_eq
    rw [BitVec.toNat_add, BitVec.toNat_ofNat, BitVec.toNat_ofNat]
    show _ = (600 + _) % _
    omega
  have hbits : (timedTip (10 + (10 - 1))).header.bits = 0x2200FFFF := (timedTip_header _).2.2
  have hcap : bitsToTarget (timedTip (10 + (10 - 1))).header.bits ≤
      bitsToTarget (timedChain 19).config.minDifficultyBits := by rw [hbits, hcfg]; exact le_rfl
  have hT : 0 < bitsToTarget (timedTip (10 + (10 - 1))).header.bits := by rw [hbits]; decide
  have hcanon : targetToBits (bitsToTarget 0x2200FFFF) = 0x2200FFFF := by
    have hT : bitsToTarget 0x2200FFFF = 0xFFFF * 256 ^ 31 := by decide
    have hL : byteLength (0xFFFF * 256 ^ 31) = 33 := byteLength_eq_of (by decide) (by decide) (by decide)
    apply UInt32.toNat.inj
    rw [hT, toNat_targetToBits (by decide), leadBytes_of_le (by rw [hL]; decide), hL]
    decide
  exact ⟨hrun, hpersist.getBlockCount (by decide), hcanon, hbest, hk, hs, by decide, by decide, by decide, by decide,
    hwin, htime, hcap, hT, calcNextBitsFromDB_tightens_at_target_rate (timedChain 19) (fun i => timedTip (10 + i)) 600
      hbest hk hs (by decide) (by decide) (by decide) (by decide) hwin htime hcap hT⟩

end Blockchain

end DevInsiderCoin
