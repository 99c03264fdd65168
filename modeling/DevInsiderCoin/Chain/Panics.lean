import Mathlib.Tactic.NormNum
import DevInsiderCoin.Chain.Run

/-! Run-time panics of `CreateBlockTemplate`.

`LoadConfig` fills in defaults for four fields and keeps `halving_interval`,
`difficulty_adjustment_interval` and `block_time_seconds` as they are decoded, zero included.
`CalcBlockReward` divides the height by the first, the retarget test takes the height modulo
the second, and `CalcNextBits` divides by the `int64` product of the second and the third,
which wraps. A template is built without a panic when none of these divisors is zero; each
one that is zero panics as soon as it is reached.
-/

set_option autoImplicit false

namespace DevInsiderCoin

theorem NetworkConfig.Loaded.with_divisors {cfg : NetworkConfig} (h : cfg.Loaded)
    (halvingInterval difficultyAdjustInterval : UInt64) (blockTimeSeconds : BitVec 64) :
    ({ cfg with halvingInterval, difficultyAdjustInterval, blockTimeSeconds } : NetworkConfig).Loaded := by
  obtain ⟨d, rfl⟩ := h
  exact ⟨{ d with halvingInterval, difficultyAdjustInterval, blockTimeSeconds }, rfl⟩

theorem calcNextBits_expectedTime_zero {blocks : List Block} {adjustInterval : UInt64}
    {targetSeconds : BitVec 64} (minBits : UInt32) (hne : blocks ≠ []) (h0 : adjustInterval ≠ 0)
    (hn : adjustInterval.toNat ≤ blocks.length) (he : adjustInterval.toBitVec * targetSeconds = 0) :
    calcNextBits blocks adjustInterval targetSeconds minBits = .error ⟨"division by zero"⟩ := by
  obtain ⟨last, hlast⟩ := Option.isSome_iff_exists.1 (List.getLast?_isSome.2 hne)
  unfold calcNextBits
  simp only [hlast, if_neg (Nat.not_lt.2 hn), h0, he, if_false, if_true]

theorem calcNextBits_ok_of_ne (blocks : List Block) {adjustInterval : UInt64} {targetSeconds : BitVec 64}
    (minBits : UInt32) (h0 : adjustInterval ≠ 0) (he : adjustInterval.toBitVec * targetSeconds ≠ 0) :
    ∃ bits, calcNextBits blocks adjustInterval targetSeconds minBits = .ok bits := by
  unfold calcNextBits
  split
  · exact ⟨_, rfl⟩
  · simp only [h0, he, if_false]
    split <;> exact ⟨_, rfl⟩

namespace Blockchain

theorem calcBlockReward_ok {bc : Blockchain} (h : bc.config.halvingInterval ≠ 0) (height : UInt64) :
    ∃ reward, bc.calcBlockReward height = .ok reward := by
  unfold calcBlockReward
  dsimp only
  split_ifs <;> exact ⟨_, rfl⟩

theorem createBlockTemplate_of_bits_error {bc : Blockchain} {minerAddress : String} {clock : TemplateClock}
    {p : Panic} (hh : bc.config.halvingInterval ≠ 0)
    (hb : bc.templateBits bc.store.getBlockCount (bc.parentOf bc.store.getBlockCount).2 = .error p) :
    bc.createBlockTemplate minerAddress clock = .error p := by
  obtain ⟨reward, hr⟩ := calcBlockReward_ok hh bc.store.getBlockCount
  simp only [createBlockTemplate, hr, hb, bind, Except.bind]

theorem createBlockTemplate_ok_of_ne {bc : Blockchain} (minerAddress : String) (clock : TemplateClock)
    (hh : bc.config.halvingInterval ≠ 0) (hi : bc.config.difficultyAdjustInterval ≠ 0)
    (he : bc.config.difficultyAdjustInterval.toBitVec * bc.config.blockTimeSeconds ≠ 0) :
    ∃ template, bc.createBlockTemplate minerAddress clock = .ok template := by
  obtain ⟨reward, hr⟩ := calcBlockReward_ok hh bc.store.getBlockCount
  have hbits : ∃ bits, bc.templateBits bc.store.getBlockCount (bc.parentOf bc.store.getBlockCount).2 = .ok bits := by
    unfold templateBits calcNextBitsFromDB
    simp only [hi, if_false]
    split
    · exact ⟨_, rfl⟩
    · split
      · split
        · exact ⟨_, rfl⟩
        · obtain ⟨bits, hb⟩ := calcNextBits_ok_of_ne (bc.store.getRecentBlocks bc.config.difficultyAdjustInterval)
            bc.config.minDifficultyBits hi he
          exact ⟨applyProgressiveDifficulty bits bc.store.getBlockCount bc.config.difficultyEpochBlocks
            bc.config.minDifficultyBits, by simp only [hb, bind, Except.bind, pure, Except.pure]⟩
      · exact ⟨_, rfl⟩
  obtain ⟨bits, hb⟩ := hbits
  exact ⟨_, createBlockTemplate_eq_ok.2 ⟨reward, bits, hr, hb, rfl⟩⟩

/-- `CreateBlockTemplate` panics exactly where a divisor it reaches is zero. -/
theorem createBlockTemplate_panics_on_zero_divisor :
    (∀ cfg : NetworkConfig, cfg.Loaded → ∀ (halvingInterval difficultyAdjustInterval : UInt64)
      (blockTimeSeconds : BitVec 64),
      ({ cfg with halvingInterval, difficultyAdjustInterval, blockTimeSeconds } : NetworkConfig).Loaded) ∧
    (∀ (bc : Blockchain) (minerAddress : String) (clock : TemplateClock),
      bc.totalMinted < bc.config.maxSupply → bc.config.halvingInterval = 0 →
      bc.createBlockTemplate minerAddress clock = .error ⟨"runtime error: integer divide by zero"⟩) ∧
    (∀ (bc : Blockchain) (minerAddress : String) (clock : TemplateClock),
      bc.config.halvingInterval ≠ 0 → bc.store.getBlockCount ≠ 0 → bc.config.difficultyAdjustInterval = 0 →
      bc.createBlockTemplate minerAddress clock = .error ⟨"runtime error: integer divide by zero"⟩) ∧
    (∀ (bc : Blockchain) (minerAddress : String) (clock : TemplateClock),
      bc.config.halvingInterval ≠ 0 → bc.store.getBlockCount ≠ 0 → bc.config.difficultyAdjustInterval ≠ 0 →
      bc.store.getBlockCount % bc.config.difficultyAdjustInterval = 0 →
      bc.config.difficultyAdjustInterval.toNat ≤ (bc.store.getRecentBlocks bc.config.difficultyAdjustInterval).length →
      bc.config.difficultyAdjustInterval.toBitVec * bc.config.blockTimeSeconds = 0 →
      bc.createBlockTemplate minerAddress clock = .error ⟨"division by zero"⟩) ∧
    (∀ (bc : Blockchain) (minerAddress : String) (clock : TemplateClock),
      bc.config.halvingInterval ≠ 0 → bc.config.difficultyAdjustInterval ≠ 0 →
      bc.config.difficultyAdjustInterval.toBitVec * bc.config.blockTimeSeconds ≠ 0 →
      ∃ template, bc.createBlockTemplate minerAddress clock = .ok template) := by
  refine ⟨fun _ h => h.with_divisors, fun bc _ _ hsupply hh => ?_, fun bc _ _ hh hc hi => ?_,
    fun bc _ _ hh hc hi hm hn he => ?_, fun _ minerAddress clock hh hi he => createBlockTemplate_ok_of_ne
      minerAddress clock hh hi he⟩
  · have hr : bc.calcBlockReward bc.store.getBlockCount = .error ⟨"runtime error: integer divide by zero"⟩ := by
      unfold calcBlockReward
      rw [if_neg (not_le.2 hsupply), if_pos hh]
    simp only [createBlockTemplate, hr, bind, Except.bind]
  · exact createBlockTemplate_of_bits_error hh (by simp only [templateBits, hc, hi, if_false, if_true, bind,
      Except.bind])
  · have hne : bc.store.getRecentBlocks bc.config.difficultyAdjustInterval ≠ [] := fun h0 => by
      rw [h0, List.length_nil] at hn
      exact hi (UInt64.toNat.inj (Nat.le_zero.1 hn))
    have hnext : bc.calcNextBitsFromDB = .error ⟨"division by zero"⟩ := by
      unfold calcNextBitsFromDB
      rw [if_neg (Nat.not_lt.2 hn)]
      exact calcNextBits_expectedTime_zero _ hne hi hn he
    exact createBlockTemplate_of_bits_error hh (by simp only [templateBits, hc, hi, hm, hnext, if_false, if_true,
      bind, Except.bind])

theorem one_le_length_getRecentBlocks_genesisState (cfg : NetworkConfig) (now : BitVec 64) :
    1 ≤ ((genesisState cfg now).store.getRecentBlocks 1).length := by
  have hbest : (genesisState cfg now).store.getBestHeight = 0 := by
    simp only [Store.getBestHeight, show (genesisState cfg now).store.bestHeight = some (Store.heightKey 0) from rfl,
      Store.keyToHeight_heightKey]
    rfl
  have hblock : (genesisState cfg now).store.blocks.lookup (Store.heightKey (UInt64.ofNat (0 + 0))) =
      some (createGenesisBlock cfg now) := AList.lookup_insert _
  unfold Store.getRecentBlocks
  rw [hbest]
  show 1 ≤ ((List.range 1).filterMap fun i =>
    (genesisState cfg now).store.blocks.lookup (Store.heightKey (UInt64.ofNat (0 + i)))).length
  rw [show List.range 1 = [0] from rfl, List.filterMap_cons, hblock]
  simp

theorem createBlockTemplate_panics_genesis :
    NetworkConfig.permissive.Loaded ∧
      ({ NetworkConfig.permissive with halvingInterval := 0 } : NetworkConfig).Loaded ∧
      Reachable { NetworkConfig.permissive with halvingInterval := 0 }
        (genesisState { NetworkConfig.permissive with halvingInterval := 0 } 0) ∧
      (genesisState { NetworkConfig.permissive with halvingInterval := 0 } 0).createBlockTemplate "miner" ⟨0, 0, 0⟩ =
        .error ⟨"runtime error: integer divide by zero"⟩ ∧
      ({ NetworkConfig.permissive with difficultyAdjustInterval := 0 } : NetworkConfig).Loaded ∧
      (genesisState { NetworkConfig.permissive with difficultyAdjustInterval := 0 } 0).createBlockTemplate "miner"
        ⟨0, 0, 0⟩ = .error ⟨"runtime error: integer divide by zero"⟩ ∧
      ({ NetworkConfig.permissive with difficultyAdjustInterval := 1, blockTimeSeconds := 0 } : NetworkConfig).Loaded ∧
      (genesisState { NetworkConfig.permissive with difficultyAdjustInterval := 1, blockTimeSeconds := 0 } 0).createBlockTemplate
        "miner" ⟨0, 0, 0⟩ = .error ⟨"division by zero"⟩ ∧
      ∃ template, (genesisState NetworkConfig.permissive 0).createBlockTemplate "miner" ⟨0, 0, 0⟩ = .ok template := by
  have hloaded := createBlockTemplate_panics_on_zero_divisor.1 _ NetworkConfig.loaded_permissive
  have hcount : ∀ cfg : NetworkConfig, (genesisState cfg 0).store.getBlockCount ≠ 0 := fun cfg => by
    rw [getBlockCount_genesisState]
    decide
  have hsupply : (genesisState { NetworkConfig.permissive with halvingInterval := 0 } 0).totalMinted <
      NetworkConfig.permissive.maxSupply := by
    norm_num [totalMinted_genesisState, NetworkConfig.permissive]
  refine ⟨NetworkConfig.loaded_permissive, hloaded 0 10 60,
    .genesis 0 (fun _ => .ok) .ok (newBlockchain_empty.2 ⟨rfl, rfl⟩),
    createBlockTemplate_panics_on_zero_divisor.2.1 _ _ _ hsupply rfl,
    hloaded 210000 0 60,
    createBlockTemplate_panics_on_zero_divisor.2.2.1 _ _ _ (by decide) (hcount _) rfl,
    hloaded 210000 1 0,
    createBlockTemplate_panics_on_zero_divisor.2.2.2.1 _ _ _ (by decide) (hcount _) (by decide)
      (by rw [getBlockCount_genesisState]; decide) (one_le_length_getRecentBlocks_genesisState _ 0) (by decide),
    createBlockTemplate_panics_on_zero_divisor.2.2.2.2 _ _ _ (by decide) (by decide) (by decide)⟩

end Blockchain

end DevInsiderCoin
