import Mathlib.Data.Rat.Defs

/-! Network parameters, as `config.LoadConfig` returns them.

Go's `float64` fields are read as exact rationals, `uint32`/`uint64` fields as
`UInt32`/`UInt64`, and Go's 64-bit `int` as the two's-complement `BitVec 64`.
-/

set_option autoImplicit false

namespace DevInsiderCoin

/-- The fields of `NetworkConfig` that the node's consensus code reads. The RFC 3339
genesis timestamp is kept as the Unix time it parses to (`none` when it does not parse). -/
structure NetworkConfig where
  ticker : String
  networkID : UInt32
  blockTimeSeconds : BitVec 64
  initialReward : ℚ
  powRewardShare : ℚ
  posRewardShare : ℚ
  halvingInterval : UInt64
  maxSupply : ℚ
  difficultyAdjustInterval : UInt64
  minDifficultyBits : UInt32
  genesisTimestamp : Option (BitVec 64)
  protocolVersion : UInt32
  minStakeAmount : ℚ
  maxBlockSize : UInt64
  maxBlockTransactions : UInt64
  posMinThreshold : ℚ
  difficultyEpochBlocks : UInt64

namespace NetworkConfig

/-- The defaults `LoadConfig` fills in "for backward compatibility" after decoding. -/
def withDefaults (cfg : NetworkConfig) : NetworkConfig :=
  { cfg with
    maxBlockSize := if cfg.maxBlockSize = 0 then 8 * 1024 * 1024 else cfg.maxBlockSize
    maxBlockTransactions := if cfg.maxBlockTransactions = 0 then 10000 else cfg.maxBlockTransactions
    posMinThreshold := if cfg.posMinThreshold = 0 then 100 else cfg.posMinThreshold
    difficultyEpochBlocks := if cfg.difficultyEpochBlocks = 0 then 500000 else cfg.difficultyEpochBlocks }

/-- A configuration `LoadConfig` can return: a decoded one with its defaults applied. -/
def Loaded (cfg : NetworkConfig) : Prop := ∃ decoded : NetworkConfig, cfg = decoded.withDefaults

theorem loaded_withDefaults (cfg : NetworkConfig) : Loaded cfg.withDefaults := ⟨cfg, rfl⟩

theorem Loaded.defaults_nonzero {cfg : NetworkConfig} (h : Loaded cfg) :
    cfg.maxBlockSize ≠ 0 ∧ cfg.maxBlockTransactions ≠ 0 ∧ cfg.posMinThreshold ≠ 0 ∧
      cfg.difficultyEpochBlocks ≠ 0 := by
  obtain ⟨d, rfl⟩ := h
  refine ⟨?_, ?_, ?_, ?_⟩ <;> simp only [withDefaults] <;> split <;> first | assumption | decide

/-- A network whose minimum difficulty every 32-byte digest meets (target
`0xFFFF * 2 ^ 248`, above `2 ^ 256`), with the block size limit and the difficulty epoch
at their largest: a block passes proof of work and the floor by its header hash alone. -/
def permissive : NetworkConfig where
  ticker := "DVC"
  networkID := 1
  blockTimeSeconds := 60
  initialReward := 50
  powRewardShare := 1 / 2
  posRewardShare := 1 / 2
  halvingInterval := 210000
  maxSupply := 21000000
  difficultyAdjustInterval := 10
  minDifficultyBits := 0x2200FFFF
  genesisTimestamp := none
  protocolVersion := 1
  minStakeAmount := 10
  maxBlockSize := 18446744073709551615
  maxBlockTransactions := 10000
  posMinThreshold := 10
  difficultyEpochBlocks := 18446744073709551615

theorem loaded_permissive : Loaded permissive := ⟨permissive, rfl⟩

end NetworkConfig

end DevInsiderCoin
