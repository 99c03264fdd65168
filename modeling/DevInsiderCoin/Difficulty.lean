import DevInsiderCoin.Basic
import DevInsiderCoin.Block

/-! Compact difficulty targets, the proof-of-work test, interval retargeting and the
progressive difficulty floor (`difficulty.go`).

A `big.Int` target is an integer; `TargetToBits` reads the absolute value's big-endian
bytes, of which only the count and the first three matter.
-/

set_option autoImplicit false

namespace DevInsiderCoin

/-- The number of bytes of `big.Int.Bytes` for a natural number: none for zero. -/
def byteLength : Nat → Nat
  | 0 => 0
  | n + 1 => byteLength ((n + 1) / 256) + 1
decreasing_by omega

/-- `BitsToTarget`: mantissa `bits & 0x7FFFFF` scaled by the exponent `bits >> 24`. -/
def bitsToTarget (bits : UInt32) : Nat :=
  let exponent := (bits >>> 24).toNat
  let mantissa := (bits &&& 0x007FFFFF).toNat
  if exponent ≤ 3 then mantissa >>> (8 * (3 - exponent)) else mantissa <<< (8 * (exponent - 3))

/-- `TargetToBits`. The mantissa is the first three bytes of `Bytes()` (the number itself
when it has fewer), moved down a byte when its top bit is set. -/
def targetToBits (target : Int) : UInt32 :=
  if target = 0 then 0 else
  let n := target.natAbs
  let exponent : UInt32 := (byteLength n).toUInt32
  let mantissa : UInt32 := if 3 ≤ byteLength n then (n / 256 ^ (byteLength n - 3)).toUInt32 else n.toUInt32
  if mantissa &&& 0x800000 ≠ 0 then ((exponent + 1) <<< 24) ||| (mantissa >>> 8)
  else (exponent <<< 24) ||| mantissa

/-- `CheckProofOfWork`: the hash must decode to exactly 32 bytes, read big-endian, at most
the target. -/
def checkProofOfWork (hashHex : String) (bits : UInt32) : Bool :=
  let (hashBytes, ok) := decodeString hashHex
  ok && hashBytes.length = 32 && bytesToNat hashBytes ≤ bitsToTarget bits

/-- `CalcNextBits`: retarget from the timestamps of the last `adjustInterval` blocks. Go's
`int64` arithmetic is `BitVec 64` arithmetic; `big.Int` division is Euclidean, as `Int`'s
`/` is. Indexing past the list and dividing by a zero expected time panic. -/
def calcNextBits (blocks : List Block) (adjustInterval : UInt64) (targetSeconds : BitVec 64)
    (minBits : UInt32) : Except Panic UInt32 :=
  let n := blocks.length
  match blocks.getLast? with
  | none => .ok minBits
  | some last =>
    if n < adjustInterval.toNat then .ok last.header.bits
    else if adjustInterval = 0 then .error ⟨"runtime error: index out of range"⟩
    else
      let first := blocks.getD (n - adjustInterval.toNat) last
      let expectedTime : BitVec 64 := adjustInterval.toBitVec * targetSeconds
      let actualTime₀ := last.header.timestamp - first.header.timestamp
      let actualTime₁ := if actualTime₀.slt (expectedTime.sdiv 4) then expectedTime.sdiv 4 else actualTime₀
      let actualTime := if (expectedTime * 4).slt actualTime₁ then expectedTime * 4 else actualTime₁
      if expectedTime = 0 then .error ⟨"division by zero"⟩
      else
        let newTarget := (bitsToTarget last.header.bits : Int) * actualTime.toInt / expectedTime.toInt
        let maxTarget : Int := bitsToTarget minBits
        .ok (targetToBits (if newTarget > maxTarget then maxTarget else newTarget))

/-- `ProgressiveDifficultyFloor`: the minimum target halves every `epochBlocks` blocks,
for at most 60 epochs, and never reaches zero. -/
def progressiveDifficultyFloor (height epochBlocks : UInt64) (minBits : UInt32) : UInt32 :=
  if epochBlocks = 0 then minBits else
  let epoch := height / epochBlocks
  if epoch = 0 then minBits else
  let epoch := if epoch > 60 then 60 else epoch
  let floorTarget := bitsToTarget minBits >>> epoch.toNat
  targetToBits (if floorTarget = 0 then 1 else floorTarget)

/-- `ApplyProgressiveDifficulty`: bits whose target exceeds the floor's become the floor. -/
def applyProgressiveDifficulty (bits : UInt32) (height epochBlocks : UInt64) (minBits : UInt32) :
    UInt32 :=
  let floorBits := progressiveDifficultyFloor height epochBlocks minBits
  if bitsToTarget bits > bitsToTarget floorBits then floorBits else bits

theorem bitsToTarget_applyProgressiveDifficulty_le (bits : UInt32) (height epochBlocks : UInt64)
    (minBits : UInt32) :
    bitsToTarget (applyProgressiveDifficulty bits height epochBlocks minBits) ≤
      bitsToTarget (progressiveDifficultyFloor height epochBlocks minBits) := by
  simp only [applyProgressiveDifficulty]
  split <;> omega

theorem checkProofOfWork_encode (digest : List UInt8) (bits : UInt32) (hlen : digest.length = 32)
    (hbits : 2 ^ 256 ≤ bitsToTarget bits) : checkProofOfWork (encodeToString digest) bits = true := by
  have hlt : bytesToNat digest < 256 ^ digest.length := bytesToNat_lt digest
  rw [hlen] at hlt
  simp only [checkProofOfWork, decodeString_encodeToString, hlen, decide_True, Bool.true_and,
    decide_eq_true_eq]
  omega

theorem checkProofOfWork_computeHash {h : BlockHeader} (hbits : 2 ^ 256 ≤ bitsToTarget h.bits) :
    checkProofOfWork h.computeHash h.bits = true :=
  checkProofOfWork_encode _ _ (length_sha256d _) hbits

end DevInsiderCoin
