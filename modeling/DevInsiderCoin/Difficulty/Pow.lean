import Mathlib.Tactic.Linarith
import DevInsiderCoin.Difficulty.Bounds

/-! The compact encoding and the retarget of `pow.go`.

`pow.go` declares its own `CompactToBig`, `BigToCompact`, `CheckProofOfWork` and
`CalcNextBits` in the package where `difficulty.go` declares `BitsToTarget`, `TargetToBits`
and a `CalcNextBits` of its own; the chain (`calcNextBitsFromDB`, `validateBlock`) is modelled
on `difficulty.go`'s. `pow.go`'s decoder reads bit 23 as a sign. Its encoder, when the word's
top bit is set, shifts the whole compact value down a byte, size byte included, so the old
size lands in the mantissa and the encoded target decodes to a larger one: a target whose
leading byte is `0x80` or more is made easier, and a retarget that reaches the minimum
difficulty returns bits easier than the minimum.
-/

set_option autoImplicit false

namespace DevInsiderCoin

namespace Pow

/-- `CompactToBig`: the mantissa `compact & 0x7FFFFF` scaled by the exponent `compact >> 24`,
negated when bit 23 is set. -/
def compactToBig (compact : UInt32) : Int :=
  let mantissa := (compact &&& 0x007fffff).toNat
  let isNegative := compact &&& 0x00800000 ≠ 0
  let exponent := (compact >>> 24).toNat
  let bn : Int :=
    if exponent ≤ 3 then (mantissa >>> (8 * (3 - exponent)) : Nat) else (mantissa <<< (8 * (exponent - 3)) : Nat)
  if isNegative then -bn else bn

/-- `BigToCompact`. `b` is `target.Bytes()`, the big-endian bytes of the absolute value: with
at most three the word holds them from its top byte down, with more it is the first three.
When the word's top bit is set, the whole compact value is shifted down a byte, size byte
included, and the size plus one is put over what is left of it. -/
def bigToCompact (target : Int) : UInt32 :=
  if target = 0 then 0 else
  let n := target.natAbs
  let size : UInt32 := (byteLength n).toUInt32
  let compact : UInt32 :=
    if size ≤ 3 then (size <<< 24) ||| (n * 256 ^ (3 - byteLength n)).toUInt32
    else (size <<< 24) ||| (n / 256 ^ (byteLength n - 3)).toUInt32
  if compact &&& 0x00800000 ≠ 0 then
    let compact := compact >>> 8
    let size := size + 1
    (size <<< 24) ||| (compact &&& 0x007fffff)
  else compact

/-- `CheckProofOfWork`: the hash must decode, read big-endian, to at most the target. -/
def checkProofOfWork (hash : String) (bits : UInt32) : Bool :=
  let target := compactToBig bits
  let (hashBytes, ok) := decodeString hash
  ok && decide ((bytesToNat hashBytes : Int) ≤ target)

/-- `CalcNextBits`: on a height that is a multiple of the interval, retarget the last bits
over the window from `height - interval`, cap at the minimum target, and encode. Go's
`uint64 % 0`, an index past the window and `big.Int` division by zero panic. -/
def calcNextBits (blocks : List Block) (cfgInterval : UInt64) (cfgBlockTime : BitVec 64) (cfgMinBits : UInt32) :
    Except Panic UInt32 :=
  let height : UInt64 := UInt64.ofNat blocks.length
  match blocks.getLast? with
  | none => .ok cfgMinBits
  | some lastBlock =>
    if cfgInterval = 0 then .error ⟨"runtime error: integer divide by zero"⟩
    else if height % cfgInterval ≠ 0 then .ok lastBlock.header.bits
    else
      let startIdx := (height.toBitVec - cfgInterval.toBitVec).toInt
      let startIdx := if startIdx < 0 then 0 else startIdx
      match blocks[startIdx.toNat]? with
      | none => .error ⟨"runtime error: index out of range"⟩
      | some startBlock =>
        let actualTime₀ := lastBlock.header.timestamp - startBlock.header.timestamp
        let expectedTime : BitVec 64 := cfgInterval.toBitVec * cfgBlockTime
        let actualTime₁ := if actualTime₀.slt (expectedTime.sdiv 4) then expectedTime.sdiv 4 else actualTime₀
        let actualTime := if (expectedTime * 4).slt actualTime₁ then expectedTime * 4 else actualTime₁
        if expectedTime = 0 then .error ⟨"division by zero"⟩
        else
          let newTarget := compactToBig lastBlock.header.bits * actualTime.toInt / expectedTime.toInt
          let minTarget := compactToBig cfgMinBits
          .ok (bigToCompact (if newTarget > minTarget then minTarget else newTarget))

/-! ## Decoding -/

/-- `CompactToBig` is `difficulty.go`'s `BitsToTarget`, negated when bit 23 is set. -/
theorem compactToBig_eq (compact : UInt32) :
    compactToBig compact = if compact &&& 0x00800000 ≠ 0 then -(bitsToTarget compact : Int) else bitsToTarget compact := by
  unfold compactToBig bitsToTarget
  dsimp only
  split_ifs <;> rfl

theorem signBit_iff' (c : UInt32) : c &&& 0x00800000 ≠ 0 ↔ 2 ^ 23 ≤ c.toNat % 2 ^ 24 := by
  have hne : ∀ x : UInt32, x ≠ 0 ↔ x.toNat ≠ 0 := fun x => ⟨fun h h0 => h (UInt32.toNat.inj h0), fun h h0 => h (h0 ▸ rfl)⟩
  rw [hne, UInt32.and_toNat, show (0x00800000 : UInt32).toNat = 2 ^ 23 from rfl, and_two_pow_ne_zero_iff,
    Nat.testBit_to_div_mod, decide_eq_true_eq]
  omega

theorem compactToBig_of_toNat {c : UInt32} {e m : Nat} (hc : c.toNat = 2 ^ 24 * e + m) (hm : m < 2 ^ 23) :
    compactToBig c = ((if e ≤ 3 then m / 256 ^ (3 - e) else m * 256 ^ (e - 3) : Nat) : Int) := by
  obtain ⟨he, hmod⟩ := unpack_compact (e := e) hm
  rw [compactToBig_eq, if_neg (by rw [signBit_iff', hc]; omega), bitsToTarget_eq, hc, he, hmod]

/-! ## Encoding -/

/-- The 24-bit word `BigToCompact` packs under the size before its sign fix: the target's
bytes from the word's top byte down, or its first three bytes. -/
def compactWord (n : Nat) : Nat :=
  if byteLength n ≤ 3 then n * 256 ^ (3 - byteLength n) else n / 256 ^ (byteLength n - 3)

theorem compactWord_lt (n : Nat) : compactWord n < 2 ^ 24 := by
  unfold compactWord
  split
  · have hn := lt_pow_byteLength n
    calc n * 256 ^ (3 - byteLength n) < 256 ^ byteLength n * 256 ^ (3 - byteLength n) :=
          Nat.mul_lt_mul_of_pos_right hn (Nat.pow_pos (by decide))
      _ = 2 ^ 24 := by rw [← Nat.pow_add, Nat.add_sub_cancel' ‹_›]; rfl
  · have := leadBytes_lt n
    rwa [leadBytes_of_le (by omega)] at this

theorem one_le_byteLength {n : Nat} (hn : 0 < n) : 1 ≤ byteLength n := by
  have := lt_pow_byteLength n
  by_contra h
  rw [show byteLength n = 0 by omega] at this
  omega

theorem le_compactWord_iff {n : Nat} (hn : 0 < n) :
    2 ^ 23 ≤ compactWord n ↔ 128 ≤ n / 256 ^ (byteLength n - 1) := by
  have hL := one_le_byteLength hn
  rw [Nat.le_div_iff_mul_le (Nat.pow_pos (by decide))]
  unfold compactWord
  split
  · rcases (by omega : byteLength n = 1 ∨ byteLength n = 2 ∨ byteLength n = 3) with h | h | h <;>
      rw [h] <;> norm_num <;> omega
  · rw [Nat.le_div_iff_mul_le (Nat.pow_pos (by decide)), (pow_byteLength_eq (by omega)).1]
    constructor <;> intro h <;> linarith

theorem toNat_bigToCompact {n : Nat} (hn : 0 < n) (hL : byteLength n ≤ 32) :
    (bigToCompact n).toNat = if 2 ^ 23 ≤ compactWord n
      then 2 ^ 24 * (byteLength n + 1) + 2 ^ 16 * byteLength n + compactWord n / 256
      else 2 ^ 24 * byteLength n + compactWord n := by
  have hW := compactWord_lt n
  have hWnat : (compactWord n).toUInt32.toNat = compactWord n :=
    (UInt32.toNat_ofNat' _).trans (Nat.mod_eq_of_lt (by omega))
  have hsize : (byteLength n).toUInt32.toNat = byteLength n :=
    (UInt32.toNat_ofNat' _).trans (Nat.mod_eq_of_lt (by omega))
  have hcompact : (if (byteLength n).toUInt32 ≤ 3 then
        ((byteLength n).toUInt32 <<< 24) ||| (n * 256 ^ (3 - byteLength n)).toUInt32
      else ((byteLength n).toUInt32 <<< 24) ||| (n / 256 ^ (byteLength n - 3)).toUInt32) =
      ((byteLength n).toUInt32 <<< 24) ||| (compactWord n).toUInt32 := by
    have hle : (byteLength n).toUInt32 ≤ 3 ↔ byteLength n ≤ 3 := by
      show (byteLength n).toUInt32.toNat ≤ (3 : UInt32).toNat ↔ _
      rw [hsize]
      rfl
    unfold compactWord
    by_cases h3 : byteLength n ≤ 3
    · rw [if_pos (hle.2 h3), if_pos h3]
    · rw [if_neg (mt hle.1 h3), if_neg h3]
  have hpack : (((byteLength n).toUInt32 <<< 24) ||| (compactWord n).toUInt32).toNat =
      2 ^ 24 * byteLength n + compactWord n := by
    rw [UInt32.toNat_pack _ _ (by omega), hsize, hWnat]
    omega
  unfold bigToCompact
  rw [if_neg (by exact_mod_cast hn.ne')]
  simp only [Int.natAbs_ofNat, hcompact]
  by_cases htop : 2 ^ 23 ≤ compactWord n
  · have hshift : ((((byteLength n).toUInt32 <<< 24) ||| (compactWord n).toUInt32) >>> 8 &&& 0x007fffff).toNat =
        2 ^ 16 * byteLength n + compactWord n / 256 := by
      rw [UInt32.and_toNat, UInt32.toNat_shiftRight' _ _ (by decide), hpack,
        show (0x007fffff : UInt32).toNat = 2 ^ 23 - 1 from rfl, Nat.and_pow_two_sub_one_eq_mod]
      show (2 ^ 24 * byteLength n + compactWord n) / 2 ^ 8 % 2 ^ 23 = _
      omega
    rw [if_pos (by rw [signBit_iff', hpack]; omega), if_pos htop, UInt32.toNat_pack _ _ (by rw [hshift]; omega),
      hshift, UInt32.toNat_add', hsize]
    show 2 ^ 24 * ((byteLength n + 1) % 2 ^ 32 % 2 ^ 8) + _ = _
    omega
  · rw [if_neg (by rw [signBit_iff', hpack]; omega), if_neg htop, hpack]

/-! ## What an encoded target decodes to -/

theorem byteLength_le_of_lt {n : Nat} (h : n < 2 ^ 256) : byteLength n ≤ 32 := by
  by_contra hL
  have hle := (Nat.pow_le_pow_right (by decide : 0 < 256) (by omega : 32 ≤ byteLength n - 1)).trans
    (pow_byteLength_le (by rintro rfl; simp [byteLength] at hL))
  exact absurd (hle.trans_lt h) (by norm_num)

theorem compactToBig_bigToCompact_le {n : Nat} (hn : 0 < n) (h256 : n < 2 ^ 256)
    (hlead : n / 256 ^ (byteLength n - 1) < 128) : compactToBig (bigToCompact n) ≤ n := by
  have htop : ¬ 2 ^ 23 ≤ compactWord n := mt (le_compactWord_iff hn).1 (by omega)
  have hc := toNat_bigToCompact hn (byteLength_le_of_lt h256)
  rw [if_neg htop] at hc
  rw [compactToBig_of_toNat hc (by omega), Nat.cast_le]
  unfold compactWord
  split
  · rw [Nat.mul_div_cancel _ (Nat.pow_pos (by decide))]
  · exact Nat.div_mul_le_self _ _

theorem lt_compactToBig_bigToCompact {n : Nat} (hn : 0 < n) (h256 : n < 2 ^ 256)
    (hlead : 128 ≤ n / 256 ^ (byteLength n - 1)) : (n : Int) < compactToBig (bigToCompact n) := by
  have htop : 2 ^ 23 ≤ compactWord n := (le_compactWord_iff hn).2 hlead
  have hL := byteLength_le_of_lt h256
  have hL1 := one_le_byteLength hn
  have hW := compactWord_lt n
  have hc := toNat_bigToCompact hn hL
  rw [if_pos htop, Nat.add_assoc] at hc
  rw [compactToBig_of_toNat hc (by omega), Nat.cast_lt]
  split
  · have hword : compactWord n = n * 256 ^ (3 - byteLength n) := if_pos (by omega)
    rcases (by omega : byteLength n = 1 ∨ byteLength n = 2) with h | h <;> rw [h] at hword ⊢ <;> norm_num at hword ⊢ <;>
      omega
  · have hpow : 256 ^ byteLength n = 2 ^ 16 * 256 ^ (byteLength n + 1 - 3) := by
      rw [show (2 : Nat) ^ 16 = 256 ^ 2 from rfl, ← Nat.pow_add]
      congr 1
      omega
    calc n < 256 ^ byteLength n := lt_pow_byteLength n
      _ = 2 ^ 16 * 256 ^ (byteLength n + 1 - 3) := hpow
      _ ≤ (2 ^ 16 * byteLength n + compactWord n / 256) * 256 ^ (byteLength n + 1 - 3) :=
        Nat.mul_le_mul_right _ (by omega)

/-! ## Retargeting at the minimum difficulty -/

theorem le_clamp_of_le {actual expected : BitVec 64} (he : 4 * expected.toNat < 2 ^ 63)
    (hge : (expected.toNat : Int) ≤ actual.toInt) :
    (expected.toNat : Int) ≤ (if (expected * 4).slt (if actual.slt (expected.sdiv 4) then expected.sdiv 4 else actual)
      then expected * 4 else if actual.slt (expected.sdiv 4) then expected.sdiv 4 else actual).toInt := by
  have hquarter := toInt_sdiv_four (x := expected) (by omega)
  have hfour := toInt_mul_four he
  have hup : ¬ actual.slt (expected.sdiv 4) := by
    simp only [BitVec.slt, hquarter, decide_eq_true_eq]
    omega
  rw [if_neg hup]
  split
  · rw [hfour]
    omega
  · exact hge

theorem retarget_at_min {T a e : Int} (hT : 0 ≤ T) (he : 0 < e) (hae : e ≤ a) :
    (if T * a / e > T then T else T * a / e) = T := by
  have : T ≤ T * a / e := (Int.le_ediv_iff_mul_le he).2 (Int.mul_le_mul_of_nonneg_left hae hT)
  split <;> omega

theorem calcNextBits_of_slow_window {blocks : List Block} {interval : UInt64} {blockTime : BitVec 64}
    {minBits : UInt32} {last : Block} (hlast : blocks.getLast? = some last) (hk : 1 ≤ interval.toNat)
    (hdiv : blocks.length % interval.toNat = 0) (hlen : blocks.length < 2 ^ 63) (hs : 1 ≤ blockTime.toInt)
    (hbound : 4 * interval.toNat * blockTime.toInt < 2 ^ 63) (hbits : last.header.bits = minBits)
    (hmin : 0 ≤ compactToBig minBits)
    (hspan : ((interval.toNat * blockTime.toNat : Nat) : Int) ≤
      (last.header.timestamp - (blocks.getD (blocks.length - interval.toNat) last).header.timestamp).toInt) :
    calcNextBits blocks interval blockTime minBits = .ok (bigToCompact (compactToBig minBits)) := by
  obtain ⟨hexp, hb, hs', hk0, he0⟩ := expectedTime_of_bound hk hs hbound
  have hks := Nat.mul_pos hk hs'
  have hpos : 0 < blocks.length := List.length_pos.2 fun h => by simp [h] at hlast
  have hle : interval.toNat ≤ blocks.length := Nat.le_of_dvd hpos (Nat.dvd_of_mod_eq_zero hdiv)
  have hheight : (UInt64.ofNat blocks.length).toNat = blocks.length := by rw [UInt64.toNat_ofNat']; omega
  have hmod : UInt64.ofNat blocks.length % interval = 0 :=
    UInt64.toNat.inj (by rw [UInt64.toNat_mod, hheight, hdiv]; rfl)
  have hsub : ((UInt64.ofNat blocks.length).toBitVec - interval.toBitVec).toNat = blocks.length - interval.toNat := by
    rw [BitVec.toNat_sub]
    show (2 ^ 64 - interval.toNat + (UInt64.ofNat blocks.length).toNat) % 2 ^ 64 = _
    have := interval.toNat_lt_size
    rw [hheight]
    omega
  have hstart : ((UInt64.ofNat blocks.length).toBitVec - interval.toBitVec).toInt =
      ((blocks.length - interval.toNat : Nat) : Int) := by
    rw [toInt_of_lt (by rw [hsub]; omega), hsub]
  have hidx : blocks[blocks.length - interval.toNat]? = some (blocks.getD (blocks.length - interval.toNat) last) := by
    rw [List.getD_eq_getElem?_getD, List.getElem?_eq_getElem (by omega)]
    rfl
  unfold calcNextBits
  simp only [hlast, hk0, hmod, he0, if_false, ne_eq, not_true_eq_false, hstart, Int.natCast_nonneg, not_lt.2,
    Int.toNat_natCast, hidx, hbits]
  have hexpInt : (interval.toBitVec * blockTime).toInt = ((interval.toBitVec * blockTime).toNat : Int) :=
    toInt_of_lt (by omega)
  have hclamp := @le_clamp_of_le
    (last.header.timestamp - (blocks.getD (blocks.length - interval.toNat) last).header.timestamp)
    (interval.toBitVec * blockTime) (by rw [hexp]; omega) (by rw [hexp]; exact hspan)
  rw [← hexpInt] at hclamp
  rw [retarget_at_min hmin (by rw [hexpInt]; omega) hclamp]

/-! ## The encoder makes targets easier -/

/-- `pow.go`'s compact round trip gives back more than the target exactly when its leading byte has the top bit set. -/
theorem bigToCompact_eases_high_lead_byte :
    (∀ t : Int, 0 ≤ t → t < 2 ^ 256 →
      (t.toNat / 256 ^ (byteLength t.toNat - 1) < 128 → compactToBig (bigToCompact t) ≤ t) ∧
      (128 ≤ t.toNat / 256 ^ (byteLength t.toNat - 1) → t < compactToBig (bigToCompact t))) ∧
    ∀ (blocks : List Block) (interval : UInt64) (blockTime : BitVec 64) (minBits : UInt32) (last : Block),
      blocks.getLast? = some last → 1 ≤ interval.toNat → blocks.length % interval.toNat = 0 →
      blocks.length < 2 ^ 63 → 1 ≤ blockTime.toInt → 4 * interval.toNat * blockTime.toInt < 2 ^ 63 →
      last.header.bits = minBits →
      ((interval.toNat * blockTime.toNat : Nat) : Int) ≤
        (last.header.timestamp - (blocks.getD (blocks.length - interval.toNat) last).header.timestamp).toInt →
      0 < compactToBig minBits → compactToBig minBits < 2 ^ 256 →
      128 ≤ (compactToBig minBits).toNat / 256 ^ (byteLength (compactToBig minBits).toNat - 1) →
      ∃ bits, calcNextBits blocks interval blockTime minBits = .ok bits ∧ compactToBig minBits < compactToBig bits := by
  have hround : ∀ t : Int, 0 < t → t < 2 ^ 256 →
      (t.toNat / 256 ^ (byteLength t.toNat - 1) < 128 → compactToBig (bigToCompact t) ≤ t) ∧
      (128 ≤ t.toNat / 256 ^ (byteLength t.toNat - 1) → t < compactToBig (bigToCompact t)) := by
    intro t ht h256
    obtain ⟨n, rfl⟩ := Int.eq_ofNat_of_zero_le ht.le
    have hn : 0 < n := by exact_mod_cast ht
    have h256' : n < 2 ^ 256 := by exact_mod_cast h256
    rw [Int.toNat_natCast]
    exact ⟨compactToBig_bigToCompact_le hn h256', lt_compactToBig_bigToCompact hn h256'⟩
  refine ⟨fun t h0 h256 => ?_, fun blocks interval blockTime minBits last hlast hk hdiv hlen hs hbound hbits hspan
    hpos h256 hlead => ⟨_, calcNextBits_of_slow_window hlast hk hdiv hlen hs hbound hbits hpos.le hspan,
      (hround _ hpos h256).2 hlead⟩⟩
  rcases h0.lt_or_eq with ht | rfl
  · exact hround t ht h256
  · exact ⟨fun _ => by rw [bigToCompact, if_pos rfl]; decide, fun h => absurd h (by simp)⟩

theorem bigToCompact_eases_minimum_target :
    (0 : Int) ≤ 0xFFFF * 2 ^ 224 ∧ (0xFFFF * 2 ^ 224 : Int) < 2 ^ 256 ∧
      128 ≤ (0xFFFF * 2 ^ 224 : Int).toNat / 256 ^ (byteLength (0xFFFF * 2 ^ 224 : Int).toNat - 1) ∧
      (0xFFFF * 2 ^ 224 : Int) < compactToBig (bigToCompact (0xFFFF * 2 ^ 224)) ∧
      bigToCompact (0xFFFF * 2 ^ 224) = 0x1F1EFFFF ∧ compactToBig 0x1F1EFFFF = 0x1EFFFF * 2 ^ 224 ∧
      [stampedBlock 0 0x1F00FFFF, stampedBlock 120 0x1F00FFFF].getLast? = some (stampedBlock 120 0x1F00FFFF) ∧
      compactToBig 0x1F00FFFF = 0xFFFF * 2 ^ 224 ∧
      ((2 * 60 : Nat) : Int) ≤ ((120 : BitVec 64) - 0).toInt ∧
      ∃ bits, calcNextBits [stampedBlock 0 0x1F00FFFF, stampedBlock 120 0x1F00FFFF] 2 60 0x1F00FFFF = .ok bits ∧
        compactToBig 0x1F00FFFF < compactToBig bits := by
  have hcast : (0xFFFF * 2 ^ 224 : Int) = ((0xFFFF * 2 ^ 224 : Nat) : Int) := by norm_num
  have hL : byteLength (0xFFFF * 2 ^ 224) = 30 := byteLength_eq_of (by norm_num) (by norm_num) (by norm_num)
  have hlead : 128 ≤ (0xFFFF * 2 ^ 224 : Int).toNat / 256 ^ (byteLength (0xFFFF * 2 ^ 224 : Int).toNat - 1) := by
    rw [hcast, Int.toNat_natCast, hL]
    norm_num
  have hmin : compactToBig 0x1F00FFFF = 0xFFFF * 2 ^ 224 := by
    rw [compactToBig_of_toNat (c := 0x1F00FFFF) (e := 31) (m := 0xFFFF) rfl (by norm_num)]
    norm_num
  have henc : bigToCompact (0xFFFF * 2 ^ 224) = 0x1F1EFFFF := by
    have hw : compactWord (0xFFFF * 2 ^ 224) = 0xFFFF00 := by
      rw [compactWord, hL]
      norm_num
    apply UInt32.toNat.inj
    rw [hcast, toNat_bigToCompact (by norm_num) (by rw [hL]; norm_num), hw, hL]
    rfl
  have hdec : compactToBig 0x1F1EFFFF = 0x1EFFFF * 2 ^ 224 := by
    rw [compactToBig_of_toNat (c := 0x1F1EFFFF) (e := 31) (m := 0x1EFFFF) rfl (by norm_num)]
    norm_num
  refine ⟨by norm_num, by norm_num, hlead,
    (bigToCompact_eases_high_lead_byte.1 _ (by norm_num) (by norm_num)).2 hlead, henc, hdec, rfl, hmin, by decide,
    bigToCompact_eases_high_lead_byte.2 _ 2 60 0x1F00FFFF (stampedBlock 120 0x1F00FFFF) rfl (by decide) (by decide)
      (by decide) (by decide) (by decide) rfl (by decide) (by rw [hmin]; norm_num) (by rw [hmin]; norm_num)
      (by rw [hmin]; exact hlead)⟩

end Pow

end DevInsiderCoin
