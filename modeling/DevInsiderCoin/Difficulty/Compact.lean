import Mathlib.Data.Nat.Log
import DevInsiderCoin.Difficulty

/-! The compact target encoding, read as arithmetic.

`TargetToBits` keeps a target's byte count and its first three bytes, moved down a byte when
the third would set the mantissa's sign bit; `BitsToTarget` puts them back. Their composite is
`compactRound`: a target of three or more bytes is cut to its first two or three bytes, and
what is left is a fixed point. A target of one or two bytes is not moved up into the
mantissa's high bytes, as Bitcoin's encoder does, so it decodes shifted down past its last byte:
1 comes back as 0, and 0x1234 as 0x12.

All targets here are below `2 ^ 2039`, the largest value a compact number decodes to, so the
exponent byte never wraps.
-/

set_option autoImplicit false

namespace DevInsiderCoin

/-! ## Bits of a `uint32` -/

theorem UInt32.toNat_shiftRight' (x s : UInt32) (hs : s.toNat < 32) : (x >>> s).toNat = x.toNat / 2 ^ s.toNat := by
  show (x.toBitVec >>> (s % 32).toBitVec).toNat = _
  have hmod : (s % 32).toNat = s.toNat := Nat.mod_eq_of_lt hs
  simp only [BitVec.ushiftRight_eq', BitVec.toNat_ushiftRight, Nat.shiftRight_eq_div_pow]
  rw [show (s % 32).toBitVec.toNat = s.toNat from hmod]
  rfl

theorem UInt32.toNat_pack (e m : UInt32) (hm : m.toNat < 2 ^ 24) :
    ((e <<< 24) ||| m).toNat = 2 ^ 24 * (e.toNat % 2 ^ 8) + m.toNat := by
  have hshift : (e.toBitVec <<< (24 : UInt32).toBitVec).toNat = 2 ^ 24 * (e.toNat % 2 ^ 8) := by
    rw [BitVec.shiftLeft_eq', BitVec.toNat_shiftLeft, Nat.shiftLeft_eq]
    show e.toNat * 2 ^ 24 % 2 ^ 32 = _
    omega
  show ((e.toBitVec <<< (24 : UInt32).toBitVec) ||| m.toBitVec).toNat = _
  rw [BitVec.toNat_or, hshift, Nat.mul_add_lt_is_or hm]
  rfl

theorem and_two_pow_ne_zero_iff (x i : Nat) : x &&& 2 ^ i ≠ 0 ↔ x.testBit i = true := by
  constructor
  · intro h
    obtain ⟨j, hj⟩ := Nat.ne_zero_implies_bit_true h
    rw [Nat.testBit_and, Nat.testBit_two_pow] at hj
    simp only [Bool.and_eq_true, decide_eq_true_eq] at hj
    exact hj.2 ▸ hj.1
  · intro h h0
    have := congrArg (fun y => y.testBit i) h0
    simp [Nat.testBit_two_pow, h] at this

theorem signBit_iff {m : Nat} (hm : m < 2 ^ 24) : m.toUInt32 &&& 0x800000 ≠ 0 ↔ 2 ^ 23 ≤ m := by
  have hne : ∀ x : UInt32, x ≠ 0 ↔ x.toNat ≠ 0 := fun x => ⟨fun h h0 => h (UInt32.toNat.inj h0), fun h h0 => h (h0 ▸ rfl)⟩
  rw [hne, UInt32.and_toNat, show m.toUInt32.toNat = m from (UInt32.toNat_ofNat' m).trans (Nat.mod_eq_of_lt (by omega)),
    show (0x800000 : UInt32).toNat = 2 ^ 23 from rfl, and_two_pow_ne_zero_iff, Nat.testBit_to_div_mod, decide_eq_true_eq]
  omega
/-! ## Byte counts -/

theorem byteLength_eq_log {n : Nat} (hn : n ≠ 0) : byteLength n = Nat.log 256 n + 1 := by
  induction n using Nat.strong_induction_on with
  | _ n ih =>
    cases n with
    | zero => exact absurd rfl hn
    | succ k =>
      rw [byteLength]
      by_cases hsmall : k + 1 < 256
      · rw [Nat.div_eq_of_lt hsmall, Nat.log_of_lt hsmall, byteLength]
      · have hpos : 0 < Nat.log 256 (k + 1) := Nat.log_pos (by decide) (by omega)
        rw [ih _ (Nat.div_lt_self (by omega) (by decide)) (by omega), Nat.log_div_base]
        omega

theorem lt_pow_byteLength (n : Nat) : n < 256 ^ byteLength n := by
  rcases Nat.eq_zero_or_pos n with rfl | hn
  · simp [byteLength]
  · rw [byteLength_eq_log hn.ne']
    exact Nat.lt_pow_succ_log_self (by decide) n

theorem pow_byteLength_le {n : Nat} (hn : n ≠ 0) : 256 ^ (byteLength n - 1) ≤ n := by
  rw [byteLength_eq_log hn, Nat.add_sub_cancel]
  exact Nat.pow_log_le_self 256 hn

theorem byteLength_eq_of {n L : Nat} (hL : 0 < L) (h₁ : 256 ^ (L - 1) ≤ n) (h₂ : n < 256 ^ L) :
    byteLength n = L := by
  have hn : n ≠ 0 := Nat.ne_of_gt (Nat.lt_of_lt_of_le (Nat.pow_pos (by decide)) h₁)
  rw [byteLength_eq_log hn, Nat.log_eq_of_pow_le_of_lt_pow h₁ (by rwa [Nat.sub_add_cancel hL])]
  omega

theorem byteLength_mono {a b : Nat} (h : a ≤ b) : byteLength a ≤ byteLength b := by
  rcases Nat.eq_zero_or_pos a with rfl | ha
  · simp [byteLength]
  · rw [byteLength_eq_log ha.ne', byteLength_eq_log (by omega)]
    exact Nat.add_le_add_right (Nat.log_mono_right h) 1

/-! ## Encoding and decoding -/

/-- The mantissa `TargetToBits` starts from: the first three big-endian bytes of the
target, or the whole target when it has fewer. -/
def leadBytes (n : Nat) : Nat := if 3 ≤ byteLength n then n / 256 ^ (byteLength n - 3) else n

theorem leadBytes_lt (n : Nat) : leadBytes n < 2 ^ 24 := by
  have hn := lt_pow_byteLength n
  unfold leadBytes
  split
  · rw [Nat.div_lt_iff_lt_mul (Nat.pow_pos (by decide))]
    have : 256 ^ byteLength n = 2 ^ 24 * 256 ^ (byteLength n - 3) := by
      rw [show (2 : Nat) ^ 24 = 256 ^ 3 from rfl, ← Nat.pow_add]; congr 1; omega
    omega
  · calc n < 256 ^ byteLength n := hn
      _ ≤ 256 ^ 2 := Nat.pow_le_pow_right (by decide) (by omega)
      _ < 2 ^ 24 := by decide

/-- `TargetToBits` of a nonzero target: the exponent (its byte count, one more when the
mantissa's top bit is set) over the mantissa, the exponent taken modulo 256 as Go's
`uint32` shift does. -/
theorem toNat_targetToBits {n : Nat} (hn : n ≠ 0) :
    (targetToBits n).toNat =
      if 2 ^ 23 ≤ leadBytes n then 2 ^ 24 * ((byteLength n + 1) % 256) + leadBytes n / 256
      else 2 ^ 24 * (byteLength n % 256) + leadBytes n := by
  have hlead := leadBytes_lt n
  have hmant : (if 3 ≤ byteLength n then (n / 256 ^ (byteLength n - 3)).toUInt32 else n.toUInt32) =
      (leadBytes n).toUInt32 := by
    unfold leadBytes; split <;> rfl
  have hm : (leadBytes n).toUInt32.toNat = leadBytes n :=
    (UInt32.toNat_ofNat' _).trans (Nat.mod_eq_of_lt (by omega))
  unfold targetToBits
  simp only [Int.natCast_eq_zero, hn, if_false, Int.natAbs_ofNat, hmant]
  by_cases hge : 2 ^ 23 ≤ leadBytes n
  · have hshift : ((leadBytes n).toUInt32 >>> 8).toNat = leadBytes n / 2 ^ 8 := by
      rw [UInt32.toNat_shiftRight' _ _ (by decide), hm]; rfl
    rw [if_pos ((signBit_iff hlead).2 hge), if_pos hge, UInt32.toNat_pack _ _ (by rw [hshift]; omega), hshift,
      UInt32.toNat_add', UInt32.toNat_ofNat']
    show 2 ^ 24 * ((byteLength n % 2 ^ 32 + 1) % 2 ^ 32 % 2 ^ 8) + leadBytes n / 2 ^ 8 = _
    omega
  · rw [if_neg (mt (signBit_iff hlead).1 hge), if_neg hge, UInt32.toNat_pack _ _ (by rw [hm]; omega), hm,
      UInt32.toNat_ofNat']
    omega

theorem bitsToTarget_eq (bits : UInt32) :
    bitsToTarget bits = if bits.toNat / 2 ^ 24 ≤ 3 then bits.toNat % 2 ^ 23 / 256 ^ (3 - bits.toNat / 2 ^ 24)
      else bits.toNat % 2 ^ 23 * 256 ^ (bits.toNat / 2 ^ 24 - 3) := by
  have hmant : (bits &&& 0x007FFFFF).toNat = bits.toNat % 2 ^ 23 := by
    rw [UInt32.and_toNat]
    exact Nat.and_pow_two_sub_one_eq_mod _ 23
  unfold bitsToTarget
  rw [UInt32.toNat_shiftRight' _ _ (by decide), hmant]
  simp only [Nat.shiftRight_eq_div_pow, Nat.shiftLeft_eq, Nat.pow_mul]
  rfl

set_option exponentiation.threshold 2048 in
theorem two_pow_2039 : (2 : Nat) ^ 2039 = 2 ^ 23 * 256 ^ 252 := by
  rw [show (256 : Nat) ^ 252 = 2 ^ (8 * 252) from (Nat.pow_mul 2 8 252).symm, ← Nat.pow_add]

set_option exponentiation.threshold 2048 in
theorem one_lt_two_pow_2039 : 1 < 2 ^ 2039 := Nat.one_lt_two_pow (by decide)

/-- What `BitsToTarget` gives back from `TargetToBits` of a target below `2 ^ 2039`: a target
of one or two bytes shifted down past its last byte, a longer one cut to its first three
bytes, or to its first two when the third would set the mantissa's top bit. -/
def compactRound (n : Nat) : Nat :=
  if byteLength n ≤ 2 then n / 256 ^ (3 - byteLength n)
  else if leadBytes n < 2 ^ 23 then leadBytes n * 256 ^ (byteLength n - 3)
  else leadBytes n / 256 * 256 ^ (byteLength n - 2)

theorem unpack_compact {e m : Nat} (hm : m < 2 ^ 23) :
    (2 ^ 24 * e + m) / 2 ^ 24 = e ∧ (2 ^ 24 * e + m) % 2 ^ 23 = m := by
  omega

theorem bitsToTarget_targetToBits {n : Nat} (hn : n < 2 ^ 2039) :
    bitsToTarget (targetToBits n) = compactRound n := by
  rcases Nat.eq_zero_or_pos n with rfl | hpos
  · rw [show targetToBits ((0 : Nat) : Int) = 0 from if_pos rfl, bitsToTarget_eq]
    simp [compactRound, byteLength]
  have hL : byteLength n ≤ 255 := by
    by_contra h
    have hle := (Nat.pow_le_pow_right (by decide : 0 < 256) (by omega : 255 ≤ byteLength n - 1)).trans
      (pow_byteLength_le hpos.ne')
    rw [show (256 : Nat) ^ 255 = 2 ^ 24 * 256 ^ 252 by rw [show (2 : Nat) ^ 24 = 256 ^ 3 from rfl, ← Nat.pow_add]]
      at hle
    omega
  have hlead := leadBytes_lt n
  have hmod : byteLength n % 256 = byteLength n := Nat.mod_eq_of_lt (by omega)
  rw [two_pow_2039] at hn
  rw [bitsToTarget_eq, toNat_targetToBits hpos.ne']
  unfold compactRound
  by_cases hsmall : byteLength n ≤ 2
  · have hn16 : n < 2 ^ 16 := (lt_pow_byteLength n).trans_le
      ((Nat.pow_le_pow_right (by decide) hsmall).trans (by decide))
    have hlead' : leadBytes n = n := if_neg (by omega)
    obtain ⟨h1, h2⟩ := unpack_compact (e := byteLength n) (show n < 2 ^ 23 by omega)
    rw [hlead', if_neg (show ¬ 2 ^ 23 ≤ n by omega), if_pos hsmall, hmod, h1, h2,
      if_pos (show byteLength n ≤ 3 by omega)]
  · rw [if_neg hsmall]
    by_cases hhigh : 2 ^ 23 ≤ leadBytes n
    · have hL' : byteLength n ≤ 254 := by
        by_contra h
        have hlead' : leadBytes n = n / 256 ^ 252 := by
          rw [leadBytes, if_pos (by omega), show byteLength n - 3 = 252 by omega]
        rw [hlead', Nat.le_div_iff_mul_le (Nat.pow_pos (by decide))] at hhigh
        omega
      obtain ⟨h1, h2⟩ := unpack_compact (e := byteLength n + 1) (show leadBytes n / 256 < 2 ^ 23 by omega)
      rw [if_pos hhigh, if_neg (Nat.not_lt.2 hhigh), Nat.mod_eq_of_lt (show byteLength n + 1 < 256 by omega), h1, h2,
        if_neg (show ¬ byteLength n + 1 ≤ 3 by omega), show byteLength n + 1 - 3 = byteLength n - 2 by omega]
    · obtain ⟨h1, h2⟩ := unpack_compact (e := byteLength n) (Nat.lt_of_not_le hhigh)
      rw [if_neg hhigh, if_pos (Nat.lt_of_not_le hhigh), hmod, h1, h2]
      split
      · rw [show byteLength n = 3 by omega]
        simp
      · rfl

section Round

variable {n : Nat}

theorem leadBytes_of_le (h3 : 3 ≤ byteLength n) : leadBytes n = n / 256 ^ (byteLength n - 3) := if_pos h3

theorem pow_byteLength_eq (h3 : 3 ≤ byteLength n) :
    256 ^ (byteLength n - 1) = 2 ^ 16 * 256 ^ (byteLength n - 3) ∧
      256 ^ byteLength n = 2 ^ 24 * 256 ^ (byteLength n - 3) := by
  have hsplit : ∀ k, 256 ^ (k + (byteLength n - 3)) = 256 ^ k * 256 ^ (byteLength n - 3) :=
    fun k => Nat.pow_add _ _ _
  exact ⟨(congrArg (256 ^ ·) (by omega)).trans (hsplit 2), (congrArg (256 ^ ·) (by omega)).trans (hsplit 3)⟩

theorem le_leadBytes (h3 : 3 ≤ byteLength n) : 2 ^ 16 ≤ leadBytes n := by
  rw [leadBytes_of_le h3, Nat.le_div_iff_mul_le (Nat.pow_pos (by decide)), ← (pow_byteLength_eq h3).1]
  exact pow_byteLength_le (by rintro rfl; simp [byteLength] at h3)

theorem compactRound_of_lt (h3 : 3 ≤ byteLength n) (hmid : leadBytes n < 2 ^ 23) :
    compactRound n = leadBytes n * 256 ^ (byteLength n - 3) := by
  rw [compactRound, if_neg (by omega), if_pos hmid]

theorem compactRound_of_le (h3 : 3 ≤ byteLength n) (hhigh : 2 ^ 23 ≤ leadBytes n) :
    compactRound n = leadBytes n / 256 * (256 * 256 ^ (byteLength n - 3)) := by
  rw [compactRound, if_neg (by omega), if_neg (by omega), ← Nat.pow_succ']
  congr 2
  omega

theorem compactRound_le (n : Nat) : compactRound n ≤ n := by
  by_cases h3 : 3 ≤ byteLength n
  · by_cases hmid : leadBytes n < 2 ^ 23
    · rw [compactRound_of_lt h3 hmid, leadBytes_of_le h3]
      exact Nat.div_mul_le_self _ _
    · rw [compactRound_of_le h3 (by omega), leadBytes_of_le h3, Nat.div_div_eq_div_mul, Nat.mul_comm _ 256]
      exact Nat.div_mul_le_self _ _
  · rw [compactRound, if_pos (by omega)]
    exact Nat.div_le_self _ _

theorem pow_le_compactRound (h3 : 3 ≤ byteLength n) : 256 ^ (byteLength n - 1) ≤ compactRound n := by
  have hlead := le_leadBytes h3
  rw [(pow_byteLength_eq h3).1]
  by_cases hmid : leadBytes n < 2 ^ 23
  · rw [compactRound_of_lt h3 hmid]
    exact Nat.mul_le_mul_right _ hlead
  · rw [compactRound_of_le h3 (by omega), ← Nat.mul_assoc]
    exact Nat.mul_le_mul_right _ (by omega)

theorem compactRound_mono {a b : Nat} (h : a ≤ b) : compactRound a ≤ compactRound b := by
  have hL := byteLength_mono h
  by_cases hb3 : 3 ≤ byteLength b
  · by_cases hlt : byteLength a < byteLength b
    · calc compactRound a ≤ a := compactRound_le a
        _ ≤ 256 ^ byteLength a := (lt_pow_byteLength a).le
        _ ≤ 256 ^ (byteLength b - 1) := Nat.pow_le_pow_right (by decide) (by omega)
        _ ≤ compactRound b := pow_le_compactRound hb3
    have hab : byteLength a = byteLength b := by omega
    have ha3 : 3 ≤ byteLength a := hab ▸ hb3
    have hlead : leadBytes a ≤ leadBytes b := by
      rw [leadBytes_of_le ha3, leadBytes_of_le hb3, hab]
      exact Nat.div_le_div_right h
    by_cases hmb : leadBytes b < 2 ^ 23
    · rw [compactRound_of_lt ha3 (by omega), compactRound_of_lt hb3 hmb, hab]
      exact Nat.mul_le_mul_right _ hlead
    by_cases hma : leadBytes a < 2 ^ 23
    · rw [compactRound_of_lt ha3 hma, compactRound_of_le hb3 (by omega), hab, ← Nat.mul_assoc]
      exact Nat.mul_le_mul_right _ (by omega)
    · rw [compactRound_of_le ha3 (by omega), compactRound_of_le hb3 (by omega), hab]
      exact Nat.mul_le_mul_right _ (Nat.div_le_div_right hlead)
  · rw [compactRound, compactRound, if_pos (by omega), if_pos (by omega)]
    by_cases hab : byteLength a = byteLength b
    · rw [hab]
      exact Nat.div_le_div_right h
    · rw [Nat.div_eq_of_lt ((lt_pow_byteLength a).trans_le (Nat.pow_le_pow_right (by decide) (by omega)))]
      exact Nat.zero_le _

theorem compactRound_one : compactRound 1 = 0 := by
  rw [compactRound, show byteLength 1 = 1 from byteLength_eq_of (by decide) (by decide) (by decide)]
  rfl

end Round

theorem bitsToTarget_lt (bits : UInt32) : bitsToTarget bits < 2 ^ 2039 := by
  have hb := bits.toNat_lt_size
  rw [bitsToTarget_eq, two_pow_2039]
  split
  · calc bits.toNat % 2 ^ 23 / 256 ^ (3 - bits.toNat / 2 ^ 24) ≤ bits.toNat % 2 ^ 23 := Nat.div_le_self _ _
      _ < 2 ^ 23 * 1 := by omega
      _ ≤ 2 ^ 23 * 256 ^ 252 := Nat.mul_le_mul_left _ (Nat.one_le_pow _ _ (by decide))
  · calc bits.toNat % 2 ^ 23 * 256 ^ (bits.toNat / 2 ^ 24 - 3) < 2 ^ 23 * 256 ^ (bits.toNat / 2 ^ 24 - 3) :=
          Nat.mul_lt_mul_of_pos_right (Nat.mod_lt _ (by decide)) (Nat.pow_pos (by decide))
      _ ≤ 2 ^ 23 * 256 ^ 252 := Nat.mul_le_mul_left _ (Nat.pow_le_pow_right (by decide) (by
          simp only [UInt32.size] at hb; omega))

theorem targetToBits_congr {a b : Nat} (ha : a ≠ 0) (hb : b ≠ 0) (hL : byteLength a = byteLength b)
    (hlead : leadBytes a = leadBytes b) : targetToBits a = targetToBits b :=
  UInt32.toNat.inj (by rw [toNat_targetToBits ha, toNat_targetToBits hb, hL, hlead])

theorem targetToBits_compactRound {t : Nat} (h16 : 2 ^ 16 ≤ t) :
    targetToBits (compactRound t) = targetToBits t := by
  have h3 : 3 ≤ byteLength t := (show byteLength (2 ^ 16) = 3 from
    byteLength_eq_of (by decide) (by decide) (by decide)) ▸ byteLength_mono h16
  obtain ⟨hL1, hL⟩ := pow_byteLength_eq h3
  have hP : 0 < 256 ^ (byteLength t - 3) := Nat.pow_pos (by decide)
  have hlow := le_leadBytes h3
  have hhigh := leadBytes_lt t
  have hlead : ∀ m, 2 ^ 16 ≤ m → m < 2 ^ 24 → byteLength (m * 256 ^ (byteLength t - 3)) = byteLength t ∧
      leadBytes (m * 256 ^ (byteLength t - 3)) = m := fun m h₁ h₂ => by
    have hbytes : byteLength (m * 256 ^ (byteLength t - 3)) = byteLength t :=
      byteLength_eq_of (by omega) (by rw [hL1]; exact Nat.mul_le_mul_right _ h₁)
        (by rw [hL]; exact Nat.mul_lt_mul_of_pos_right h₂ hP)
    refine ⟨hbytes, ?_⟩
    rw [leadBytes_of_le (by rw [hbytes]; exact h3), hbytes, Nat.mul_div_cancel _ hP]
  have hne : t ≠ 0 := by omega
  by_cases hmid : leadBytes t < 2 ^ 23
  · obtain ⟨hbytes, hlead'⟩ := hlead _ hlow hhigh
    rw [compactRound_of_lt h3 hmid]
    exact targetToBits_congr (Nat.ne_of_gt (Nat.mul_pos (by omega) hP)) hne hbytes hlead'
  · obtain ⟨hbytes, hlead'⟩ := hlead (leadBytes t / 256 * 256) (by omega) (by omega)
    have hbit : 2 ^ 23 ≤ leadBytes t / 256 * 256 := by omega
    refine UInt32.toNat.inj ?_
    rw [compactRound_of_le h3 (by omega), ← Nat.mul_assoc, toNat_targetToBits (Nat.ne_of_gt
      (Nat.mul_pos (by omega) hP)), toNat_targetToBits hne, hbytes, hlead', if_pos hbit, if_pos (by omega),
      Nat.mul_div_cancel _ (by decide)]

theorem toNat_targetToBits_short {t : Nat} (ht0 : 0 < t) (ht : t < 2 ^ 16) :
    (targetToBits t).toNat = 2 ^ 24 * byteLength t + t ∧ 1 ≤ byteLength t ∧ byteLength t ≤ 2 := by
  have hL2 : byteLength t ≤ 2 := by
    have := pow_byteLength_le (Nat.ne_of_gt ht0)
    by_contra h
    have := (Nat.pow_le_pow_right (by decide : 0 < 256) (by omega : 2 ≤ byteLength t - 1)).trans this
    exact absurd ht (Nat.not_lt.2 this)
  have hL1 : 1 ≤ byteLength t := by
    rw [byteLength_eq_log (Nat.ne_of_gt ht0)]; omega
  refine ⟨?_, hL1, hL2⟩
  rw [toNat_targetToBits (Nat.ne_of_gt ht0), leadBytes, if_neg (show ¬ 3 ≤ byteLength t by omega),
    if_neg (show ¬ 2 ^ 23 ≤ t by omega)]
  omega

/-- `TargetToBits` does not left-align a target of one or two bytes. -/
theorem targetToBits_short_target (t : Nat) (ht0 : 0 < t) (ht : t < 2 ^ 16) :
    bitsToTarget (targetToBits t) < t ∧ targetToBits (bitsToTarget (targetToBits t)) ≠ targetToBits t := by
  obtain ⟨hbits, hL1, hL2⟩ := toNat_targetToBits_short ht0 ht
  have h2039 : t < 2 ^ 2039 := by
    rw [two_pow_2039]
    have := Nat.one_le_pow 252 256 (by decide)
    omega
  have hlt : bitsToTarget (targetToBits t) < t := by
    rw [bitsToTarget_targetToBits h2039, compactRound, if_pos hL2]
    exact Nat.div_lt_self ht0 (Nat.one_lt_pow (by omega) (by decide))
  refine ⟨hlt, fun heq => ?_⟩
  have hd := congrArg UInt32.toNat heq
  rw [hbits] at hd
  rcases Nat.eq_zero_or_pos (bitsToTarget (targetToBits t)) with hz | hpos
  · rw [hz, show targetToBits ((0 : Nat) : Int) = 0 from if_pos rfl] at hd
    exact absurd hd (by simp only [UInt32.toNat_zero]; omega)
  · rw [(toNat_targetToBits_short hpos (by omega)).1] at hd
    omega

theorem targetToBits_short_target_one :
    0 < 1 ∧ 1 < 2 ^ 16 ∧ (bitsToTarget (targetToBits 1) < 1 ∧
      targetToBits (bitsToTarget (targetToBits 1)) ≠ targetToBits 1) :=
  ⟨by decide, by decide, targetToBits_short_target 1 (by decide) (by decide)⟩

example : bitsToTarget 0x02001234 = 0x12 := by decide

end DevInsiderCoin
