import DevInsiderCoin.Difficulty.Compact

/-! Bounds on the targets the node derives from the chain (`difficulty.go`): the progressive
floor only ever hardens, and an interval retarget never eases past the minimum difficulty or
past four times the last block's target, whatever the timestamps of the window.
-/

set_option autoImplicit false

namespace DevInsiderCoin

/-! ## The progressive floor -/

theorem bitsToTarget_progressiveDifficultyFloor (height epochBlocks : UInt64) (minBits : UInt32) :
    bitsToTarget (progressiveDifficultyFloor height epochBlocks minBits) =
      if epochBlocks = 0 ∨ height / epochBlocks = 0 then bitsToTarget minBits
      else compactRound (max (bitsToTarget minBits / 2 ^ min (height / epochBlocks).toNat 60) 1) := by
  unfold progressiveDifficultyFloor
  by_cases hE : epochBlocks = 0
  · simp [hE]
  by_cases h0 : height / epochBlocks = 0
  · simp [hE, h0]
  have hepoch : (if height / epochBlocks > 60 then 60 else height / epochBlocks).toNat =
      min (height / epochBlocks).toNat 60 := by
    split
    · rename_i h; exact (Nat.min_eq_right (Nat.le_of_lt h)).symm
    · rename_i h; exact (Nat.min_eq_left (Nat.le_of_not_lt h)).symm
  have hmax : ∀ f : Nat, (if f = 0 then 1 else f) = max f 1 := fun f => by split <;> omega
  have hlt : max (bitsToTarget minBits / 2 ^ min (height / epochBlocks).toNat 60) 1 < 2 ^ 2039 :=
    max_lt ((Nat.div_le_self _ _).trans_lt (bitsToTarget_lt minBits)) one_lt_two_pow_2039
  simp only [hE, h0, or_self, if_false, hepoch, Nat.shiftRight_eq_div_pow]
  rw [← bitsToTarget_targetToBits hlt, ← hmax]
  split <;> rfl

theorem compactRound_floor_le (T e : Nat) : compactRound (max (T / 2 ^ e) 1) ≤ T := by
  rcases Nat.eq_zero_or_pos T with rfl | hT
  · rw [Nat.zero_div, Nat.max_eq_right (Nat.zero_le 1), compactRound_one]
  · exact (compactRound_le _).trans (Nat.max_le.2 ⟨Nat.div_le_self _ _, hT⟩)

theorem compactRound_floor_anti (T : Nat) {e₁ e₂ : Nat} (h : e₁ ≤ e₂) :
    compactRound (max (T / 2 ^ e₂) 1) ≤ compactRound (max (T / 2 ^ e₁) 1) :=
  compactRound_mono (Nat.max_le.2 ⟨(Nat.div_le_div_left (Nat.pow_le_pow_right (by decide) h)
    (Nat.pow_pos (by decide))).trans (Nat.le_max_left _ _), Nat.le_max_right _ _⟩)

/-- The floor only ever tightens. -/
theorem progressiveDifficultyFloor_antitone (minBits : UInt32) (epochBlocks : UInt64) {h₁ h₂ : UInt64}
    (h : h₁ ≤ h₂) :
    bitsToTarget (progressiveDifficultyFloor h₂ epochBlocks minBits) ≤
        bitsToTarget (progressiveDifficultyFloor h₁ epochBlocks minBits) ∧
      bitsToTarget (progressiveDifficultyFloor h₁ epochBlocks minBits) ≤ bitsToTarget minBits := by
  have hdiv : (h₁ / epochBlocks).toNat ≤ (h₂ / epochBlocks).toNat := Nat.div_le_div_right h
  rw [bitsToTarget_progressiveDifficultyFloor, bitsToTarget_progressiveDifficultyFloor]
  by_cases hE : epochBlocks = 0
  · simp [hE]
  by_cases h0 : h₁ / epochBlocks = 0
  · rw [if_pos (Or.inr h0)]
    refine ⟨?_, le_rfl⟩
    split
    · exact le_rfl
    · exact compactRound_floor_le _ _
  have h0' : h₂ / epochBlocks ≠ 0 := fun h2 =>
    h0 (UInt64.eq_iff_toNat_eq'.2 (Nat.le_zero.1 (hdiv.trans (UInt64.eq_iff_toNat_eq'.1 h2).le)))
  rw [if_neg (by tauto), if_neg (by tauto)]
  exact ⟨compactRound_floor_anti _ (Nat.le_min.2 ⟨(Nat.min_le_left _ _).trans hdiv, Nat.min_le_right _ _⟩), compactRound_floor_le _ _⟩

theorem progressiveDifficultyFloor_antitone_epochs :
    (100 : UInt64) ≤ 250 ∧ (bitsToTarget (progressiveDifficultyFloor 250 100 0x1F00FFFF) ≤
        bitsToTarget (progressiveDifficultyFloor 100 100 0x1F00FFFF) ∧
      bitsToTarget (progressiveDifficultyFloor 100 100 0x1F00FFFF) ≤ bitsToTarget 0x1F00FFFF) :=
  ⟨by decide, progressiveDifficultyFloor_antitone 0x1F00FFFF 100 (by decide)⟩

/-! ## Retargeting -/

theorem toInt_of_lt {x : BitVec 64} (h : x.toNat < 2 ^ 63) : x.toInt = x.toNat := by
  rw [BitVec.toInt_eq_toNat_cond, if_pos (by omega)]

theorem toInt_eq_toNat_of_pos {x : BitVec 64} (h : 1 ≤ x.toInt) : x.toInt = x.toNat := by
  rw [BitVec.toInt_eq_toNat_cond] at h ⊢
  split at h <;> [rw [if_pos ‹_›]; omega]

theorem toNat_sdiv_four {x : BitVec 64} (h : x.toNat < 2 ^ 63) : (x.sdiv 4).toNat = x.toNat / 4 := by
  have hx : x.msb = false := BitVec.msb_eq_false_iff_two_mul_lt.2 (by omega)
  rw [BitVec.sdiv_eq, hx, show (4 : BitVec 64).msb = false from rfl]
  exact BitVec.toNat_udiv

theorem toInt_sdiv_four {x : BitVec 64} (h : x.toNat < 2 ^ 63) : (x.sdiv 4).toInt = (x.toNat / 4 : Nat) := by
  rw [toInt_of_lt (by rw [toNat_sdiv_four h]; omega), toNat_sdiv_four h]

theorem toInt_mul_four {x : BitVec 64} (h : 4 * x.toNat < 2 ^ 63) : (x * 4).toInt = 4 * x.toNat := by
  have h4 : (x * 4).toNat = 4 * x.toNat := by
    rw [BitVec.toNat_mul]; show x.toNat * 4 % 2 ^ 64 = _; omega
  rw [toInt_of_lt (by omega), h4, Int.natCast_mul]; rfl

/-- The expected time `adjustInterval · targetSeconds` does not wrap once four times it
fits an `int64`. -/
theorem toNat_expectedTime {adjustInterval : UInt64} {targetSeconds : BitVec 64}
    (h : 4 * (adjustInterval.toNat * targetSeconds.toNat) < 2 ^ 63) :
    (adjustInterval.toBitVec * targetSeconds).toNat = adjustInterval.toNat * targetSeconds.toNat := by
  rw [BitVec.toNat_mul]
  exact Nat.mod_eq_of_lt (by show adjustInterval.toNat * targetSeconds.toNat < 2 ^ 64; omega)

theorem expectedTime_of_bound {adjustInterval : UInt64} {targetSeconds : BitVec 64}
    (hk : 1 ≤ adjustInterval.toNat) (hs : 1 ≤ targetSeconds.toInt)
    (hbound : 4 * adjustInterval.toNat * targetSeconds.toInt < 2 ^ 63) :
    (adjustInterval.toBitVec * targetSeconds).toNat = adjustInterval.toNat * targetSeconds.toNat ∧
      4 * (adjustInterval.toNat * targetSeconds.toNat) < 2 ^ 63 ∧ 0 < targetSeconds.toNat ∧
      adjustInterval ≠ 0 ∧ adjustInterval.toBitVec * targetSeconds ≠ 0 := by
  have hsec := toInt_eq_toNat_of_pos hs
  have hb : 4 * (adjustInterval.toNat * targetSeconds.toNat) < 2 ^ 63 := by
    rw [hsec, Int.mul_assoc] at hbound; exact_mod_cast hbound
  have hexp := toNat_expectedTime hb
  have hs' : 0 < targetSeconds.toNat := by omega
  refine ⟨hexp, hb, hs', fun h => by rw [h] at hk; exact absurd hk (by decide), fun h => ?_⟩
  rw [BitVec.toNat_eq, hexp] at h
  exact absurd h (Nat.mul_pos hk hs').ne'

theorem clamp_bounds (actual expected : BitVec 64) (he : 4 * expected.toNat < 2 ^ 63) :
    let a₁ := if actual.slt (expected.sdiv 4) then expected.sdiv 4 else actual
    let a₂ := if (expected * 4).slt a₁ then expected * 4 else a₁
    ((expected.toNat / 4 : Nat) : Int) ≤ a₂.toInt ∧ a₂.toInt ≤ 4 * expected.toNat := by
  intro a₁ a₂
  have hquarter := toInt_sdiv_four (x := expected) (by omega)
  have hfour := toInt_mul_four he
  have h₁ : ((expected.toNat / 4 : Nat) : Int) ≤ a₁.toInt := by
    simp only [a₁]
    split
    · exact hquarter.ge
    · rename_i h; simp only [BitVec.slt, decide_eq_true_eq, not_lt] at h; omega
  simp only [a₂]
  split
  · rename_i h; rw [hfour]; omega
  · rename_i h; simp only [BitVec.slt, decide_eq_true_eq, not_lt] at h; omega

theorem clamp_of_within {actual expected : BitVec 64} (he : 4 * expected.toNat < 2 ^ 63)
    (hlo : expected.toNat / 4 ≤ actual.toNat) (hhi : actual.toNat ≤ 4 * expected.toNat) :
    (if (expected * 4).slt (if actual.slt (expected.sdiv 4) then expected.sdiv 4 else actual) then expected * 4
      else if actual.slt (expected.sdiv 4) then expected.sdiv 4 else actual) = actual := by
  have hquarter := toInt_sdiv_four (x := expected) (by omega)
  have hfour := toInt_mul_four he
  have ha := toInt_of_lt (x := actual) (by omega)
  have hup : ¬ actual.slt (expected.sdiv 4) := by
    simp only [BitVec.slt, hquarter, ha, decide_eq_true_eq]; omega
  have hdown : ¬ (expected * 4).slt actual := by
    simp only [BitVec.slt, hfour, ha, decide_eq_true_eq]; omega
  rw [if_neg hup, if_neg hdown]

theorem bitsToTarget_retarget_le (T maxT : Nat) {a e : Int} (he : 0 < e) (ha₀ : 0 ≤ a) (ha : a ≤ 4 * e)
    (hmax : maxT < 2 ^ 2039) :
    bitsToTarget (targetToBits (if (T : Int) * a / e > maxT then (maxT : Int) else (T : Int) * a / e)) ≤ maxT ∧
      bitsToTarget (targetToBits (if (T : Int) * a / e > maxT then (maxT : Int) else (T : Int) * a / e)) ≤
        4 * T := by
  have hlow : 0 ≤ (T : Int) * a / e := Int.ediv_nonneg (Int.mul_nonneg (Int.ofNat_nonneg T) ha₀) he.le
  have hhigh : (T : Int) * a / e ≤ 4 * T := Int.ediv_le_of_le_mul he (by
    calc (T : Int) * a ≤ T * (4 * e) := Int.mul_le_mul_of_nonneg_left ha (Int.ofNat_nonneg T)
      _ = 4 * T * e := by rw [← Int.mul_assoc, Int.mul_comm (T : Int) 4])
  have hx : 0 ≤ (if (T : Int) * a / e > maxT then (maxT : Int) else (T : Int) * a / e) ∧
      (if (T : Int) * a / e > maxT then (maxT : Int) else (T : Int) * a / e) ≤ maxT ∧
      (if (T : Int) * a / e > maxT then (maxT : Int) else (T : Int) * a / e) ≤ 4 * T := by
    split <;> omega
  generalize (if (T : Int) * a / e > maxT then (maxT : Int) else (T : Int) * a / e) = x at hx ⊢
  obtain ⟨hx₀, hxmax, hx4⟩ := hx
  rw [← Int.toNat_of_nonneg hx₀, bitsToTarget_targetToBits ((Int.toNat_le.2 hxmax).trans_lt hmax)]
  have := compactRound_le x.toNat
  omega

/-- A retarget eases the difficulty at most fourfold, and never below the minimum difficulty. -/
theorem calcNextBits_bounds (blocks : List Block) (adjustInterval : UInt64) (targetSeconds : BitVec 64)
    (minBits : UInt32) {last : Block} (hlast : blocks.getLast? = some last)
    (hn : adjustInterval.toNat ≤ blocks.length) (hk : 1 ≤ adjustInterval.toNat) (hs : 1 ≤ targetSeconds.toInt)
    (hbound : 4 * adjustInterval.toNat * targetSeconds.toInt < 2 ^ 63) :
    ∃ bits, calcNextBits blocks adjustInterval targetSeconds minBits = .ok bits ∧
      bitsToTarget bits ≤ bitsToTarget minBits ∧ bitsToTarget bits ≤ 4 * bitsToTarget last.header.bits := by
  obtain ⟨hexp, hb, hs', hk0, he0⟩ := expectedTime_of_bound hk hs hbound
  have hks := Nat.mul_pos hk hs'
  have hexpInt : (adjustInterval.toBitVec * targetSeconds).toInt =
      ((adjustInterval.toBitVec * targetSeconds).toNat : Int) := toInt_of_lt (by omega)
  unfold calcNextBits
  simp only [hlast, if_neg (show ¬ blocks.length < adjustInterval.toNat by omega), hk0, he0, if_false]
  refine ⟨_, rfl, ?_⟩
  obtain ⟨hlo, hhi⟩ := clamp_bounds (last.header.timestamp -
    (blocks.getD (blocks.length - adjustInterval.toNat) last).header.timestamp) _ (by rw [hexp]; omega)
  exact bitsToTarget_retarget_le _ _ (by omega) ((Int.ofNat_nonneg _).trans hlo) (by rw [hexpInt]; exact hhi)
    (bitsToTarget_lt minBits)

def stampedBlock (timestamp : BitVec 64) (bits : UInt32) : Block :=
  ⟨⟨1, "", "", timestamp, bits, 0, 0⟩, [], ""⟩

theorem calcNextBits_bounds_backwards :
    [stampedBlock 120 0x1F00FFFF, stampedBlock 60 0x1F00FFFF].getLast? = some (stampedBlock 60 0x1F00FFFF) ∧
      (2 : UInt64).toNat ≤ [stampedBlock 120 0x1F00FFFF, stampedBlock 60 0x1F00FFFF].length ∧
      1 ≤ (2 : UInt64).toNat ∧ 1 ≤ (60 : BitVec 64).toInt ∧ 4 * (2 : UInt64).toNat * (60 : BitVec 64).toInt < 2 ^ 63 ∧
      ∃ bits, calcNextBits [stampedBlock 120 0x1F00FFFF, stampedBlock 60 0x1F00FFFF] 2 60 0x1F00FFFF = .ok bits ∧
        bitsToTarget bits ≤ bitsToTarget 0x1F00FFFF ∧
        bitsToTarget bits ≤ 4 * bitsToTarget (stampedBlock 60 0x1F00FFFF).header.bits :=
  ⟨rfl, by decide, by decide, by decide, by decide,
    calcNextBits_bounds _ 2 60 0x1F00FFFF rfl (by decide) (by decide) (by decide) (by decide)⟩

theorem getLast?_map_range (window : Nat → Block) {k : Nat} (hk : 1 ≤ k) :
    ((List.range k).map window).getLast? = some (window (k - 1)) := by
  obtain ⟨j, rfl⟩ : ∃ j, k = j + 1 := ⟨k - 1, by omega⟩
  simp [List.range_succ]

theorem calcNextBits_steady (window : Nat → Block) (adjustInterval : UInt64) (targetSeconds : BitVec 64)
    (minBits : UInt32) (t₀ : BitVec 64) (hk : 2 ≤ adjustInterval.toNat) (hs : 1 ≤ targetSeconds.toInt)
    (hbound : 4 * adjustInterval.toNat * targetSeconds.toInt < 2 ^ 63)
    (htime : ∀ i < adjustInterval.toNat,
      (window i).header.timestamp = t₀ + BitVec.ofNat 64 (i * targetSeconds.toNat))
    (hcap : bitsToTarget (window (adjustInterval.toNat - 1)).header.bits ≤ bitsToTarget minBits) :
    calcNextBits ((List.range adjustInterval.toNat).map window) adjustInterval targetSeconds minBits =
      .ok (targetToBits (bitsToTarget (window (adjustInterval.toNat - 1)).header.bits *
        (adjustInterval.toNat - 1) / adjustInterval.toNat : Nat)) := by
  obtain ⟨hexp, hb, hs', hk0, he0⟩ := expectedTime_of_bound (by omega) hs hbound
  unfold calcNextBits
  simp only [getLast?_map_range window (by omega : 1 ≤ adjustInterval.toNat), List.length_map, List.length_range,
    lt_irrefl, hk0, he0, if_false]
  have hfirst : ((List.range adjustInterval.toNat).map window).getD (adjustInterval.toNat - adjustInterval.toNat)
      (window (adjustInterval.toNat - 1)) = window 0 := by
    simp [Nat.sub_self, List.getD_eq_getElem?_getD, List.getElem?_range (by omega : 0 < adjustInterval.toNat)]
  have hgaps : (adjustInterval.toNat - 1) * targetSeconds.toNat =
      adjustInterval.toNat * targetSeconds.toNat - targetSeconds.toNat := Nat.sub_one_mul _ _
  have htwo : 2 * targetSeconds.toNat ≤ adjustInterval.toNat * targetSeconds.toNat := Nat.mul_le_mul_right _ hk
  have hactual : (window (adjustInterval.toNat - 1)).header.timestamp - (window 0).header.timestamp =
      BitVec.ofNat 64 ((adjustInterval.toNat - 1) * targetSeconds.toNat) := by
    rw [htime _ (by omega), htime 0 (by omega), Nat.zero_mul, BitVec.add_zero,
      BitVec.add_comm t₀, BitVec.add_sub_cancel]
  have hactNat : (BitVec.ofNat 64 ((adjustInterval.toNat - 1) * targetSeconds.toNat)).toNat =
      (adjustInterval.toNat - 1) * targetSeconds.toNat := by
    rw [BitVec.toNat_ofNat]; exact Nat.mod_eq_of_lt (by omega)
  rw [hfirst, hactual, clamp_of_within (by rw [hexp]; omega) (by rw [hexp, hactNat]; omega)
    (by rw [hexp, hactNat]; omega), toInt_of_lt (by rw [hactNat]; omega), toInt_of_lt (by rw [hexp]; omega),
    hactNat, hexp]
  have hdiv : (bitsToTarget (window (adjustInterval.toNat - 1)).header.bits : Int) *
      ((adjustInterval.toNat - 1) * targetSeconds.toNat : Nat) / ((adjustInterval.toNat * targetSeconds.toNat : Nat) : Int) =
      ((bitsToTarget (window (adjustInterval.toNat - 1)).header.bits * (adjustInterval.toNat - 1) /
        adjustInterval.toNat : Nat) : Int) := by
    rw [← Int.natCast_mul, ← Int.ofNat_ediv, ← Nat.mul_assoc, Nat.mul_div_mul_right _ _ hs']
  have hle : bitsToTarget (window (adjustInterval.toNat - 1)).header.bits * (adjustInterval.toNat - 1) /
      adjustInterval.toNat ≤ bitsToTarget minBits :=
    (Nat.div_le_of_le_mul (Nat.mul_comm adjustInterval.toNat _ ▸
      Nat.mul_le_mul_left _ (Nat.sub_le _ 1))).trans hcap
  rw [hdiv, if_neg (by omega)]

end DevInsiderCoin
