import Mathlib.Data.Rat.Defs
import Mathlib.Algebra.Group.Nat.Basic
import Mathlib.Algebra.Group.Int

/-! Go run-time conventions the model shares: panics, and the conversions between
`uint64`, `int64` and `int` (64 bits wide) that the node applies to heights and counts.
-/

set_option autoImplicit false

namespace DevInsiderCoin

/-- A Go run-time panic, by its message. -/
structure Panic where
  message : String
  deriving DecidableEq

/-- `int64(x)` for a `uint64`: the same bits read as a signed integer. -/
def int64OfUInt64 (x : UInt64) : Int := x.toBitVec.toInt

theorem int64OfUInt64_eq (x : UInt64) :
    int64OfUInt64 x = if x.toNat < 2 ^ 63 then (x.toNat : Int) else (x.toNat : Int) - 2 ^ 64 := by
  have hx : x.toNat < 2 ^ 64 := x.toNat_lt_size
  rw [int64OfUInt64, BitVec.toInt_eq_toNat_cond]
  simp only [UInt64.toNat] at hx ⊢
  split <;> split <;> omega

theorem int64OfUInt64_nonneg_iff (x : UInt64) : 0 ≤ int64OfUInt64 x ↔ x.toNat < 2 ^ 63 := by
  have hx : x.toNat < 2 ^ 64 := x.toNat_lt_size
  rw [int64OfUInt64_eq]
  split <;> omega

@[simp] theorem UInt64.toNat_add' (a b : UInt64) : (a + b).toNat = (a.toNat + b.toNat) % 2 ^ 64 :=
  BitVec.toNat_add _ _

@[simp] theorem UInt64.toNat_ofNat' (n : Nat) : (UInt64.ofNat n).toNat = n % 2 ^ 64 :=
  BitVec.toNat_ofNat _ _

@[simp] theorem UInt32.toNat_add' (a b : UInt32) : (a + b).toNat = (a.toNat + b.toNat) % 2 ^ 32 :=
  BitVec.toNat_add _ _

@[simp] theorem UInt32.toNat_ofNat' (n : Nat) : (UInt32.ofNat n).toNat = n % 2 ^ 32 :=
  BitVec.toNat_ofNat _ _

theorem UInt64.le_iff_toNat_le' {a b : UInt64} : a ≤ b ↔ a.toNat ≤ b.toNat := Iff.rfl

theorem UInt64.lt_iff_toNat_lt' {a b : UInt64} : a < b ↔ a.toNat < b.toNat := Iff.rfl

theorem UInt64.eq_iff_toNat_eq' {a b : UInt64} : a = b ↔ a.toNat = b.toNat :=
  ⟨congrArg _, UInt64.toNat.inj⟩

@[simp] theorem UInt64.ofNat_toNat' (a : UInt64) : UInt64.ofNat a.toNat = a :=
  UInt64.eq_iff_toNat_eq'.2 (by rw [UInt64.toNat_ofNat']; exact Nat.mod_eq_of_lt a.toNat_lt_size)

theorem UInt64.le_max' (a : UInt64) : a ≤ 18446744073709551615 :=
  UInt64.le_iff_toNat_le'.2 (Nat.le_pred_of_lt a.toNat_lt_size)

end DevInsiderCoin
