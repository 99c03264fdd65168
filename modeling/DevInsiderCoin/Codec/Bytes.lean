import Mathlib.Data.List.Basic
import Mathlib.Algebra.Group.Nat.Basic

/-! Byte strings as Go's `encoding/hex` and `encoding/binary` read and write them.

Go's `[]byte` is a `List UInt8`. `hexDecode` keeps what `hex.DecodeString` returns on
an error, the bytes decoded before the first bad digit, since `padHashBytes` and the
miner's `decodeHexPad` use that prefix and ignore the error.
-/

set_option autoImplicit false

namespace DevInsiderCoin

/-- The value of one hexadecimal digit (`reverseHexTable`), either case. -/
def hexDigitValue (c : Char) : Option UInt8 :=
  if '0' ≤ c ∧ c ≤ '9' then some (c.toNat - '0'.toNat).toUInt8
  else if 'a' ≤ c ∧ c ≤ 'f' then some (c.toNat - 'a'.toNat + 10).toUInt8
  else if 'A' ≤ c ∧ c ≤ 'F' then some (c.toNat - 'A'.toNat + 10).toUInt8
  else none

/-- `hex.Decode` over the characters of a string: the bytes decoded before the first
invalid digit or a trailing odd digit, and whether the whole text decoded. -/
def hexDecode : List Char → List UInt8 × Bool
  | [] => ([], true)
  | [_] => ([], false)
  | p :: q :: rest =>
    match hexDigitValue p, hexDigitValue q with
    | some a, some b => ((a <<< 4 ||| b) :: (hexDecode rest).1, (hexDecode rest).2)
    | _, _ => ([], false)

/-- `hex.DecodeString`: the decoded prefix, and `true` when no error was reported. -/
def decodeString (s : String) : List UInt8 × Bool := hexDecode s.toList

def hexDigit (n : Nat) : Char := "0123456789abcdef".get ⟨n % 16⟩

def encodeToString (bytes : List UInt8) : String :=
  String.mk (bytes.flatMap fun b => [hexDigit (b.toNat / 16), hexDigit (b.toNat % 16)])

/-- `new(big.Int).SetBytes`: the unsigned big-endian value of a byte string. -/
def bytesToNat (bytes : List UInt8) : Nat := bytes.foldl (fun acc b => acc * 256 + b.toNat) 0

/-- The `width` low bytes of `n`, least significant first (`binary.LittleEndian.PutUintN`). -/
def putLE : Nat → Nat → List UInt8
  | 0, _ => []
  | width + 1, n => n.toUInt8 :: putLE width (n / 256)

/-- The `width` low bytes of `n`, most significant first (`binary.BigEndian.PutUintN`). -/
def putBE : Nat → Nat → List UInt8
  | 0, _ => []
  | width + 1, n => putBE width (n / 256) ++ [n.toUInt8]

def utf8Bytes (s : String) : List UInt8 := s.toUTF8.data.toList

@[simp] theorem length_putLE (width n : Nat) : (putLE width n).length = width := by
  induction width generalizing n <;> simp [putLE, *]

@[simp] theorem length_putBE (width n : Nat) : (putBE width n).length = width := by
  induction width generalizing n <;> simp [putBE, *]

@[simp] theorem toNat_toUInt8 (n : Nat) : n.toUInt8.toNat = n % 256 := BitVec.toNat_ofNat _ _

theorem bytesToNat_append_singleton (bytes : List UInt8) (b : UInt8) :
    bytesToNat (bytes ++ [b]) = bytesToNat bytes * 256 + b.toNat := by
  simp [bytesToNat]

theorem bytesToNat_putBE (width n : Nat) : bytesToNat (putBE width n) = n % 256 ^ width := by
  induction width generalizing n with
  | zero => simp [putBE, bytesToNat, Nat.mod_one]
  | succ w ih =>
    rw [putBE, bytesToNat_append_singleton, ih, toNat_toUInt8, Nat.pow_succ', Nat.mod_mul]
    omega

theorem utf8Size_hexDigit : ∀ n < 16, (hexDigit n).utf8Size = 1 := by decide

theorem utf8Size_hexDigit' (n : Nat) : (hexDigit n).utf8Size = 1 := by
  rw [show hexDigit n = hexDigit (n % 16) by simp only [hexDigit, Nat.mod_mod]]
  exact utf8Size_hexDigit _ (Nat.mod_lt _ (by decide))

@[simp] theorem utf8ByteSize_encodeToString (bytes : List UInt8) :
    (encodeToString bytes).utf8ByteSize = 2 * bytes.length := by
  induction bytes with
  | nil => rfl
  | cons b bs ih =>
    have hb : b.toNat < 256 := b.toNat_lt_size
    simp only [encodeToString, String.utf8ByteSize, List.flatMap_cons] at ih ⊢
    rw [List.cons_append, List.cons_append, List.nil_append, String.utf8ByteSize.go,
      String.utf8ByteSize.go, ih, utf8Size_hexDigit _ (by omega), utf8Size_hexDigit _ (by omega),
      List.length_cons]
    omega

@[simp] theorem length_encodeToString (bytes : List UInt8) :
    (encodeToString bytes).length = 2 * bytes.length := by
  induction bytes with
  | nil => rfl
  | cons b bs ih =>
    simp only [encodeToString, String.length, List.flatMap_cons, List.length_append] at ih ⊢
    simp only [List.length_cons, List.length_nil, ih]
    omega

theorem foldl_bytes_lt (bytes : List UInt8) (acc : Nat) :
    bytes.foldl (fun acc b => acc * 256 + b.toNat) acc < (acc + 1) * 256 ^ bytes.length := by
  induction bytes generalizing acc with
  | nil => simp
  | cons b bs ih =>
    have hb : b.toNat < 256 := b.toNat_lt_size
    calc _ < (acc * 256 + b.toNat + 1) * 256 ^ bs.length := ih _
      _ ≤ (acc + 1) * 256 * 256 ^ bs.length := Nat.mul_le_mul_right _ (by omega)
      _ = (acc + 1) * 256 ^ (b :: bs).length := by rw [List.length_cons, Nat.pow_succ]; ac_rfl

theorem bytesToNat_lt (bytes : List UInt8) : bytesToNat bytes < 256 ^ bytes.length := by
  simpa [bytesToNat] using foldl_bytes_lt bytes 0

end DevInsiderCoin
